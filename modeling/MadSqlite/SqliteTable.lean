import MadSqlite.InsertText
import MadSqlite.SqliteBindings
import MadSqlite.RollbackRestores
import Mathlib.Data.Multiset.Basic

/-! # Storing a row

What `sqlite3Insert` makes of the statements that `insert` writes: which column a name stands
for and which parameter a column gets. What the table then does with the values, constraints
and defaults and the row id included, is left open. -/
namespace SqliteTable

open CppStrings ContentValues ContentMap SqliteTokens SqliteCommands SqliteConnection
open MadDatabase HandleCalls RollbackRestores InsertText SqliteValues SqliteBindings Runs

variable {σ : Type*}

def upperToLower (c : UInt8) : UInt8 := if 65 ≤ c ∧ c ≤ 90 then c + 32 else c

/-- Whether `sqlite3StrICmp` gives 0. -/
def sqlite3StrICmp (zLeft zRight : Bytes) : Bool :=
  (cStr zLeft).map upperToLower = (cStr zRight).map upperToLower

/-- What a name of the list can stand for: a column, or the row id, which has several names. -/
structure Column where
  names : List Bytes
  affinity : Affinity
  isRowid : Bool
  integer : isRowid = true → affinity = .integer

def Column.named (col : Column) (name : Bytes) : Bool :=
  col.names.any fun n => sqlite3StrICmp name n

/-- Of several names for one column the first one counts, for the row id the last one. -/
def Column.keyFor (col : Column) (names : List Bytes) : Option Bytes :=
  (if col.isRowid then names.reverse else names).find? col.named

def Column.indexFor (col : Column) (names : List Bytes) : Option ℕ :=
  ((if col.isRowid then names.zipIdx.reverse else names.zipIdx).find? fun q =>
    col.named q.1).map Prod.snd

/-- No name stands for two columns. A column that is not named has no value here; `store` is
none where the row is refused, by a constraint or for the length of its record. -/
structure Table (σ : Type*) where
  name : Bytes
  columns : List Column
  apart : columns.Pairwise fun a b => ∀ name, a.named name = true → b.named name = false
  store : σ → List (Option SqlValue) → Option σ

def idList : List Token → Option (List Bytes × List Token)
  | ⟨.id, text⟩ :: ⟨.comma, _⟩ :: ts =>
    (idList ts).map fun r => (sqlite3Dequote text :: r.1, r.2)
  | ⟨.id, text⟩ :: ⟨.rp, _⟩ :: ts => some ([sqlite3Dequote text], ts)
  | _ => none

def paramList : List Token → Option ℕ
  | [⟨.variable, [63]⟩, ⟨.rp, _⟩, ⟨.semi, _⟩] => some 1
  | ⟨.variable, [63]⟩ :: ⟨.comma, _⟩ :: ts => (paramList ts).map (· + 1)
  | _ => none

/-- The table and the column names of an INSERT with one parameter for each column. -/
def readInsert (sql : Bytes) : Option (Bytes × List Bytes) :=
  match tokenize (cStr sql) with
  | ⟨a, _⟩ :: ⟨b, _⟩ :: ⟨.id, table⟩ :: ⟨.lp, _⟩ :: ts =>
    match idList ts with
    | some (names, ⟨c, _⟩ :: ⟨.lp, _⟩ :: ts) =>
      if (a = kw "INSERT" ∧ b = kw "INTO" ∧ c = kw "VALUES") ∧
          paramList ts = some names.length then
        some (sqlite3Dequote table, names)
      else none
    | _ => none
  | _ => none

/-- The values that a statement with these names has for the columns. -/
def Table.values (t : Table σ) (limit : LengthLimit) (lib : ValueLibrary) (s : Stmt)
    (names : List Bytes) : List (Option SqlValue) :=
  t.columns.map fun col => (col.indexFor names).map fun i =>
    applyAffinity lib col.affinity (parameter limit s (i + 1))

/-- SQLite takes no value over the limit, and an INSERT that completes has stored its row. -/
structure Stores (t : Table σ) (limit : LengthLimit) (lib : ValueLibrary) (content : σ)
    (env : InsertEnv σ) : Prop where
  bound : WithinLimit limit env.bind
  stored : ∀ s table names r, readInsert s.sql = some (table, names) →
    sqlite3StrICmp table t.name = true → env.step s = .ran r → r.error = none →
      t.store content (t.values limit lib s names) = some (r.work content)

/-- A table whose rows can be looked at: what is stored is one row more, with the values that
its columns were given. -/
structure RowTable (σ : Type*) extends Table σ where
  rows : σ → Multiset Row
  adds : ∀ content vs content', store content vs = some content' →
    ∃ row, rows content' = row ::ₘ rows content ∧ ∀ (i : ℕ) (col : Column) (value : SqlValue),
      columns[i]? = some col → col.isRowid = false → vs[i]? = some (some value) →
        row[i]? = some value

/-- What is bound for a key of the container. -/
def boundValue (limit : LengthLimit) (m : Contents) (key : Bytes) : Option SqlValue :=
  (m.lookup key).bind fun v => bindValue limit (bindCallOf v)

/-- The values the columns get when these keys provide them. -/
def Table.rowOf (t : Table σ) (limit : LengthLimit) (lib : ValueLibrary) (m : Contents)
    (key : Column → Option Bytes) : List (Option SqlValue) :=
  t.columns.map fun col => (key col).map fun k =>
    applyAffinity lib col.affinity ((boundValue limit m k).getD .null)

theorem idList_idents {ks : List Bytes} (hn : ks ≠ [])
    (hd : ∀ k ∈ ks, sqlite3Dequote (bracketed k) = k) (ts : List Token) :
    idList ((ks.map ident).intersperse comma ++ rp :: ts) = some (ks, ts) := by
  induction ks with
  | nil => exact absurd rfl hn
  | cons key ks ih =>
    rw [List.forall_mem_cons] at hd
    cases ks with
    | nil => exact congrArg (fun k => some ([k], ts)) hd.1
    | cons key' ks =>
      have hrest := ih (List.cons_ne_nil _ _) hd.2
      have hcons : ((key :: key' :: ks).map ident).intersperse comma ++ rp :: ts =
          ident key :: comma :: (((key' :: ks).map ident).intersperse comma ++ rp :: ts) := rfl
      have hstep : ∀ us, idList (ident key :: comma :: us) =
          (idList us).map fun r => (sqlite3Dequote (bracketed key) :: r.1, r.2) := fun _ => rfl
      rw [hcons, hstep, hrest, hd.1]
      rfl

theorem paramList_params {ks : List Bytes} (hn : ks ≠ []) :
    paramList ((ks.map fun _ => param).intersperse comma ++ [rp, ⟨.semi, ascii ";"⟩]) =
      some ks.length := by
  induction ks with
  | nil => exact absurd rfl hn
  | cons key ks ih =>
    cases ks with
    | nil => rfl
    | cons key' ks =>
      have hstep : ∀ us, paramList (param :: comma :: us) = (paramList us).map (· + 1) :=
        fun _ => rfl
      have hcons : ((key :: key' :: ks).map fun _ => param).intersperse comma ++
          [rp, ⟨.semi, ascii ";"⟩] = param :: comma ::
            (((key' :: ks).map fun _ => param).intersperse comma ++ [rp, ⟨.semi, ascii ";"⟩]) :=
        rfl
      rw [hcons, hstep, ih (List.cons_ne_nil _ _)]
      rfl

theorem readInsert_of_readsBack {table : Bytes} {ks : List Bytes} (hn : ks ≠ [])
    (h : ReadsBack table ks) : readInsert (insertSql table ks) = some (table, ks) := by
  have htable : sqlite3Dequote (bracketed table) = table := h.names table List.mem_cons_self
  have hnames : ∀ k ∈ ks, sqlite3Dequote (bracketed k) = k := fun k hk =>
    h.names k (List.mem_cons_of_mem _ hk)
  rw [readInsert, h.tokens, insertTokens]
  simp only [ident, InsertText.lp, idList_idents hn hnames, paramList_params hn, htable,
    and_self, if_true]

/-- The statement of an insert, when its names need no escaping. -/
theorem readInsert_of_namesClean {c : InsertCall σ} (he : isEmpty c.values.impl = false)
    (hc : NamesClean c) : readInsert (insertSql c.table (keys c.env.order c.values.impl)) =
      some (c.table, keys c.env.order c.values.impl) :=
  readInsert_of_readsBack (keys_ne_nil he c.env.order) (readsBack_of_namesClean he hc)

theorem lookup_numbered (vs : List BindCall) (i j : ℕ) :
    ((vs.zipIdx (i + 1)).map fun q => (q.2, q.1)).reverse.lookup (i + j + 1) = vs[j]? := by
  induction vs generalizing i j with
  | nil => rfl
  | cons v vs ih =>
    rw [List.zipIdx_cons, List.map_cons, List.reverse_cons, List.lookup_append]
    cases j with
    | zero =>
      have hnone : ((vs.zipIdx (i + 1 + 1)).map fun q => (q.2, q.1)).reverse.lookup (i + 0 + 1) =
          none := by
        rw [List.lookup_eq_none_iff]
        intro q hq
        obtain ⟨r, hr, rfl⟩ := List.mem_map.mp (List.mem_reverse.mp hq)
        have hle := (List.mem_zipIdx hr).1
        simp
        omega
      rw [hnone]
      simp
    | succ j =>
      have hrest := ih (i + 1) j
      rw [show i + 1 + j + 1 = i + (j + 1) + 1 by omega] at hrest
      have hne : (i + (j + 1) + 1 == i + 1) = false := by simp
      rw [hrest]
      simp [List.lookup_cons, hne]

/-- A column gets the value bound at the position of the key that counts. -/
theorem indexFor_keyFor (col : Column) (ks : List Bytes) :
    (col.indexFor ks = none ∧ col.keyFor ks = none) ∨
      ∃ i k, col.indexFor ks = some i ∧ col.keyFor ks = some k ∧ ks[i]? = some k := by
  obtain ⟨qs, hqs, hks, hat⟩ : ∃ qs : List (Bytes × ℕ),
      (if col.isRowid then ks.zipIdx.reverse else ks.zipIdx) = qs ∧
      (if col.isRowid then ks.reverse else ks) = qs.map Prod.fst ∧
      ∀ q ∈ qs, ks[q.2]? = some q.1 := by
    refine ⟨_, rfl, ?_, ?_⟩
    · split <;> simp
    · intro q hq
      refine List.mem_zipIdx_iff_getElem?.mp ?_
      split at hq
      · exact List.mem_reverse.mp hq
      · exact hq
  unfold Column.indexFor Column.keyFor
  rw [hqs, hks, List.find?_map]
  cases hf : qs.find? fun q => col.named q.1 with
  | none => exact .inl ⟨rfl, congrArg (Option.map Prod.fst) hf⟩
  | some q =>
    have hq := hat q (List.mem_of_find?_eq_some hf)
    exact .inr ⟨q.2, q.1, rfl, congrArg (Option.map Prod.fst) hf, hq⟩

theorem values_insertStmt (t : Table σ) (limit : LengthLimit) (lib : ValueLibrary)
    (table : Bytes) {cv : ContentValues.Impl} {m : Contents} (h : Agrees cv m)
    (env : InsertEnv σ) :
    t.values limit lib (insertStmt table cv env) (keys env.order cv) =
      t.rowOf limit lib m fun col => col.keyFor (keys env.order cv) := by
  obtain ⟨vs, hvs⟩ := exists_values h env.order
  refine List.map_congr_left fun col _ => ?_
  dsimp only
  rcases indexFor_keyFor col (keys env.order cv) with ⟨hi, hk⟩ | ⟨i, k, hi, hk, hat⟩
  · rw [hi, hk]
    rfl
  · rw [hi, hk, Option.map_some, Option.map_some]
    have hbound : (insertStmt table cv env).bound.lookup (i + 1) = (vs.map bindCallOf)[i]? := by
      have hl := lookup_numbered (vs.map bindCallOf) 0 i
      rw [insertStmt, bindCalls_lookup h hvs]
      simpa using hl
    obtain ⟨v, hv⟩ := Finmap.mem_iff.mp ((h.mem k).mp (mem_keys.mp (List.mem_of_getElem? hat)))
    have hvi : vs[i]? = some v := (value_at hvs i v).mpr ⟨k, hat, hv⟩
    rw [parameter, hbound, List.getElem?_map, hvi, boundValue, hv]
    rfl

theorem keyFor_isSome {col : Column} {ks : List Bytes} {key : Bytes} (hk : key ∈ ks)
    (hn : col.named key = true) : ∃ k, col.keyFor ks = some k := by
  rw [← Option.isSome_iff_exists, Column.keyFor, List.find?_isSome]
  refine ⟨key, ?_, hn⟩
  split
  · exact List.mem_reverse.mpr hk
  · exact hk

/-- A key of the container that names a column, or another such key, provides its value. -/
theorem exists_provider {calls : List ContentMap.Call} {key : Bytes} {v : Value}
    (hput : (contents calls).lookup key = some v) {col : Column} (hn : col.named key = true)
    (env : InsertEnv σ) : ∃ k, col.keyFor (insertKeys calls env) = some k := by
  have hm : key ∈ contents calls := Finmap.mem_of_lookup_eq_some hput
  have hk : key ∈ insertKeys calls env := mem_keys.mpr (((contents_agrees calls).mem key).mpr hm)
  exact keyFor_isSome hk hn

theorem Column.ordinary {col : Column} (h : col.affinity ≠ .integer) : col.isRowid = false := by
  by_contra hr
  exact h (col.integer (by simpa using hr))

section Insert

variable (p : Platform) {t : Table σ} {limit : LengthLimit} {lib : ValueLibrary} {h : Impl σ}
  {table : Bytes} {calls : List ContentMap.Call} {env : InsertEnv σ}

/-- After an insert that returned true the row is stored, or a value was refused and nothing
has happened. -/
theorem returned_true (hs : Stores t limit lib h.db.store.view env)
    (ht : sqlite3StrICmp table t.name = true) (hc : NamesClean (insertCall table calls env))
    (hr : (insertValues p h (insertCall table calls env)).1 = true) :
    (¬BindsSucceed (run ContentMap.next .new calls).impl env ∧
      (insertValues p h (insertCall table calls env)).2.db.store.view = h.db.store.view) ∨
    (BindsSucceed (run ContentMap.next .new calls).impl env ∧
      t.store h.db.store.view (t.rowOf limit lib (contents calls) fun col =>
          col.keyFor (insertKeys calls env)) =
        some (insertValues p h (insertCall table calls env)).2.db.store.view) := by
  cases hran : insertRan (insertCall table calls env) with
  | none =>
    obtain ⟨b, stmts, m, hi, hb, -⟩ := insert_not_ran p h hran
    rw [hi] at hr ⊢
    exact .inl ⟨(hb.mp hr).2, rfl⟩
  | some r =>
    obtain ⟨hp, hbound, hstep⟩ := insertRan_some.mp hran
    obtain ⟨a, d, n, m, he, hi⟩ := insert_ran p h hran
    rw [hi] at hr ⊢
    have ha : a = none := of_decide_eq_true hr
    refine .inr ⟨hbound, ?_⟩
    rcases changesStay_or_undone he with ⟨-, har, hv⟩ | ⟨-, hn, -⟩
    · have hread := readInsert_of_namesClean hp.1 hc
      have hvalues := values_insertStmt t limit lib table (contents_agrees calls) env
      have hstored := hs.stored _ table _ r hread ht hstep (har ▸ ha)
      rw [← hv] at hstored
      exact (congrArg (t.store h.db.store.view) hvalues).symm.trans hstored
    · exact absurd ha hn

/-- The new row has in a column what was bound for the key that counts for it. -/
theorem stored_row {t : RowTable σ} (hs : Stores t.toTable limit lib h.db.store.view env)
    (ht : sqlite3StrICmp table t.name = true) (hc : NamesClean (insertCall table calls env))
    (hb : BindsSucceed (run ContentMap.next .new calls).impl env)
    (hr : (insertValues p h (insertCall table calls env)).1 = true) {i : ℕ} {col : Column}
    (hcol : t.columns[i]? = some col) (hord : col.isRowid = false) {k : Bytes}
    (hk : col.keyFor (insertKeys calls env) = some k) :
    ∃ row, t.rows (insertValues p h (insertCall table calls env)).2.db.store.view =
        row ::ₘ t.rows h.db.store.view ∧
      row[i]? = some (applyAffinity lib col.affinity
        ((boundValue limit (contents calls) k).getD .null)) := by
  rcases returned_true p hs ht hc hr with ⟨hn, -⟩ | ⟨-, hstore⟩
  · exact absurd hb hn
  · obtain ⟨row, hrows, hvalues⟩ := t.adds _ _ _ hstore
    refine ⟨row, hrows, hvalues i col _ hcol hord ?_⟩
    rw [Table.rowOf, List.getElem?_map, hcol, Option.map_some, hk, Option.map_some]

end Insert

end SqliteTable
