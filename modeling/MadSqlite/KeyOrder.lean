import MadSqlite.TableInsert
import Mathlib.Data.List.Pairwise

/-! # The order of the keys

An insert goes over the keys in the order of a hash set. Keys that differ only in the case of
letters name one column, and then that order decides which value the column gets. -/
namespace KeyOrder

open CppStrings ContentValues ContentMap SqliteConnection MadDatabase HandleCalls InsertText
open RollbackRestores SqliteValues SqliteBindings SqliteTable TableInsert Runs

variable {σ : Type*} {t : Table σ} {limit : LengthLimit} {lib : ValueLibrary}
  {fits : Multiset Bytes → Bool} {h : Impl σ}

/-- One SQLite and one name of the table, for whatever order of the keys. -/
structure Server (t : Table σ) (limit : LengthLimit) (lib : ValueLibrary)
    (fits : Multiset Bytes → Bool) (h : Impl σ) where
  table : Bytes
  intoTable : sqlite3StrICmp table t.name = true
  env : InsertEnv σ
  serves : Serves t limit lib fits h.db env

/-- The same answers for keys that come in another order. -/
def Server.inOrder (e : Server t limit lib fits h) (o : HashOrder) : InsertEnv σ :=
  { e.env with order := o }

/-- The result of an insert and the content after it. -/
def insertResult (p : Platform) (e : Server t limit lib fits h) (calls : List ContentMap.Call)
    (o : HashOrder) : Bool × σ :=
  let r := insertValues p h (insertCall e.table calls (e.inOrder o))
  (r.1, r.2.db.store.view)

/-- Containers with these contents are inserted alike, however they were filled and in
whatever order their keys come. -/
def SameRow (p : Platform) (e : Server t limit lib fits h) (m : Contents) : Prop :=
  ∀ calls calls' o o', contents calls = m → contents calls' = m →
    insertResult p e calls o = insertResult p e calls' o'

/-- A key that names the column, or none when there is none. -/
def Provides (m : Contents) (col : Column) : Option Bytes → Prop
  | some k => k ∈ m ∧ col.named k = true
  | none => ∀ k ∈ m, col.named k = false

/-- Whichever of the keys that name a column provides its value, the table stores the same or
takes none of them. -/
def Indifferent (t : Table σ) (limit : LengthLimit) (lib : ValueLibrary) (content : σ)
    (m : Contents) : Prop :=
  ∀ key key' : Column → Option Bytes, (∀ col ∈ t.columns, Provides m col (key col)) →
    (∀ col ∈ t.columns, Provides m col (key' col)) →
      t.store content (t.rowOf limit lib m key) = t.store content (t.rowOf limit lib m key')

def CleanNames (e : Server t limit lib fits h) (m : Contents) : Prop :=
  Clean e.table ∧ ∀ k ∈ m, Clean k

/-- The bind calls for the keys in this order. -/
def callsOf (m : Contents) (ks : List Bytes) : List (ℕ × BindCall) :=
  (((ks.filterMap m.lookup).map bindCallOf).zipIdx 1).map fun q => (q.2, q.1)

/-- How a program that halts ends: what it did stays, or an earlier content is seen. -/
def endOf (d : Connection σ) (r : Ran σ) : Bool × σ :=
  if ChangesStay d r then (decide (r.error = none), r.work d.store.view)
  else (false, if RollsBack d r then d.store.file else d.store.view)

/-- What SQLite answers to the text for the keys in this order, and to its bind calls and its
step, as a result and a content. -/
def ending (e : Server t limit lib fits h) (m : Contents) (ks : List Bytes) : Bool × σ :=
  if ks = [] ∨ e.env.prepare (insertSql e.table ks) ≠ none then (false, h.db.store.view)
  else if ∃ q ∈ callsOf m ks, e.env.bind q.1 q.2 ≠ none then (true, h.db.store.view)
  else
    match e.env.step ⟨insertSql e.table ks, (callsOf m ks).reverse, true, true, false⟩ with
    | .ran r => endOf h.db r
    | _ => (false, h.db.store.view)

def IsOrder (m : Contents) (ks : List Bytes) : Prop := (ks : Multiset Bytes) = m.keys.val

/-- With names that need no escaping: where SQLite takes all names and values, the table does
the same whichever of the keys for one column counts. With others the text is not the statement
that was meant, and SQLite has to answer alike to the texts of all orders. -/
structure SameRowWhen (e : Server t limit lib fits h) (m : Contents) : Prop where
  row : CleanNames e m → Takes t fits m.keys.val → Bindable limit m →
    Indifferent t limit lib h.db.store.view m
  unclean : ¬CleanNames e m → ∀ ks ks', IsOrder m ks → IsOrder m ks' →
    ending e m ks = ending e m ks'

theorem names_eq {col col' : Column} (hc : col ∈ t.columns) (hc' : col' ∈ t.columns)
    {name : Bytes} (hn : col.named name = true) (hn' : col'.named name = true) : col = col' := by
  by_contra hne
  have hsymm : Std.Symm fun a b : Column =>
      ∀ name, a.named name = true → b.named name = false := by
    refine ⟨fun a b hab n hb => ?_⟩
    rw [← Bool.not_eq_true]
    intro ha
    simp [hab n ha] at hb
  have hap := t.apart.forall hc hc' hne name hn
  simp [hn'] at hap

theorem find?_unique {α : Type*} {q : α → Bool} {l : List α} {a : α} (hm : a ∈ l)
    (hq : q a = true) (hu : ∀ b ∈ l, q b = true → b = a) : l.find? q = some a := by
  cases hf : l.find? q with
  | none => exact absurd hq (List.find?_eq_none.mp hf a hm)
  | some b => rw [hu b (List.mem_of_find?_eq_some hf) (List.find?_some hf)]

/-- These keys come first, as far as they are there. -/
def front (q : Bytes → Bool) : HashOrder where
  enum l := l.filter q ++ l.filter fun k => !q k
  perm l := List.filter_append_perm q l

/-- Keys that have to come before the others for these to provide the values; of those that
name the row id the last one counts. -/
def chosen (t : Table σ) (key : Column → Option Bytes) (k : Bytes) : Bool :=
  decide (∃ col ∈ t.columns, col.named k = true ∧
    (if col.isRowid then key col ≠ some k else key col = some k))

theorem chosen_iff {key : Column → Option Bytes} {col : Column} (hc : col ∈ t.columns)
    {k : Bytes} (hn : col.named k = true) : chosen t key k = true ↔
      (if col.isRowid then key col ≠ some k else key col = some k) := by
  rw [chosen, decide_eq_true_iff]
  constructor
  · rintro ⟨col', hc', hn', hk⟩
    rwa [names_eq hc hc' hn hn']
  · exact fun hk => ⟨col, hc, hn, hk⟩

/-- Where one key names the column, there is only one that can provide its value. -/
theorem provides_unique {m : Contents} {col : Column} {k k' : Option Bytes}
    (hp : Provides m col k) (hp' : Provides m col k')
    (hd : ∀ a ∈ m, ∀ b ∈ m, col.named a = true → col.named b = true → a = b) : k = k' := by
  cases k with
  | none =>
    cases k' with
    | none => rfl
    | some b => exact absurd hp'.2 (by simp [hp b hp'.1])
  | some a =>
    cases k' with
    | none => exact absurd hp.2 (by simp [hp' a hp.1])
    | some b => rw [hd a hp.1 b hp'.1 hp.2 hp'.2]

theorem keyFor_provides {m : Contents} (col : Column) {ks : List Bytes}
    (hks : ∀ k, k ∈ ks ↔ k ∈ m) : Provides m col (col.keyFor ks) := by
  have hside : ∀ k, k ∈ (if col.isRowid then ks.reverse else ks) ↔ k ∈ m := by
    intro k
    split
    · rw [List.mem_reverse, hks]
    · exact hks k
  cases hk : col.keyFor ks with
  | none =>
    intro k hkm
    simpa using List.find?_eq_none.mp hk k ((hside k).mpr hkm)
  | some k => exact ⟨(hside k).mp (List.mem_of_find?_eq_some hk), List.find?_some hk⟩

section Front

variable {key : Column → Option Bytes} {col : Column} {k : Bytes} {l : List Bytes}

/-- Of the keys at the front the first that names a column provides its value. -/
theorem find?_chosen (hc : col ∈ t.columns) (hr : col.isRowid = false) (hk : key col = some k)
    (hm : k ∈ l) (hn : col.named k = true) :
    (l.filter (chosen t key)).find? col.named = some k := by
  refine find?_unique (List.mem_filter.mpr ⟨hm, ?_⟩) hn fun b hb hnb => ?_
  · rw [chosen_iff hc hn, hr]
    exact hk
  · have hcb := (List.mem_filter.mp hb).2
    rw [chosen_iff hc hnb, hr] at hcb
    exact Option.some.inj (hcb.symm.trans hk)

/-- Of the others the last that names the row id provides it. -/
theorem find?_not_chosen (hc : col ∈ t.columns) (hr : col.isRowid = true)
    (hk : key col = some k) (hm : k ∈ l) (hn : col.named k = true) :
    (l.filter fun k => !chosen t key k).reverse.find? col.named = some k := by
  refine find?_unique (List.mem_reverse.mpr (List.mem_filter.mpr ⟨hm, ?_⟩)) hn
    fun b hb hnb => ?_
  · rw [Bool.not_eq_true', ← Bool.not_eq_true, chosen_iff hc hn, hr]
    exact fun hne => hne hk
  · have hcb := (List.mem_filter.mp (List.mem_reverse.mp hb)).2
    rw [Bool.not_eq_true', ← Bool.not_eq_true, chosen_iff hc hnb, hr] at hcb
    exact Option.some.inj ((not_not.mp hcb).symm.trans hk)

theorem keyFor_front {m : Contents} (hc : col ∈ t.columns) (hp : Provides m col (key col))
    (hl : ∀ k, k ∈ l ↔ k ∈ m) : col.keyFor ((front (chosen t key)).enum l) = key col := by
  have hmem : ∀ k, k ∈ (front (chosen t key)).enum l ↔ k ∈ m := fun k =>
    ((front (chosen t key)).perm l).mem_iff.trans (hl k)
  cases hk : key col with
  | none =>
    rw [hk] at hp
    refine provides_unique (keyFor_provides col hmem) hp fun a ha b _ hna => ?_
    exact absurd hna (by simp [hp a ha])
  | some k =>
    rw [hk] at hp
    obtain ⟨hkm, hn⟩ := hp
    have hin := (hl k).mpr hkm
    unfold Column.keyFor front
    dsimp only
    cases hr : col.isRowid with
    | false =>
      rw [if_neg Bool.false_ne_true, List.find?_append, find?_chosen hc hr hk hin hn,
        Option.some_or]
    | true =>
      rw [if_pos rfl, List.reverse_append, List.find?_append, find?_not_chosen hc hr hk hin hn,
        Option.some_or]

end Front

theorem mem_contents {m : Contents} {calls : List ContentMap.Call} (hm : contents calls = m)
    (k : Bytes) : k ∈ (run ContentMap.next .new calls).impl._keys ↔ k ∈ m := by
  rw [← hm]
  exact (contents_agrees calls).mem k

theorem mem_enum {m : Contents} {calls : List ContentMap.Call} (hm : contents calls = m)
    (o : HashOrder) (k : Bytes) :
    k ∈ o.enum (run ContentMap.next .new calls).impl._keys ↔ k ∈ m :=
  (o.perm _).mem_iff.trans (mem_contents hm k)

theorem rowOf_congr {m : Contents} {key key' : Column → Option Bytes}
    (hk : ∀ col ∈ t.columns, key col = key' col) :
    t.rowOf limit lib m key = t.rowOf limit lib m key' :=
  List.map_congr_left fun col hc => by rw [hk col hc]

/-- These keys in this order, when they are what there is to enumerate. -/
def fixed (ks : List Bytes) : HashOrder where
  enum l := if l.Perm ks then ks else l
  perm l := by
    split
    · next hp => exact hp.symm
    · exact .refl l

theorem fixed_enum {m : Contents} {calls : List ContentMap.Call} (hm : contents calls = m)
    {ks : List Bytes} (hk : IsOrder m ks) :
    (fixed ks).enum (run ContentMap.next .new calls).impl._keys = ks := by
  have hkeys := keys_val (contents_agrees calls) .insertion
  refine if_pos (Multiset.coe_eq_coe.mp ?_)
  rw [hk, ← hm, ← hkeys]
  rfl

theorem isOrder_enum {m : Contents} {calls : List ContentMap.Call} (hm : contents calls = m)
    (o : HashOrder) : IsOrder m (o.enum (run ContentMap.next .new calls).impl._keys) := by
  rw [IsOrder, ← hm]
  exact keys_val (contents_agrees calls) o

section Results

variable (p : Platform) (e : Server t limit lib fits h)

theorem insertResult_eq {m : Contents} (hclean : CleanNames e m) {calls : List ContentMap.Call}
    (hm : contents calls = m) (o : HashOrder) : insertResult p e calls o =
      outcome t limit lib fits h.db m fun col =>
        col.keyFor (o.enum (run ContentMap.next .new calls).impl._keys) := by
  have hc : NamesClean (insertCall e.table calls (e.inOrder o)) := by
    intro name hname
    rcases List.mem_cons.mp hname with rfl | hname
    · exact hclean.1
    · exact hclean.2 name ((mem_contents hm name).mp (mem_keys.mp hname))
  have hs : Serves t limit lib fits h.db (e.inOrder o) :=
    ⟨e.serves.prepared, e.serves.bound, e.serves.stepped⟩
  have ho := insert_outcome p hs e.intoTable hc
  rw [hm, insertKeys] at ho
  exact ho

theorem endOf_effect {d f : Connection σ} {c : InsertCall σ} {r : Ran σ} {a : Answer}
    (he : RanEffect d c r a f) : (decide (a = none), f.store.view) = endOf d r := by
  rw [endOf]
  rcases changesStay_or_undone he with ⟨hst, ha, hv⟩ | ⟨hst, ha, hundone⟩
  · rw [if_pos hst, ha, hv]
  · rw [if_neg hst, decide_eq_false ha]
    rcases hundone with ⟨hback, hv⟩ | ⟨hback, hv⟩
    · rw [if_pos hback, hv]
    · rw [if_neg hback, hv]

theorem bindCalls_callsOf {calls : List ContentMap.Call} (o : HashOrder) :
    bindCalls (run ContentMap.next .new calls).impl 0
        (keys o (run ContentMap.next .new calls).impl) =
      callsOf (contents calls) (keys o (run ContentMap.next .new calls).impl) := by
  obtain ⟨vs, hvs⟩ := exists_values (contents_agrees calls) o
  have hf : (keys o (run ContentMap.next .new calls).impl).filterMap (contents calls).lookup =
      vs := by
    have hid := congrArg (List.filterMap id) hvs
    simpa [List.filterMap_map, Function.comp_def] using hid
  rw [callsOf, hf, bindCalls_lookup (contents_agrees calls) hvs]

theorem keys_eq_nil_iff {cv : ContentValues.Impl} (o : HashOrder) :
    keys o cv = [] ↔ isEmpty cv = true := by
  have hlen : (keys o cv).length = cv._keys.length := (o.perm cv._keys).length_eq
  rw [← List.length_eq_zero_iff, hlen, isEmpty, decide_eq_true_iff, Nat.le_zero]

/-- Whatever the names are, the insert ends as SQLite answers. -/
theorem insertResult_ending {m : Contents} {calls : List ContentMap.Call}
    (hm : contents calls = m) (o : HashOrder) : insertResult p e calls o =
      ending e m (o.enum (run ContentMap.next .new calls).impl._keys) := by
  subst hm
  let c := insertCall e.table calls (e.inOrder o)
  have hcalls : bindCalls c.values.impl 0 (keys o c.values.impl) =
      callsOf (contents calls) (keys o c.values.impl) := bindCalls_callsOf o
  have hnot (hr : insertRan c = none) : insertResult p e calls o =
      (decide (Prepared c ∧ ¬BindsSucceed c.values.impl c.env), h.db.store.view) := by
    obtain ⟨hv, hres⟩ := outcome_not_ran p (h := h) hr
    refine Prod.ext ?_ hv
    rw [Bool.eq_iff_iff, decide_eq_true_iff]
    exact hres
  have hprep : Prepared c ↔ ¬(keys o c.values.impl = [] ∨
      e.env.prepare (insertSql e.table (keys o c.values.impl)) ≠ none) := by
    rw [not_or, not_not, keys_eq_nil_iff, Bool.not_eq_true]
    exact Iff.rfl
  have hbind : BindsSucceed c.values.impl c.env ↔
      ¬∃ q ∈ callsOf (contents calls) (keys o c.values.impl), e.env.bind q.1 q.2 ≠ none := by
    rw [← hcalls]
    simp only [ne_eq, not_exists, not_and, not_not]
    exact Iff.rfl
  change _ = ending e (contents calls) (keys o c.values.impl)
  unfold ending
  by_cases hp : Prepared c
  · rw [if_neg (hprep.mp hp)]
    by_cases hb : BindsSucceed c.values.impl c.env
    · have hprogress : insertProgress c.table c.values.impl c.env =
          e.env.step ⟨insertSql e.table (keys o c.values.impl),
            (callsOf (contents calls) (keys o c.values.impl)).reverse, true, true, false⟩ := by
        rw [← hcalls]
        rfl
      rw [if_neg (hbind.mp hb), ← hprogress]
      cases hs : insertProgress c.table c.values.impl c.env with
      | ran r =>
        obtain ⟨a, d, n, m, heff, hi⟩ := insert_ran p h (insertRan_some.mpr ⟨hp, hb, hs⟩)
        exact (congrArg (fun v => (v.1, v.2.db.store.view)) hi).trans (endOf_effect heff)
      | notStarted f =>
        rw [hnot (by simp [insertRan, hs]), decide_eq_false fun h => h.2 hb]
      | lockBusy msg =>
        rw [hnot (by simp [insertRan, hs]), decide_eq_false fun h => h.2 hb]
    · rw [if_pos (not_not.mp (mt hbind.mpr hb)), hnot (insertRan_none fun h => hb h.2),
        decide_eq_true ⟨hp, hb⟩]
  · rw [if_pos (not_not.mp (mt hprep.mpr hp)), hnot (insertRan_none fun h => hp h.1),
      decide_eq_false fun h => hp h.1]

theorem outcome_eq_iff {d : Connection σ} {m : Contents} {key key' : Column → Option Bytes} :
    outcome t limit lib fits d m key = outcome t limit lib fits d m key' ↔
      (m ≠ ∅ → Takes t fits m.keys.val → Bindable limit m →
        t.store d.store.view (t.rowOf limit lib m key) =
          t.store d.store.view (t.rowOf limit lib m key')) := by
  unfold outcome
  split
  · next hn => exact iff_of_true rfl fun hne htakes => absurd hn (by simp [hne, htakes])
  · next hn =>
    rw [not_or, not_not] at hn
    split
    · next hb => exact iff_of_true rfl fun _ _ hbind => absurd hbind hb
    · next hb =>
      rw [not_not] at hb
      simp only [ne_eq, hn.1, not_false_eq_true, hn.2, hb, true_implies]
      cases t.store d.store.view (t.rowOf limit lib m key) <;>
        cases t.store d.store.view (t.rowOf limit lib m key') <;> simp

theorem same_row_of_indifferent {m : Contents} (hc : CleanNames e m)
    (hw : Takes t fits m.keys.val → Bindable limit m →
      Indifferent t limit lib h.db.store.view m) : SameRow p e m := by
  intro calls calls' o o' hm hm'
  rw [insertResult_eq p e hc hm, insertResult_eq p e hc hm', outcome_eq_iff]
  intro _ htakes hbind
  exact hw htakes hbind _ _ (fun col _ => keyFor_provides col (mem_enum hm o))
    fun col _ => keyFor_provides col (mem_enum hm' o')

theorem indifferent_of_same_row {calls : List ContentMap.Call}
    (hc : CleanNames e (contents calls)) (hs : SameRow p e (contents calls))
    (htakes : Takes t fits (contents calls).keys.val) (hbind : Bindable limit (contents calls)) :
    Indifferent t limit lib h.db.store.view (contents calls) := by
  intro key key' hk hk'
  by_cases hne : contents calls = ∅
  · rw [hne] at hk hk'
    rw [rowOf_congr fun col hcol => provides_unique (hk col hcol) (hk' col hcol)
      fun a ha => absurd ha Finmap.notMem_empty]
  · -- An order for each of the two choices, and one container inserted in both.
    have hsame := hs calls calls (front (chosen t key)) (front (chosen t key')) rfl rfl
    rw [insertResult_eq p e hc rfl, insertResult_eq p e hc rfl, outcome_eq_iff] at hsame
    have hstore := hsame hne htakes hbind
    rwa [rowOf_congr fun col hcol => keyFor_front hcol (hk col hcol) (mem_contents rfl),
      rowOf_congr fun col hcol => keyFor_front hcol (hk' col hcol) (mem_contents rfl)] at hstore

/-- The order counts for nothing but the text, the bind calls and what comes of them. -/
theorem same_row_iff_ending (calls : List ContentMap.Call) : SameRow p e (contents calls) ↔
    ∀ ks ks', IsOrder (contents calls) ks → IsOrder (contents calls) ks' →
      ending e (contents calls) ks = ending e (contents calls) ks' := by
  constructor
  · intro hs ks ks' hk hk'
    have hsame := hs calls calls (fixed ks) (fixed ks') rfl rfl
    rwa [insertResult_ending p e rfl, insertResult_ending p e rfl, fixed_enum rfl hk,
      fixed_enum rfl hk'] at hsame
  · intro hall calls' calls'' o o' hm hm'
    rw [insertResult_ending p e hm, insertResult_ending p e hm']
    apply hall
    · exact isOrder_enum hm o
    · exact isOrder_enum hm' o'

/-- The same contents give the same row exactly when it makes no difference which of the keys
for one column provides its value, and with names that make another statement of the text, when
SQLite answers alike for every order. -/
theorem same_row_iff (calls : List ContentMap.Call) :
    SameRow p e (contents calls) ↔ SameRowWhen e (contents calls) := by
  constructor
  · intro hs
    constructor
    · intro hc
      exact indifferent_of_same_row p e hc hs
    · intro _
      exact (same_row_iff_ending p e calls).mp hs
  · intro hw
    by_cases hc : CleanNames e (contents calls)
    · exact same_row_of_indifferent p e hc (hw.row hc)
    · exact (same_row_iff_ending p e calls).mpr (hw.unclean hc)

theorem indifferent_of_distinct {content : σ} {m : Contents}
    (hd : ∀ col ∈ t.columns, ∀ k ∈ m, ∀ k' ∈ m,
      col.named k = true → col.named k' = true → k = k') :
    Indifferent t limit lib content m := by
  intro key key' hk hk'
  rw [rowOf_congr fun col hcol => provides_unique (hk col hcol) (hk' col hcol) (hd col hcol)]

/-- In particular when no column is named twice. -/
theorem same_row_of_distinct {m : Contents} (hc : CleanNames e m)
    (hd : ∀ col ∈ t.columns, ∀ k ∈ m, ∀ k' ∈ m,
      col.named k = true → col.named k' = true → k = k') : SameRow p e m :=
  same_row_of_indifferent p e hc fun _ _ => indifferent_of_distinct hd

/-- And whatever the names are, when there is one key at most or SQLite refuses the text of
every order. -/
theorem same_row_of_one_order {calls : List ContentMap.Call}
    (h1 : ∀ ks ks', IsOrder (contents calls) ks → IsOrder (contents calls) ks' → ks = ks') :
    SameRow p e (contents calls) := by
  apply (same_row_iff_ending p e calls).mpr
  intro ks ks' hk hk'
  rw [h1 ks ks' hk hk']

theorem same_row_of_refused {calls : List ContentMap.Call}
    (hr : ∀ ks, IsOrder (contents calls) ks → e.env.prepare (insertSql e.table ks) ≠ none) :
    SameRow p e (contents calls) := by
  apply (same_row_iff_ending p e calls).mpr
  intro ks ks' hk hk'
  rw [ending, ending, if_pos (.inr (hr ks hk)), if_pos (.inr (hr ks' hk'))]

end Results

def oneTable : RowTable (List Row) :=
  listTable defaultLimit (ascii "t") [plainColumn (ascii "a") .integer] (by simp)

def server : Server oneTable.toTable defaultLimit plainLibrary (fun _ => true)
    (Impl.opened []) where
  table := ascii "t"
  intoTable := by decide
  env := serve oneTable.toTable defaultLimit plainLibrary (.opened []) .insertion
  serves := serve_serves _ _ _ _ _

/-- A single key has no order, whatever SQLite makes of its bracket. -/
example : SameRow .noConversion server (contents [.putInteger (ascii "a]") 1]) := by
  refine same_row_of_one_order .noConversion server fun ks ks' hk hk' => ?_
  have hkeys : (contents [.putInteger (ascii "a]") 1]).keys.val = {ascii "a]"} := by decide
  rw [IsOrder, hkeys, Multiset.coe_eq_singleton] at hk hk'
  rw [hk, hk']

def twoTable : RowTable (List Row) :=
  listTable defaultLimit (ascii "t") _
    (@plainColumns_apart [(ascii "a", .integer), (ascii "b", .integer)] (by decide))

def twoServer : Server twoTable.toTable defaultLimit plainLibrary (fun _ => true)
    (Impl.opened []) where
  table := ascii "t"
  intoTable := by decide
  env := serve twoTable.toTable defaultLimit plainLibrary (.opened []) .insertion
  serves := serve_serves _ _ _ _ _

def twoNames : List ContentMap.Call := [.putInteger (ascii "A") 1, .putInteger (ascii "b") 2]

theorem mem_twoNames {k : Bytes} (hk : k ∈ contents twoNames) : k ∈ [ascii "A", ascii "b"] := by
  simpa [twoNames, contents, run, apply, Finmap.notMem_empty, or_comm] using hk

theorem twoNames_same : SameRow .noConversion twoServer (contents twoNames) := by
  have hclean : ∀ k ∈ [ascii "A", ascii "b"], Clean k := by decide
  have hdistinct : ∀ col ∈ twoTable.columns, ∀ k ∈ [ascii "A", ascii "b"],
      ∀ k' ∈ [ascii "A", ascii "b"], col.named k = true → col.named k' = true → k = k' := by
    decide
  refine (same_row_iff .noConversion twoServer twoNames).mpr ⟨fun _ _ _ => ?_, fun hn => ?_⟩
  · exact indifferent_of_distinct fun col hcol k hk k' hk' =>
      hdistinct col hcol k (mem_twoNames hk) k' (mem_twoNames hk')
  · exact absurd ⟨by decide, fun k hk => hclean k (mem_twoNames hk)⟩ hn

def reversed : HashOrder := ⟨List.reverse, List.reverse_perm⟩

def twoCases : List ContentMap.Call := [.putInteger (ascii "a") 1, .putInteger (ascii "A") 2]

theorem twoCases_differ : ¬SameRow .noConversion server (contents twoCases) := by
  intro hs
  exact absurd (hs twoCases twoCases .insertion reversed rfl rfl) (by decide)

end KeyOrder
