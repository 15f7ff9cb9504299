import MadSqlite.SqliteRecord

/-! # Inserts that only the table can refuse

No lock is held by others and nothing fails but what the statement and the table make fail.
Then the keys that provide the values decide how an insert ends, and what they are of the
order of the keys is all that matters. -/
namespace TableInsert

open CppStrings ContentValues ContentMap SqliteConnection SqliteConnection.Connection SqliteExec
open MadDatabase HandleCalls RollbackRestores InsertText SqliteValues SqliteBindings SqliteTable
open SqliteRecord Runs

variable {σ : Type*}

/-- Every name is a column's, and there are not too many of them for a statement. -/
def Takes (t : Table σ) (fits : Multiset Bytes → Bool) (names : Multiset Bytes) : Prop :=
  (∀ n ∈ names, ∃ col ∈ t.columns, col.named n = true) ∧ fits names = true

instance (t : Table σ) (fits : Multiset Bytes → Bool) (names : Multiset Bytes) :
    Decidable (Takes t fits names) :=
  inferInstanceAs (Decidable (_ ∧ _))

/-- The program stores this content, or it is refused and undoes what it has done. -/
def Ends (d : Connection σ) : Option σ → Ran σ → Prop
  | some content, r => r.error = none ∧ r.work d.store.view = content ∧ r.commit = none ∧
      r.closeStatement = none ∧ (d.autoCommit = true → r.deferred = 0)
  | none, r => r.error ≠ none ∧ ¬r.KeepsWork ∧ r.endsTransaction true = false

structure Serves (t : Table σ) (limit : LengthLimit) (lib : ValueLibrary)
    (fits : Multiset Bytes → Bool) (d : Connection σ) (env : InsertEnv σ) : Prop where
  prepared : ∀ sql table names, readInsert sql = some (table, names) →
    sqlite3StrICmp table t.name = true → (env.prepare sql = none ↔ Takes t fits names)
  bound : ∀ i v, env.bind i v = none ↔ bindValue limit v ≠ none
  stepped : ∀ s table names, readInsert s.sql = some (table, names) →
    sqlite3StrICmp table t.name = true → ∃ r, env.step s = .ran r ∧
      Ends d (t.store d.store.view (t.values limit lib s names)) r

/-- What is seen after a statement that was refused. -/
def undone (d : Connection σ) : σ :=
  if d.autoCommit = true ∧ d.otherWriters = 0 then d.store.file else d.store.view

/-- No value of the container is over the limit. -/
def Bindable (limit : LengthLimit) (m : Contents) : Prop :=
  ∀ k ∈ m.keys, boundValue limit m k ≠ none

instance (limit : LengthLimit) (m : Contents) : Decidable (Bindable limit m) :=
  inferInstanceAs (Decidable (∀ k ∈ m.keys, _))

/-- The result of an insert and the content after it. -/
def outcome (t : Table σ) (limit : LengthLimit) (lib : ValueLibrary)
    (fits : Multiset Bytes → Bool) (d : Connection σ) (m : Contents)
    (key : Column → Option Bytes) : Bool × σ :=
  if m = ∅ ∨ ¬Takes t fits m.keys.val then (false, d.store.view)
  else if ¬Bindable limit m then (true, d.store.view)
  else
    match t.store d.store.view (t.rowOf limit lib m key) with
    | some content => (true, content)
    | none => (false, undone d)

variable {t : Table σ} {limit : LengthLimit} {lib : ValueLibrary}
  {fits : Multiset Bytes → Bool}

theorem Serves.stores {d : Connection σ} {env : InsertEnv σ}
    (hs : Serves t limit lib fits d env) : Stores t limit lib d.store.view env := by
  constructor
  · exact fun i v => (hs.bound i v).mp
  · intro s table names r hread ht hstep herr
    obtain ⟨r', hstep', hends⟩ := hs.stepped s table names hread ht
    cases hstep.symm.trans hstep'
    cases hst : t.store d.store.view (t.values limit lib s names) with
    | some content =>
      rw [hst] at hends
      rw [hends.2.1]
    | none =>
      rw [hst] at hends
      exact absurd herr hends.1

/-- A program that ends without error and has nothing left to fail keeps its change. -/
theorem changesStay_of_ends {d : Connection σ} {content : σ} {r : Ran σ}
    (h : Ends d (some content) r) : ChangesStay d r := by
  obtain ⟨herr, -, hcommit, hclose, hdeferred⟩ := h
  unfold ChangesStay
  split
  · next hc => exact ⟨.inl herr, hdeferred hc.1, hcommit⟩
  · refine ⟨.inl herr, ?_⟩
    have he : r.isEmergency true = false := by
      by_contra hn
      exact isEmergency_error (by simpa using hn) herr
    have ho : r.statementOp true ≠ none := by
      intro hn
      exact statementOp_error (w := true) (by simp [hn]) herr
    simp [Halt.endsTransaction, he, ho, hclose]

theorem undone_of_ends {d e : Connection σ} {c : InsertCall σ} {r : Ran σ} {a : Answer}
    (h : Ends d none r) (he : RanEffect d c r a e) : a ≠ none ∧ e.store.view = undone d := by
  obtain ⟨herr, hkeeps, hends⟩ := h
  unfold undone
  cases he with
  | committed ha ho hcom => exact absurd hcom.1 hkeeps
  | rolledBack ha ho hn =>
    rw [if_pos ⟨ha, ho⟩]
    exact ⟨Option.some_ne_none _, rfl⟩
  | ended hend hk => simp [hends] at hend
  | kept hn hend hk => exact absurd hk hkeeps
  | undone hn hend hk =>
    rw [if_neg hn]
    exact ⟨herr, by simp [withStmt]⟩

theorem keys_val {cv : ContentValues.Impl} {m : Contents} (h : Agrees cv m) (o : HashOrder) :
    (keys o cv : Multiset Bytes) = m.keys.val := by
  obtain ⟨hd, hmem⟩ := h.represents.keys o
  refine (Multiset.Nodup.ext (Multiset.coe_nodup.mpr hd) m.keys.nodup).mpr fun k => ?_
  rw [Multiset.mem_coe, hmem, Finset.mem_val, Finmap.mem_keys]

theorem bindsSucceed_iff {cv : ContentValues.Impl} {m : Contents} (h : Agrees cv m)
    {env : InsertEnv σ} (hb : ∀ i v, env.bind i v = none ↔ bindValue limit v ≠ none) :
    BindsSucceed cv env ↔ Bindable limit m := by
  obtain ⟨vs, hvs⟩ := exists_values h env.order
  unfold BindsSucceed
  rw [bindCalls_lookup h hvs]
  constructor
  · intro hall k hk
    obtain ⟨v, hv⟩ := Finmap.mem_iff.mp (Finmap.mem_keys.mp hk)
    have hks : k ∈ keys env.order cv := mem_keys.mpr ((h.mem k).mpr (Finmap.mem_keys.mp hk))
    obtain ⟨i, hi⟩ := List.mem_iff_getElem?.mp hks
    have hvi : vs[i]? = some v := (value_at hvs i v).mpr ⟨k, hi, hv⟩
    have hmem : (bindCallOf v, i + 1) ∈ (vs.map bindCallOf).zipIdx (0 + 1) := by
      rw [List.mem_zipIdx_iff_le_and_getElem?_sub]
      simp [hvi]
    have hbind := hall (i + 1, bindCallOf v) (List.mem_map_of_mem hmem)
    rw [boundValue, hv]
    exact (hb _ _).mp hbind
  · intro hall q hq
    obtain ⟨⟨w, j⟩, hmem, rfl⟩ := List.mem_map.mp hq
    have hw : w ∈ vs.map bindCallOf := List.fst_mem_of_mem_zipIdx hmem
    obtain ⟨v, hv, rfl⟩ := List.mem_map.mp hw
    obtain ⟨i, hi⟩ := List.mem_iff_getElem?.mp hv
    obtain ⟨k, -, hk⟩ := (value_at hvs i v).mp hi
    have hbound := hall k (Finmap.mem_keys.mpr (Finmap.mem_of_lookup_eq_some hk))
    rw [boundValue, hk] at hbound
    exact (hb j (bindCallOf v)).mpr hbound

theorem insertRan_none {c : InsertCall σ} (h : ¬(Prepared c ∧ BindsSucceed c.values.impl c.env)) :
    insertRan c = none := by
  by_contra hn
  obtain ⟨r, hr⟩ := Option.ne_none_iff_exists'.mp hn
  exact h ⟨(insertRan_some.mp hr).1, (insertRan_some.mp hr).2.1⟩

section Outcome

variable (p : Platform) {h : Impl σ} {c : InsertCall σ}

theorem outcome_not_ran (hr : insertRan c = none) :
    (insertValues p h c).2.db.store.view = h.db.store.view ∧
      ((insertValues p h c).1 = true ↔ Prepared c ∧ ¬BindsSucceed c.values.impl c.env) := by
  obtain ⟨b, stmts, m, hi, hb, -⟩ := insert_not_ran p h hr
  rw [hi]
  exact ⟨rfl, hb⟩

theorem outcome_stored {r : Ran σ} (hr : insertRan c = some r) {content : σ}
    (he : Ends h.db (some content) r) :
    (insertValues p h c).1 = true ∧ (insertValues p h c).2.db.store.view = content := by
  obtain ⟨a, d, n, m, heff, hi⟩ := insert_ran p h hr
  rw [hi]
  rcases changesStay_or_undone heff with ⟨-, ha, hv⟩ | ⟨hn, -⟩
  · exact ⟨decide_eq_true (ha.trans he.1), hv.trans he.2.1⟩
  · exact absurd (changesStay_of_ends he) hn

theorem outcome_refused {r : Ran σ} (hr : insertRan c = some r) (he : Ends h.db none r) :
    (insertValues p h c).1 = false ∧ (insertValues p h c).2.db.store.view = undone h.db := by
  obtain ⟨a, d, n, m, heff, hi⟩ := insert_ran p h hr
  rw [hi]
  obtain ⟨ha, hv⟩ := undone_of_ends he heff
  exact ⟨decide_eq_false ha, hv⟩

end Outcome

section Insert

variable {h : Impl σ} {table : Bytes} {calls : List ContentMap.Call} {env : InsertEnv σ}

/-- The statement of an insert is taken when the table takes the names of the container. -/
theorem prepared_iff_takes (hs : Serves t limit lib fits h.db env)
    (ht : sqlite3StrICmp table t.name = true) (hc : NamesClean (insertCall table calls env)) :
    Prepared (insertCall table calls env) ↔
      contents calls ≠ ∅ ∧ Takes t fits (contents calls).keys.val := by
  have hagrees := contents_agrees calls
  have hempty : isEmpty (insertCall table calls env).values.impl = false ↔ contents calls ≠ ∅ := by
    rw [← Bool.not_eq_true]
    exact not_congr hagrees.represents.isEmpty
  refine (and_congr_right fun he => ?_).trans (and_congr_left' hempty)
  rw [← keys_val hagrees env.order]
  exact hs.prepared _ _ _ (readInsert_of_namesClean he hc) ht

/-- Its program ends as the row asks for that the keys put together. -/
theorem insertRan_ends (hs : Serves t limit lib fits h.db env)
    (ht : sqlite3StrICmp table t.name = true) (hc : NamesClean (insertCall table calls env))
    (hp : Prepared (insertCall table calls env)) (hb : Bindable limit (contents calls)) :
    ∃ r, insertRan (insertCall table calls env) = some r ∧
      Ends h.db (t.store h.db.store.view (t.rowOf limit lib (contents calls) fun col =>
        col.keyFor (insertKeys calls env))) r := by
  have hagrees := contents_agrees calls
  have hread := readInsert_of_namesClean hp.1 hc
  obtain ⟨r, hstep, hends⟩ := hs.stepped (insertStmt table _ env) _ _ hread ht
  have hbind : BindsSucceed (insertCall table calls env).values.impl env :=
    (bindsSucceed_iff hagrees hs.bound).mpr hb
  exact ⟨r, insertRan_some.mpr ⟨hp, hbind, hstep⟩,
    values_insertStmt t limit lib table hagrees env ▸ hends⟩

/-- The order of the keys comes in with the key that provides a column's value, and nowhere
else. -/
theorem insert_outcome (p : Platform) (hs : Serves t limit lib fits h.db env)
    (ht : sqlite3StrICmp table t.name = true) (hc : NamesClean (insertCall table calls env)) :
    ((insertValues p h (insertCall table calls env)).1,
        (insertValues p h (insertCall table calls env)).2.db.store.view) =
      outcome t limit lib fits h.db (contents calls) fun col =>
        col.keyFor (insertKeys calls env) := by
  have hprep := prepared_iff_takes hs ht hc
  have hbind : BindsSucceed (insertCall table calls env).values.impl env ↔
      Bindable limit (contents calls) := bindsSucceed_iff (contents_agrees calls) hs.bound
  rw [Prod.ext_iff]
  unfold outcome
  by_cases hp : Prepared (insertCall table calls env)
  · rw [if_neg (not_or.mpr ⟨(hprep.mp hp).1, not_not.mpr (hprep.mp hp).2⟩)]
    by_cases hb : Bindable limit (contents calls)
    · rw [if_neg (not_not.mpr hb)]
      obtain ⟨r, hran, hends⟩ := insertRan_ends hs ht hc hp hb
      cases hstore : t.store h.db.store.view (t.rowOf limit lib (contents calls) fun col =>
          col.keyFor (insertKeys calls env)) with
      | some content =>
        rw [hstore] at hends
        exact outcome_stored p hran hends
      | none =>
        rw [hstore] at hends
        exact outcome_refused p hran hends
    · rw [if_pos hb]
      have hn := (not_congr hbind).mpr hb
      obtain ⟨hv, hres⟩ := outcome_not_ran p (h := h) (insertRan_none fun hb => hn hb.2)
      exact ⟨hres.mpr ⟨hp, hn⟩, hv⟩
  · rw [if_pos (or_iff_not_imp_left.mpr fun hne htakes => hp (hprep.mpr ⟨hne, htakes⟩))]
    obtain ⟨hv, hres⟩ := outcome_not_ran p (h := h) (insertRan_none fun hb => hp hb.1)
    exact ⟨Bool.eq_false_iff.mpr fun ht => hp (hres.mp ht).1, hv⟩

end Insert

theorem outcome_adds_iff {t : RowTable σ} (d : Connection σ) (m : Contents)
    (key : Column → Option Bytes) :
    ((outcome t.toTable limit lib fits d m key).1 = true ∧ ∃ row,
        t.rows (outcome t.toTable limit lib fits d m key).2 = row ::ₘ t.rows d.store.view) ↔
      m ≠ ∅ ∧ Takes t.toTable fits m.keys.val ∧ Bindable limit m ∧
        t.store d.store.view (t.rowOf limit lib m key) ≠ none := by
  unfold outcome
  split
  · next hn =>
    refine iff_of_false (fun h => Bool.false_ne_true h.1) ?_
    rintro ⟨hne, htakes, -⟩
    exact hn.elim hne (not_not.mpr htakes)
  · next hn =>
    rw [not_or, not_not] at hn
    split
    · next hb =>
      refine iff_of_false ?_ fun h => hb h.2.2.1
      rintro ⟨-, row, hrow⟩
      exact (Multiset.lt_cons_self _ row).ne hrow
    · next hb =>
      rw [not_not] at hb
      cases hst : t.store d.store.view (t.rowOf limit lib m key) with
      | none => simp
      | some content =>
        obtain ⟨row, hrow, -⟩ := t.adds _ _ _ hst
        exact iff_of_true ⟨rfl, row, hrow⟩ ⟨hn.1, hn.2, hb, Option.some_ne_none _⟩

/-- The program of a row that the table refuses. -/
def refused (t : Table σ) (limit : LengthLimit) (vs : List (Option SqlValue)) : Ran σ :=
  if limit.iLimit < rowLength t.columns vs then
    { Ran.conflict .abort with error := some stringTooBig }
  else .conflict .abort

/-- SQLite with the answers it gives when nothing else is in its way. -/
def serve (t : Table σ) (limit : LengthLimit) (lib : ValueLibrary) (d : Connection σ)
    (order : HashOrder) : InsertEnv σ where
  order := order
  prepare sql :=
    match readInsert sql with
    | some (table, names) =>
      if sqlite3StrICmp table t.name = true ∧ Takes t (fun _ => true) names then none
      else some (failure "table has no column of this name")
    | none => some syntaxFailure
  bind _ v := if bindValue limit v = none then some stringTooBig else none
  step s :=
    match readInsert s.sql with
    | some (_, names) =>
      match t.store d.store.view (t.values limit lib s names) with
      | some content => .ran (.stored fun _ => content)
      | none => .ran (refused t limit (t.values limit lib s names))
    | none => .notStarted syntaxFailure

def plainLibrary : ValueLibrary := ⟨fun _ => [], fun _ v => v⟩

/-- A column with one name. -/
def plainColumn (name : Bytes) (affinity : Affinity) : Column :=
  ⟨[name], affinity, false, fun h => absurd h (by decide)⟩

theorem plainColumn_named {a name : Bytes} {affinity : Affinity} :
    (plainColumn a affinity).named name = true ↔
      (cStr name).map upperToLower = (cStr a).map upperToLower := by
  simp [plainColumn, Column.named, sqlite3StrICmp]

theorem plainColumns_apart {columns : List (Bytes × Affinity)}
    (h : (columns.map fun c => (cStr c.1).map upperToLower).Nodup) :
    (columns.map fun c => plainColumn c.1 c.2).Pairwise fun a b =>
      ∀ name, a.named name = true → b.named name = false := by
  rw [List.pairwise_map]
  refine (List.pairwise_map.mp h).imp fun hne name ha => ?_
  rw [← Bool.not_eq_true, plainColumn_named]
  rw [plainColumn_named] at ha
  exact fun hb => hne (ha.symm.trans hb)

/-- A table without constraints and defaults, which takes every row whose record is within the
limit. -/
def listTable (limit : LengthLimit) (name : Bytes) (columns : List Column)
    (apart : columns.Pairwise fun a b => ∀ name, a.named name = true → b.named name = false) :
    RowTable (List Row) where
  name := name
  columns := columns
  apart := apart
  store content vs :=
    if limit.iLimit < rowLength columns vs then none else some (vs.map (·.getD .null) :: content)
  rows content := content
  adds := by
    intro content vs content' he
    split at he
    · cases he
    · cases he
      refine ⟨_, rfl, fun i col value _ _ hv => ?_⟩
      rw [List.getElem?_map, hv]
      rfl

/-- What it takes leaves two bytes for the header. -/
theorem listTable_room {name : Bytes} {columns : List Column}
    {apart : columns.Pairwise fun a b => ∀ name, a.named name = true → b.named name = false}
    {content content' : List Row} {vs : List (Option SqlValue)}
    (h : (listTable limit name columns apart).store content vs = some content') {v : SqlValue}
    (hv : v ∈ List.zipWith recorded columns vs) :
    (sqlite3VdbeSerialType SQLITE_DEFAULT_FILE_FORMAT v).2 + 2 ≤ limit.iLimit := by
  have hlen : rowLength columns vs ≤ limit.iLimit := by
    by_contra hn
    simp [listTable, not_le.mp hn] at h
  exact (value_lt_record SQLITE_DEFAULT_FILE_FORMAT hv).trans hlen

theorem refused_undoes (t : Table σ) (limit : LengthLimit) (vs : List (Option SqlValue)) :
    (refused t limit vs).error ≠ none ∧ ¬(refused t limit vs).KeepsWork ∧
      (refused t limit vs).endsTransaction true = false := by
  have herr : (refused t limit vs).error ≠ none := by
    unfold refused
    split
    · exact Option.some_ne_none _
    · exact Option.some_ne_none _
  have haction : (refused t limit vs).errorAction = .abort := by
    unfold refused
    split <;> rfl
  refine ⟨herr, ?_, ?_⟩
  · rintro (hn | ⟨hn, -⟩)
    · exact herr hn
    · cases haction.symm.trans hn
  · unfold refused
    split <;> rfl

theorem serve_serves (t : Table σ) (limit : LengthLimit) (lib : ValueLibrary) (d : Connection σ)
    (order : HashOrder) : Serves t limit lib (fun _ => true) d (serve t limit lib d order) := by
  constructor
  · intro sql table names hread ht
    simp [serve, hread, ht]
  · intro i v
    simp [serve]
  · intro s table names hread ht
    simp only [serve, hread]
    cases t.store d.store.view (t.values limit lib s names) with
    | some content => exact ⟨_, rfl, rfl, rfl, rfl, rfl, fun _ => rfl⟩
    | none => exact ⟨_, rfl, refused_undoes t limit _⟩

end TableInsert
