import MadSqlite.HandleCalls
import MadSqlite.MadQuery
import Mathlib.Logic.Function.Basic

/-! # Query pointers of the Java side

A pointer that the bridge hands out is to a `MadQuery` on the heap, which owns the
statement. It is deleted through a `void *`, so its memory goes and no destructor runs. -/
namespace JniQueries

open CppStrings HandleTable SqliteConnection MadDatabase Runs

variable {δ σ : Type*} [DecidableEq δ]

/-- The databases, and the objects on the heap with the `Impl` that each of them owns. -/
structure State (δ σ : Type*) where
  dbs : δ → MadDatabase.Impl σ
  queries : Table (δ × Option MadQuery.Impl)

def initial (dbs : δ → MadDatabase.Impl σ) : State δ σ := ⟨dbs, .empty⟩

/-- The new object and what it leaves of the other one. -/
def moveConstruct (other : Option MadQuery.Impl) : Option MadQuery.Impl × Option MadQuery.Impl :=
  (other, none)

def destroy (c : Connection σ) (impl : Option MadQuery.Impl) (commit : Answer) : Connection σ :=
  match impl with
  | none => c
  | some q => MadQuery.destructor c q commit

def query (s : State δ σ) (dbPtr : δ) (queryStr : Bytes) (args : Option (List Bytes))
    (env : QueryEnv) : ℕ × State δ σ :=
  let (statement, db) :=
    MadDatabase.query (s.dbs dbPtr) (cStr queryStr) ((args.getD []).map cStr) env
  let (q, c) := moveConstruct (some (.new statement))
  -- The local object goes out of scope.
  let db := { db with db := destroy db.db c none }
  (s.queries.next, ⟨Function.update s.dbs dbPtr db, s.queries.add (dbPtr, q)⟩)

def closeQuery (s : State δ σ) (nativePtr : ℕ) : State δ σ :=
  { s with queries := s.queries.remove nativePtr }

inductive Event (δ : Type*) where
  | query (dbPtr : δ) (queryStr : Bytes) (args : Option (List Bytes)) (env : QueryEnv)
  | closeQuery (nativePtr : ℕ)

def next (s : State δ σ) : Event δ → State δ σ
  | .query dbPtr queryStr args env => (query s dbPtr queryStr args env).2
  | .closeQuery nativePtr => closeQuery s nativePtr

def Holds (s : State δ σ) (db : δ) (i j : ℕ) : Prop :=
  ∃ q, (i, (db, some q)) ∈ s.queries.entries ∧ q.statement = some j

def statements (dbs : δ → MadDatabase.Impl σ) (db : δ) : List ℕ := (dbs db).db.stmts.ids

/-- The statements made since the start are those of the pointers that are open. -/
def NoLeak (dbs : δ → MadDatabase.Impl σ) (s : State δ σ) : Prop :=
  ∀ db j, (j ∈ statements s.dbs db ∧ j ∉ statements dbs db) ↔ ∃ i, Holds s db i j

/-- The query that is closed has no statement. -/
def ClosesNull (s : State δ σ) : Event δ → Prop
  | .query .. => True
  | .closeQuery i => ∀ db j, ¬Holds s db i j

structure Invariant (dbs : δ → MadDatabase.Impl σ) (s : State δ σ) : Prop where
  kept : ∀ db, statements dbs db ⊆ statements s.dbs db
  owned : ∀ db i j, Holds s db i j → j ∈ statements s.dbs db ∧ j ∉ statements dbs db
  distinct : ∀ db i i' j, Holds s db i j → Holds s db i' j → i = i'

section Steps

variable {dbs : δ → MadDatabase.Impl σ} {s : State δ σ}

/-- A query makes at most one statement, and its pointer owns it. -/
theorem query_spec (s : State δ σ) (dbPtr : δ) (queryStr : Bytes) (args : Option (List Bytes))
    (env : QueryEnv) : ∃ statement : Option ℕ,
      (∀ j, statement = some j → j ∉ statements s.dbs dbPtr) ∧
      (∀ db j, j ∈ statements (query s dbPtr queryStr args env).2.dbs db ↔
        j ∈ statements s.dbs db ∨ (db = dbPtr ∧ statement = some j)) ∧
      ∀ db i j, Holds (query s dbPtr queryStr args env).2 db i j ↔
        Holds s db i j ∨ (i = s.queries.next ∧ db = dbPtr ∧ statement = some j) := by
  obtain ⟨hids, hnew⟩ :=
    query_ids (s.dbs dbPtr) (cStr queryStr) ((args.getD []).map cStr) env
  refine ⟨(MadDatabase.query (s.dbs dbPtr) (cStr queryStr) ((args.getD []).map cStr) env).1,
    fun j hj => ?_, fun db j => ?_, fun db i j => ?_⟩
  · rw [hnew j hj]
    exact (s.dbs dbPtr).db.stmts.next_not_mem
  · unfold statements query
    by_cases he : db = dbPtr
    · subst he
      simp only [Function.update_self, moveConstruct, destroy, hids]
      simp
    · simp [he]
  · unfold Holds
    simp only [query, Table.mem_entries_add, moveConstruct]
    constructor
    · rintro ⟨q, hm | hm, hq⟩
      · exact .inl ⟨q, hm, hq⟩
      · cases hm
        exact .inr ⟨rfl, rfl, hq⟩
    · rintro (⟨q, hm, hq⟩ | ⟨rfl, rfl, hq⟩)
      · exact ⟨q, .inl hm, hq⟩
      · exact ⟨_, .inr rfl, hq⟩

omit [DecidableEq δ] in
theorem holds_closeQuery (s : State δ σ) (n : ℕ) (db : δ) (i j : ℕ) :
    Holds (closeQuery s n) db i j ↔ Holds s db i j ∧ i ≠ n := by
  unfold Holds closeQuery
  simp only [Table.mem_entries_remove]
  constructor
  · rintro ⟨q, ⟨hm, hn⟩, hq⟩
    exact ⟨⟨q, hm, hq⟩, hn⟩
  · rintro ⟨⟨q, hm, hq⟩, hn⟩
    exact ⟨q, ⟨hm, hn⟩, hq⟩

theorem next_invariant (s : State δ σ) (e : Event δ) (hs : Invariant dbs s) :
    Invariant dbs (next s e) := by
  cases e with
  | closeQuery n =>
    refine ⟨hs.kept, fun db i j hh => ?_, fun db i i' j hh hh' => ?_⟩
    · exact hs.owned db i j ((holds_closeQuery s n db i j).mp hh).1
    · exact hs.distinct db i i' j ((holds_closeQuery s n db i j).mp hh).1
        ((holds_closeQuery s n db i' j).mp hh').1
  | query dbPtr queryStr args env =>
    obtain ⟨statement, hnew, hids, hholds⟩ := query_spec s dbPtr queryStr args env
    refine ⟨fun db j hj => (hids db j).mpr (.inl (hs.kept db hj)), fun db i j hh => ?_,
      fun db i i' j hh hh' => ?_⟩
    · rw [next, hids]
      rcases (hholds db i j).mp hh with hh | ⟨-, rfl, hj⟩
      · obtain ⟨hm, hn⟩ := hs.owned db i j hh
        exact ⟨.inl hm, hn⟩
      · exact ⟨.inr ⟨rfl, hj⟩, fun hm => hnew j hj (hs.kept db hm)⟩
    · rcases (hholds db i j).mp hh with ho | ⟨rfl, rfl, hj⟩
      · rcases (hholds db i' j).mp hh' with ho' | ⟨-, rfl, hj⟩
        · exact hs.distinct db i i' j ho ho'
        · exact absurd (hs.owned db i j ho).1 (hnew j hj)
      · rcases (hholds db i' j).mp hh' with ho' | ⟨rfl, -, -⟩
        · exact absurd (hs.owned db i' j ho').1 (hnew j hj)
        · rfl

theorem noLeak_step (hs : Invariant dbs s) (hl : NoLeak dbs s) (e : Event δ) :
    NoLeak dbs (next s e) ↔ ClosesNull s e := by
  cases e with
  | query dbPtr queryStr args env =>
    obtain ⟨statement, hnew, hids, hholds⟩ := query_spec s dbPtr queryStr args env
    refine iff_of_true (fun db j => ⟨?_, ?_⟩) trivial
    · rintro ⟨hm, hn⟩
      rcases (hids db j).mp hm with hm | hj
      · obtain ⟨i, hh⟩ := (hl db j).mp ⟨hm, hn⟩
        exact ⟨i, (hholds db i j).mpr (.inl hh)⟩
      · exact ⟨s.queries.next, (hholds db _ j).mpr (.inr ⟨rfl, hj⟩)⟩
    · rintro ⟨i, hh⟩
      exact (next_invariant s _ hs).owned db i j hh
  | closeQuery n =>
    constructor
    · -- The statement stays, and the only pointer that owned it is gone.
      intro hl' db j hh
      obtain ⟨i, hh'⟩ := (hl' db j).mp (hs.owned db n j hh)
      obtain ⟨hh', hne⟩ := (holds_closeQuery s n db i j).mp hh'
      exact hne (hs.distinct db i n j hh' hh)
    · intro hc db j
      rw [show statements (next s (.closeQuery n)).dbs db = statements s.dbs db from rfl, hl db j]
      refine exists_congr fun i => ?_
      rw [next, holds_closeQuery, iff_self_and]
      rintro hh rfl
      exact hc db j hh

end Steps

/-- In every run the open pointers account for every statement that was made exactly when
no query with a statement is closed. -/
theorem no_leak_iff (dbs : δ → MadDatabase.Impl σ) (es : List (Event δ)) :
    AllStates next (NoLeak dbs) (initial dbs) es ↔ AllSteps next ClosesNull (initial dbs) es := by
  have hnone : ∀ db i j, ¬Holds (initial dbs) db i j := by
    rintro db i j ⟨q, hm, -⟩
    cases hm
  have hi : Invariant dbs (initial dbs) :=
    ⟨fun _ => List.Subset.refl _, fun db i j hh => absurd hh (hnone db i j),
      fun db i i' j hh => absurd hh (hnone db i j)⟩
  have hl : NoLeak dbs (initial dbs) := fun db j =>
    iff_of_false (fun hm => hm.2 hm.1) fun ⟨i, hh⟩ => hnone db i j hh
  exact allStates_iff_allSteps next_invariant (fun _ e hs hl => noLeak_step hs hl e) hi hl

def oneQuery : List (Event Unit) :=
  [.query () (ascii "SELECT 1") none ⟨fun _ => none, false, false, fun _ _ => none⟩,
    .closeQuery 0]

theorem oneQuery_leaks : ¬AllStates next (NoLeak fun _ => Impl.opened ([] : List ℕ))
    (initial fun _ => Impl.opened []) oneQuery := by
  intro h
  obtain ⟨i, q, hm, -⟩ := (h.last () 0).mp (by decide)
  have hnone : (run next (initial fun _ => Impl.opened ([] : List ℕ)) oneQuery).queries.entries =
      [] := by
    decide
  rw [hnone] at hm
  cases hm

end JniQueries
