import MadSqlite.HandleCalls
import MadSqlite.MadQuery

/-! # Destroying a handle and its cursors

Cursors do not keep the handle alive. The destructor of the handle closes the connection
once and drops the answer, so a connection that still has a statement is never closed. -/
namespace CursorLifetime

open CppStrings HandleTable SqliteCommands SqliteConnection SqliteConnection.Connection
open SqliteExec MadDatabase HandleCalls Runs

variable {σ : Type*} (p : Platform) (g : Grammar)

/-- The last reference to the handle, or what its destructor has left. -/
inductive Handle (σ : Type*) where
  | live (h : MadDatabase.Impl σ)
  | gone (r : Remains σ)

structure State (σ : Type*) where
  handle : Handle σ
  cursors : Table MadQuery.Impl
  touchedFreed : Bool

def initial (content : σ) : State σ := ⟨.live (.opened content), .empty, false⟩

/-- Whether the handle is alive and which statements the connection has, unless it is freed. -/
def status (s : State σ) : Option (Bool × List ℕ) :=
  match s.handle with
  | .live h => some (true, h.db.stmts.ids)
  | .gone (.opened c) => some (false, c.stmts.ids)
  | .gone (.freed _) => none

inductive Event (σ : Type*) where
  | query (sql : Bytes) (args : List Bytes) (env : QueryEnv)
  | call (c : Call σ)
  | dropCursor (i : ℕ) (commit : Answer)
  | dropHandle

def finalize (s : State σ) (q : MadQuery.Impl) (commit : Answer) : State σ :=
  match q.statement, s.handle with
  | none, _ => s
  | some _, .live h =>
    { s with handle := .live { h with db := MadQuery.destructor h.db q commit } }
  | some _, .gone (.opened c) =>
    { s with handle := .gone (.opened (MadQuery.destructor c q commit)) }
  | some _, .gone (.freed _) => { s with touchedFreed := true }

/-- Calls need a live handle, and nothing is destroyed twice. -/
def next (s : State σ) : Event σ → State σ
  | .query sql args env =>
    match s.handle with
    | .live h =>
      let (stmt, h) := query h sql args env
      { s with handle := .live h, cursors := s.cursors.add (.new stmt) }
    | .gone _ => s
  | .call c =>
    match s.handle with
    | .live h => { s with handle := .live (HandleCalls.next p g h c) }
    | .gone _ => s
  | .dropCursor i commit =>
    match s.cursors.find? i with
    | none => s
    | some q => finalize { s with cursors := s.cursors.remove i } q commit
  | .dropHandle =>
    match s.handle with
    | .live h => { s with handle := .gone (MadDatabase.destructor h) }
    | .gone _ => s

def Holds (cursors : Table MadQuery.Impl) (i j : ℕ) : Prop :=
  ∃ q, (i, q) ∈ cursors.entries ∧ q.statement = some j

/-- Statements of live cursors are in the connection, which is then not freed. -/
structure Invariant (s : State σ) : Prop where
  untouched : s.touchedFreed = false
  owned : ∀ i j, Holds s.cursors i j → ∃ b ids, status s = some (b, ids) ∧ j ∈ ids
  distinct : ∀ i i' j, Holds s.cursors i j → Holds s.cursors i' j → i = i'

/-- Every statement of the connection is some cursor's; after the handle, it is freed. -/
def NoLeak (s : State σ) : Prop :=
  ∀ b ids, status s = some (b, ids) → b = true ∧ ∀ j ∈ ids, ∃ i, Holds s.cursors i j

/-- The handle goes after every cursor that has a statement, and no insert was prepared. -/
def InOrder (s : State σ) : Event σ → Prop
  | .call (.insert c) =>
    match s.handle with
    | .live _ => ¬Prepared c
    | .gone _ => True
  | .dropHandle =>
    match s.handle with
    | .live _ => ∀ i j, ¬Holds s.cursors i j
    | .gone _ => True
  | _ => True

theorem holds_add {cursors : Table MadQuery.Impl} {stmt : Option ℕ} {i j : ℕ} :
    Holds (cursors.add (.new stmt)) i j ↔
      Holds cursors i j ∨ (i = cursors.next ∧ stmt = some j) := by
  unfold Holds
  simp only [Table.mem_entries_add]
  constructor
  · rintro ⟨q, hm | hm, hq⟩
    · exact .inl ⟨q, hm, hq⟩
    · cases hm
      exact .inr ⟨rfl, hq⟩
  · rintro (⟨q, hm, hq⟩ | ⟨rfl, hq⟩)
    · exact ⟨q, .inl hm, hq⟩
    · exact ⟨.new stmt, .inr rfl, hq⟩

theorem holds_remove {cursors : Table MadQuery.Impl} {i n j : ℕ} :
    Holds (cursors.remove n) i j ↔ Holds cursors i j ∧ i ≠ n := by
  unfold Holds
  simp only [Table.mem_entries_remove]
  constructor
  · rintro ⟨q, ⟨hm, hk⟩, hq⟩
    exact ⟨⟨q, hm, hq⟩, hk⟩
  · rintro ⟨⟨q, hm, hq⟩, hk⟩
    exact ⟨q, ⟨hm, hk⟩, hq⟩

theorem not_holds_next (cursors : Table MadQuery.Impl) (j : ℕ) : ¬Holds cursors cursors.next j := by
  rintro ⟨q, hm, -⟩
  exact cursors.next_not_mem (Table.mem_ids.mpr ⟨q, hm⟩)

theorem holds_ne {cursors : Table MadQuery.Impl} {i n j : ℕ} {q : MadQuery.Impl}
    (hm : (n, q) ∈ cursors.entries) (hq : q.statement = none) (hh : Holds cursors i j) : i ≠ n := by
  rintro rfl
  obtain ⟨q', hm', hq'⟩ := hh
  rw [Table.entry_unique hm' hm, hq] at hq'
  cases hq'

inductive Effect (s : State σ) (e : Event σ) (t : State σ) : Prop where
  | keep : InOrder s e → status t = status s → t.touchedFreed = s.touchedFreed →
      (∀ i j, Holds t.cursors i j ↔ Holds s.cursors i j) → Effect s e t
  | opened (ids : List ℕ) (n k : ℕ) : InOrder s e → status s = some (true, ids) →
      status t = some (true, ids ++ [k]) → k ∉ ids → t.touchedFreed = s.touchedFreed →
      (∀ j, ¬Holds s.cursors n j) →
      (∀ i j, Holds t.cursors i j ↔ Holds s.cursors i j ∨ (i = n ∧ j = k)) → Effect s e t
  | leaked (ids : List ℕ) (k : ℕ) : ¬InOrder s e → status s = some (true, ids) →
      status t = some (true, ids ++ [k]) → k ∉ ids → t.touchedFreed = s.touchedFreed →
      (∀ i j, Holds t.cursors i j ↔ Holds s.cursors i j) → Effect s e t
  | dropped (b : Bool) (ids : List ℕ) (n k : ℕ) :
      InOrder s e → Holds s.cursors n k → status s = some (b, ids) →
      status t = some (b, ids.filter (· ≠ k)) → t.touchedFreed = s.touchedFreed →
      (∀ i j, Holds t.cursors i j ↔ Holds s.cursors i j ∧ i ≠ n) → Effect s e t
  | touched (n k : ℕ) : Holds s.cursors n k → status s = none → Effect s e t
  | closed (ids : List ℕ) :
      (InOrder s e ↔ ∀ i j, ¬Holds s.cursors i j) → status s = some (true, ids) →
      status t = (if ids = [] then none else some (false, ids)) →
      t.touchedFreed = s.touchedFreed →
      (∀ i j, Holds t.cursors i j ↔ Holds s.cursors i j) → Effect s e t

theorem query_effect (s : State σ) (sql : Bytes) (args : List Bytes) (env : QueryEnv) :
    Effect s (.query sql args env) (next p g s (.query sql args env)) := by
  rcases s with ⟨h | r, cursors, touched⟩
  · obtain ⟨hids, hnew⟩ := query_ids h sql args env
    cases hq : (query h sql args env).1 with
    | none =>
      rw [hq, Option.toList_none, List.append_nil] at hids
      refine .keep trivial (by simp [next, status, hids]) rfl ?_
      intro i j
      simp only [next, hq, holds_add]
      simp
    | some k =>
      rw [hq] at hids hnew
      refine .opened h.db.stmts.ids cursors.next k trivial rfl
        (by simp [next, status, hids]) ?_ rfl (not_holds_next cursors) ?_
      · rw [hnew k rfl]
        exact h.db.stmts.next_not_mem
      · intro i j
        simp only [next, hq, holds_add, Option.some.injEq, eq_comm]
  · exact .keep trivial rfl rfl fun _ _ => Iff.rfl

theorem call_effect (s : State σ) (c : Call σ) :
    Effect s (.call c) (next p g s (.call c)) := by
  rcases s with ⟨h | r, cursors, touched⟩
  · cases c with
    | insert c =>
      by_cases hp : Prepared c
      · refine .leaked h.db.stmts.ids h.db.stmts.next (fun ho => ho hp) rfl ?_
          h.db.stmts.next_not_mem rfl fun _ _ => Iff.rfl
        simp [next, status, HandleCalls.next, insertNext_ids, hp]
      · refine .keep hp ?_ rfl fun _ _ => Iff.rfl
        simp [next, status, HandleCalls.next, insertNext_ids, hp]
    | begin env =>
      refine .keep trivial ?_ rfl fun _ _ => Iff.rfl
      simp only [next, status, next_ids p g h (.begin env) (by simp)]
    | commit env =>
      refine .keep trivial ?_ rfl fun _ _ => Iff.rfl
      simp only [next, status, next_ids p g h (.commit env) (by simp)]
    | rollback env =>
      refine .keep trivial ?_ rfl fun _ _ => Iff.rfl
      simp only [next, status, next_ids p g h (.rollback env) (by simp)]
  · refine .keep ?_ rfl rfl fun _ _ => Iff.rfl
    cases c <;> trivial

theorem dropCursor_effect (s : State σ) (n : ℕ) (commit : Answer) :
    Effect s (.dropCursor n commit) (next p g s (.dropCursor n commit)) := by
  cases hf : s.cursors.find? n with
  | none =>
    have hn : next p g s (.dropCursor n commit) = s := by simp [next, hf]
    rw [hn]
    exact .keep trivial rfl rfl fun _ _ => Iff.rfl
  | some q =>
    have hm := Table.mem_of_find? hf
    have hn : next p g s (.dropCursor n commit) =
        finalize { s with cursors := s.cursors.remove n } q commit := by simp [next, hf]
    rw [hn]
    rcases s with ⟨handle, cursors, touched⟩
    cases hq : q.statement with
    | none =>
      simp only [finalize, hq]
      refine .keep trivial rfl rfl fun i j => ?_
      rw [holds_remove, and_iff_left_iff_imp]
      exact holds_ne hm hq
    | some k =>
      rcases handle with h | c | f
      · refine .dropped true h.db.stmts.ids n k trivial ⟨q, hm, hq⟩ rfl ?_ ?_ fun i j => ?_
        · simp [finalize, hq, status, MadQuery.destructor, sqlite3Finalize_ids]
        · simp [finalize, hq]
        · simp only [finalize, hq, holds_remove]
      · refine .dropped false c.stmts.ids n k trivial ⟨q, hm, hq⟩ rfl ?_ ?_ fun i j => ?_
        · simp [finalize, hq, status, MadQuery.destructor, sqlite3Finalize_ids]
        · simp [finalize, hq]
        · simp only [finalize, hq, holds_remove]
      · exact .touched n k ⟨q, hm, hq⟩ rfl

theorem dropHandle_effect (s : State σ) : Effect s .dropHandle (next p g s .dropHandle) := by
  rcases s with ⟨h | r, cursors, touched⟩
  · refine .closed h.db.stmts.ids Iff.rfl rfl ?_ rfl fun _ _ => Iff.rfl
    simp only [next, status, MadDatabase.destructor, sqlite3Close, unfinalised,
      Table.size_eq_zero_iff]
    by_cases he : h.db.stmts.ids = []
    · simp [he]
    · simp [he, report]
  · exact .keep trivial rfl rfl fun _ _ => Iff.rfl

theorem next_effect (s : State σ) (e : Event σ) : Effect s e (next p g s e) := by
  cases e with
  | query sql args env => exact query_effect p g s sql args env
  | call c => exact call_effect p g s c
  | dropCursor n commit => exact dropCursor_effect p g s n commit
  | dropHandle => exact dropHandle_effect p g s

theorem Invariant.mem {s : State σ} (hi : Invariant s) {b : Bool} {ids : List ℕ} {i j : ℕ}
    (hs : status s = some (b, ids)) (hj : Holds s.cursors i j) : j ∈ ids := by
  obtain ⟨b', ids', hs', hm⟩ := hi.owned i j hj
  rw [hs] at hs'
  cases hs'
  exact hm

theorem Invariant.not_freed {s : State σ} (hi : Invariant s) {i j : ℕ}
    (hj : Holds s.cursors i j) : status s ≠ none := by
  obtain ⟨b, ids, hs, -⟩ := hi.owned i j hj
  simp [hs]

theorem effect_invariant {s t : State σ} {e : Event σ} (hi : Invariant s)
    (he : Effect s e t) : Invariant t := by
  have hu := hi.untouched
  have hd := hi.distinct
  cases he with
  | keep _ hs ht hh =>
    constructor
    · rw [ht]; exact hu
    · intro i j hj
      rw [hs]
      exact hi.owned i j ((hh i j).mp hj)
    · intro i i' j hj hj'
      exact hd i i' j ((hh i j).mp hj) ((hh i' j).mp hj')
  | opened ids n k _ hs hs' hk ht _ hh =>
    constructor
    · rw [ht]; exact hu
    · intro i j hj
      refine ⟨true, _, hs', ?_⟩
      rcases (hh i j).mp hj with hj | ⟨-, rfl⟩
      · exact List.mem_append_left _ (hi.mem hs hj)
      · simp
    · intro i i' j hj hj'
      have hold : ∀ m, Holds s.cursors m k → False := fun m hm => hk (hi.mem hs hm)
      rcases (hh i j).mp hj with h1 | ⟨rfl, rfl⟩ <;> rcases (hh i' j).mp hj' with h2 | ⟨rfl, h2⟩
      · exact hd i i' j h1 h2
      · exact (hold i (h2 ▸ h1)).elim
      · exact (hold i' h2).elim
      · rfl
  | leaked ids k _ hs hs' _ ht hh =>
    constructor
    · rw [ht]; exact hu
    · intro i j hj
      exact ⟨true, _, hs', List.mem_append_left _ (hi.mem hs ((hh i j).mp hj))⟩
    · intro i i' j hj hj'
      exact hd i i' j ((hh i j).mp hj) ((hh i' j).mp hj')
  | dropped b ids n k _ hn hs hs' ht hh =>
    constructor
    · rw [ht]; exact hu
    · intro i j hj
      obtain ⟨hj, hne⟩ := (hh i j).mp hj
      refine ⟨b, _, hs', List.mem_filter.mpr ⟨hi.mem hs hj, ?_⟩⟩
      exact decide_eq_true fun he => hne (hd i n k (he ▸ hj) hn)
    · intro i i' j hj hj'
      exact hd i i' j ((hh i j).mp hj).1 ((hh i' j).mp hj').1
  | touched n k hn hs => exact absurd hs (hi.not_freed hn)
  | closed ids _ hs hs' ht hh =>
    constructor
    · rw [ht]; exact hu
    · intro i j hj
      have hm := hi.mem hs ((hh i j).mp hj)
      rw [if_neg (List.ne_nil_of_mem hm)] at hs'
      exact ⟨false, ids, hs', hm⟩
    · intro i i' j hj hj'
      exact hd i i' j ((hh i j).mp hj) ((hh i' j).mp hj')

theorem effect_noLeak {s t : State σ} {e : Event σ} (hi : Invariant s) (hl : NoLeak s)
    (he : Effect s e t) : NoLeak t ↔ InOrder s e := by
  cases he with
  | keep ho hs _ hh =>
    refine iff_of_true ?_ ho
    intro b ids hb
    obtain ⟨hb, hall⟩ := hl b ids (hs ▸ hb)
    refine ⟨hb, fun j hj => ?_⟩
    obtain ⟨i, hij⟩ := hall j hj
    exact ⟨i, (hh i j).mpr hij⟩
  | opened ids n k ho hs hs' _ _ _ hh =>
    refine iff_of_true ?_ ho
    intro b l hb
    rw [hs'] at hb
    cases hb
    refine ⟨rfl, fun j hj => ?_⟩
    rcases List.mem_append.mp hj with hj | hj
    · obtain ⟨i, hij⟩ := (hl true ids hs).2 j hj
      exact ⟨i, (hh i j).mpr (.inl hij)⟩
    · exact ⟨n, (hh n j).mpr (.inr ⟨rfl, List.mem_singleton.mp hj⟩)⟩
  | leaked ids k ho hs hs' hk _ hh =>
    refine iff_of_false ?_ ho
    intro hn
    obtain ⟨i, hij⟩ := (hn true _ hs').2 k (by simp)
    exact hk (hi.mem hs ((hh i k).mp hij))
  | dropped b ids n k ho hn hs hs' _ hh =>
    refine iff_of_true ?_ ho
    intro b' l hb
    rw [hs'] at hb
    cases hb
    obtain ⟨hb, hall⟩ := hl b ids hs
    refine ⟨hb, fun j hj => ?_⟩
    obtain ⟨hj, hne⟩ := List.mem_filter.mp hj
    obtain ⟨i, hij⟩ := hall j hj
    refine ⟨i, (hh i j).mpr ⟨hij, ?_⟩⟩
    rintro rfl
    obtain ⟨q, hm, hq⟩ := hij
    obtain ⟨q', hm', hq'⟩ := hn
    rw [Table.entry_unique hm hm', hq'] at hq
    cases hq
    simp at hne
  | touched n k hn hs => exact absurd hs (hi.not_freed hn)
  | closed ids ho hs hs' _ hh =>
    rw [ho]
    constructor
    · intro hn i j hij
      rw [if_neg (List.ne_nil_of_mem (hi.mem hs hij))] at hs'
      exact absurd (hn false ids hs').1 (by simp)
    · intro hn b l hb
      have hnil : ids = [] := by
        apply List.eq_nil_iff_forall_not_mem.mpr
        intro j hj
        obtain ⟨i, hij⟩ := (hl true ids hs).2 j hj
        exact hn i j hij
      rw [hs', if_pos hnil] at hb
      cases hb

/-- A leak is never made good again. -/
theorem effect_noLeak_back {s t : State σ} {e : Event σ} (he : Effect s e t)
    (hl : NoLeak t) : NoLeak s := by
  intro b ids hb
  cases he with
  | keep _ hs _ hh =>
    obtain ⟨hb, hall⟩ := hl b ids (hs.trans hb)
    refine ⟨hb, fun j hj => ?_⟩
    obtain ⟨i, hij⟩ := hall j hj
    exact ⟨i, (hh i j).mp hij⟩
  | opened ids' n k _ hs hs' hk _ _ hh =>
    rw [hs] at hb
    cases hb
    refine ⟨rfl, fun j hj => ?_⟩
    obtain ⟨i, hij⟩ := (hl true _ hs').2 j (List.mem_append_left _ hj)
    rcases (hh i j).mp hij with hij | ⟨-, rfl⟩
    · exact ⟨i, hij⟩
    · exact absurd hj hk
  | leaked ids' k _ hs hs' hk _ hh =>
    rw [hs] at hb
    cases hb
    refine ⟨rfl, fun j hj => ?_⟩
    obtain ⟨i, hij⟩ := (hl true _ hs').2 j (List.mem_append_left _ hj)
    exact ⟨i, (hh i j).mp hij⟩
  | dropped b' ids' n k _ hn hs hs' _ hh =>
    rw [hs] at hb
    cases hb
    obtain ⟨hb, hall⟩ := hl b _ hs'
    refine ⟨hb, fun j hj => ?_⟩
    by_cases hk : j = k
    · exact ⟨n, hk ▸ hn⟩
    · obtain ⟨i, hij⟩ := hall j (List.mem_filter.mpr ⟨hj, decide_eq_true hk⟩)
      exact ⟨i, ((hh i j).mp hij).1⟩
  | touched n k hn hs =>
    rw [hs] at hb
    cases hb
  | closed ids' _ hs hs' _ hh =>
    rw [hs] at hb
    cases hb
    refine ⟨rfl, fun j hj => ?_⟩
    rw [if_neg (List.ne_nil_of_mem hj)] at hs'
    exact absurd (hl false ids hs').1 (by simp)

theorem initial_invariant (content : σ) : Invariant (initial content) := by
  constructor
  · rfl
  · rintro i j ⟨q, hm, -⟩
    cases hm
  · rintro i i' j ⟨q, hm, -⟩
    cases hm

/-- Whatever the order, no cursor ever touches a connection that has been freed. -/
theorem run_invariant (content : σ) (es : List (Event σ)) :
    Invariant (run (next p g) (initial content) es) :=
  run_preserves (fun s e hi => effect_invariant hi (next_effect p g s e))
    (initial_invariant content) es

theorem run_noLeak_back {s : State σ} (es : List (Event σ))
    (hl : NoLeak (run (next p g) s es)) : AllStates (next p g) NoLeak s es := by
  induction es generalizing s with
  | nil => exact hl
  | cons e es ih =>
    have htail := ih hl
    exact ⟨effect_noLeak_back (next_effect p g s e) htail.first, htail⟩

theorem run_noLeak_iff (content : σ) (es : List (Event σ)) :
    NoLeak (run (next p g) (initial content) es) ↔
      AllSteps (next p g) InOrder (initial content) es := by
  have hstart : NoLeak (initial content) := by
    intro b ids hb
    cases hb
    exact ⟨rfl, fun j hj => by cases hj⟩
  have hall : AllStates (next p g) NoLeak (initial content) es ↔ _ :=
    allStates_iff_allSteps (I := Invariant)
      (fun s e hi => effect_invariant hi (next_effect p g s e))
      (fun s e hi hl => effect_noLeak hi hl (next_effect p g s e))
      (initial_invariant content) hstart
  rw [← hall]
  exact ⟨run_noLeak_back p g es, AllStates.last⟩

def isLive (s : State σ) : Bool :=
  match s.handle with
  | .live _ => true
  | .gone _ => false

def AllDestroyed (s : State σ) : Prop := isLive s = false ∧ s.cursors.ids = []

def ClosedUntouched (s : State σ) : Prop := status s = none ∧ s.touchedFreed = false

instance (s : State σ) : Decidable (AllDestroyed s) :=
  inferInstanceAs (Decidable (_ ∧ _))
instance (s : State σ) : Decidable (ClosedUntouched s) :=
  inferInstanceAs (Decidable (_ ∧ _))

/-- When everything is destroyed, the connection is closed exactly when every cursor with
a statement went before the handle and no insert left a statement. -/
theorem closed_iff (content : σ) (es : List (Event σ))
    (hd : AllDestroyed (run (next p g) (initial content) es)) :
    ClosedUntouched (run (next p g) (initial content) es) ↔
      AllSteps (next p g) InOrder (initial content) es := by
  rw [← run_noLeak_iff]
  have hi := run_invariant p g content es
  generalize run (next p g) (initial content) es = s at hd hi ⊢
  constructor
  · rintro ⟨hs, -⟩ b ids hb
    rw [hs] at hb
    cases hb
  · intro hl
    refine ⟨?_, hi.untouched⟩
    rcases s with ⟨h | c | f, cursors, touched⟩
    · cases hd.1
    · exact absurd (hl false c.stmts.ids rfl).1 (by simp)
    · rfl

def openCursor : Event ℕ :=
  .query (ascii "SELECT 1") [] ⟨fun _ => none, false, false, fun _ _ => none⟩

def cursorFirst : List (Event ℕ) := [openCursor, .dropCursor 0 none, .dropHandle]
def handleFirst : List (Event ℕ) := [openCursor, .dropHandle, .dropCursor 0 none]

theorem cursorFirst_closed :
    ClosedUntouched (run (next .noConversion .controlOnly) (initial 0) cursorFirst) := by
  refine (closed_iff .noConversion .controlOnly 0 cursorFirst (by decide)).mpr
    ⟨trivial, trivial, ?_, trivial⟩
  rintro i j ⟨q, hm, -⟩
  cases hm

theorem handleFirst_not_closed :
    AllDestroyed (run (next .noConversion .controlOnly) (initial 0) handleFirst) ∧
      ¬ClosedUntouched (run (next .noConversion .controlOnly) (initial 0) handleFirst) := by
  decide

end CursorLifetime
