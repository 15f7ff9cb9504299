import MadSqlite.HandleCalls

/-! # What a rollback restores

A transaction that an insert has ended by itself is not there any more when
`rollbackTransaction` comes, and what later inserts store in autocommit mode stays. -/
namespace RollbackRestores

open CppStrings ContentValues SqliteCommands TransactionalStore
open SqliteConnection SqliteConnection.Connection SqliteExec MadDatabase HandleCalls Runs

variable {σ : Type*} (p : Platform) (g : Grammar)

def Restores (env : ExecEnv σ) (content : σ) (h : Impl σ) : Prop :=
  (rollbackTransaction g h env).db.store.view = content ∧
    (rollbackTransaction g h env).db.store.file = content

instance [DecidableEq σ] (env : ExecEnv σ) (content : σ) (h : Impl σ) :
    Decidable (Restores g env content h) :=
  inferInstanceAs (Decidable (_ ∧ _))

def ChangesStay (c : Connection σ) (r : Ran σ) : Prop :=
  if c.autoCommit = true ∧ c.otherWriters = 0 then r.Commits
  else r.KeepsWork ∧ r.endsTransaction true = false

instance (c : Connection σ) (r : Ran σ) : Decidable (ChangesStay c r) := by
  unfold ChangesStay; infer_instance

/-- The halt of the program goes back to the file: alone outside a transaction when it does not
commit, inside one when it ends it. -/
def RollsBack (c : Connection σ) (r : Ran σ) : Prop :=
  if c.autoCommit = true ∧ c.otherWriters = 0 then ¬r.Commits else r.endsTransaction true = true

instance (c : Connection σ) (r : Ran σ) : Decidable (RollsBack c r) := by
  unfold RollsBack; infer_instance

/-- Outside a transaction the insert stores nothing. -/
def StoresInside (h : Impl σ) (c : InsertCall σ) : Prop :=
  ∀ r, insertRan c = some r → h.db.autoCommit = true → ChangesStay h.db r →
    r.work h.db.store.view = h.db.store.view

theorem restores_iff {env : ExecEnv σ} (hr : (firstRan env).isSome) {h : Impl σ}
    (hf : h.isInTransaction = true) (content : σ) : Restores g env content h ↔
      h.db.store.file = content ∧ (h.db.autoCommit = true → h.db.store.view = content) := by
  obtain ⟨m, hb⟩ := rollbackTransaction_issued g hf env
  unfold Restores
  rw [hb]
  cases hc : h.db.autoCommit with
  | false =>
    rw [if_pos ⟨hr, hc⟩]
    simp
  | true =>
    have hn : ¬RollbackTakesEffect h.db env := fun ht => by simp [RollbackTakesEffect, hc] at ht
    rw [if_neg hn]
    simp [and_comm]

theorem restores_step_not_ran {env : ExecEnv σ} (hr : (firstRan env).isSome) {content : σ}
    {h : Impl σ} {c : InsertCall σ} (hf : h.isInTransaction = true)
    (hj : Restores g env content h) (hn : insertRan c = none) :
    Restores g env content (insertNext p h c) := by
  obtain ⟨b, t, m, hi, -⟩ := insert_not_ran p h hn
  rw [restores_iff g hr (by simpa using hf), insertNext, hi]
  exact (restores_iff g hr hf content).mp hj

theorem changesStay_alone {c : Connection σ} {r : Ran σ} (hc : c.autoCommit = true)
    (ho : c.otherWriters = 0) : ChangesStay c r ↔ r.Commits := by
  rw [ChangesStay, if_pos ⟨hc, ho⟩]

theorem changesStay_inside {c : Connection σ} {r : Ran σ}
    (h : ¬(c.autoCommit = true ∧ c.otherWriters = 0)) :
    ChangesStay c r ↔ r.KeepsWork ∧ r.endsTransaction true = false := by
  rw [ChangesStay, if_neg h]

theorem not_rollsBack {d : Connection σ} {r : Ran σ} (h : ChangesStay d r) : ¬RollsBack d r := by
  unfold ChangesStay at h
  rw [RollsBack]
  split at h
  · next hc =>
    rw [if_pos hc]
    exact not_not.mpr h
  · next hc =>
    rw [if_neg hc]
    simp [h.2]

theorem rollsBack_of_ends {d : Connection σ} {r : Ran σ} (hends : r.endsTransaction true = true)
    (hk : d.autoCommit = true → d.otherWriters = 0 → ¬r.KeepsWork) : RollsBack d r := by
  rw [RollsBack]
  split
  · next hc =>
    intro hcom
    exact hk hc.1 hc.2 hcom.1
  · exact hends

/-- What the program of an insert did is what is seen afterwards, or its code is an error
and an earlier content is: the file's after a rollback, and else the one before. -/
theorem changesStay_or_undone {d e : Connection σ} {c : InsertCall σ} {r : Ran σ} {a : Answer}
    (he : RanEffect d c r a e) :
    (ChangesStay d r ∧ a = r.error ∧ e.store.view = r.work d.store.view) ∨
      (¬ChangesStay d r ∧ a ≠ none ∧
        (RollsBack d r ∧ e.store.view = d.store.file ∨
          ¬RollsBack d r ∧ e.store.view = d.store.view)) := by
  cases he with
  | committed ha ho hcom => exact .inl ⟨(changesStay_alone ha ho).mpr hcom, rfl, rfl⟩
  | rolledBack ha ho hn =>
    have hback : RollsBack d r := by rwa [RollsBack, if_pos ⟨ha, ho⟩]
    have hstay : ¬ChangesStay d r := fun hst => not_rollsBack hst hback
    exact .inr ⟨hstay, Option.some_ne_none _, .inl ⟨hback, rfl⟩⟩
  | ended hends hk =>
    have hback : RollsBack d r := rollsBack_of_ends hends hk
    have hstay : ¬ChangesStay d r := fun hst => not_rollsBack hst hback
    exact .inr ⟨hstay, Option.some_ne_none _, .inl ⟨hback, rfl⟩⟩
  | kept hn hends hk => exact .inl ⟨(changesStay_inside hn).mpr ⟨hk, hends⟩, rfl, rfl⟩
  | undone hn hends hk =>
    have hback : ¬RollsBack d r := by
      rw [RollsBack, if_neg hn]
      simp [hends]
    refine .inr ⟨fun hst => hk ((changesStay_inside hn).mp hst).1, fun he => hk (.inl he), .inr ?_⟩
    exact ⟨hback, by simp [withStmt]⟩

theorem restores_step_ran {env : ExecEnv σ} (hr : (firstRan env).isSome) {content : σ}
    {h : Impl σ} {c : InsertCall σ} {r : Ran σ} (hf : h.isInTransaction = true)
    (hj : Restores g env content h) (hs : insertRan c = some r) :
    Restores g env content (insertNext p h c) ↔ (h.db.autoCommit = true → ChangesStay h.db r →
      r.work h.db.store.view = h.db.store.view) := by
  obtain ⟨hfile, hview⟩ := (restores_iff g hr hf content).mp hj
  obtain ⟨a, d, n, m, he, hi⟩ := insert_ran p h hs
  rw [restores_iff g hr (by simpa using hf), insertNext, hi]
  cases he with
  | committed ha ho hcom =>
    have hstay : ChangesStay h.db r := (changesStay_alone ha ho).mpr hcom
    simp [ha, hstay, hview ha]
  | rolledBack ha ho hn =>
    have hstay : ¬ChangesStay h.db r := mt (changesStay_alone ha ho).mp hn
    simp [hstay, hfile]
  | ended hends hk =>
    have hstay : ¬ChangesStay h.db r := fun hst =>
      not_rollsBack hst (rollsBack_of_ends hends hk)
    simp [hstay, hfile]
  | kept hn hends hk =>
    have hstay : ChangesStay h.db r := (changesStay_inside hn).mpr ⟨hk, hends⟩
    cases hc : h.db.autoCommit with
    | false => simp [hc, hfile]
    | true => simp [hc, hfile, hstay, hview hc]
  | undone hn hends hk =>
    have hstay : ¬ChangesStay h.db r := fun hst => hk ((changesStay_inside hn).mp hst).1
    simp only [hstay, false_implies, implies_true, iff_true]
    exact ⟨by simpa using hfile, fun hc => hview (by simpa using hc)⟩

theorem restores_step {env : ExecEnv σ} (hr : (firstRan env).isSome) {content : σ}
    {h : Impl σ} (c : InsertCall σ) (hf : h.isInTransaction = true)
    (hj : Restores g env content h) :
    Restores g env content (insertNext p h c) ↔ StoresInside h c := by
  cases hs : insertRan c with
  | none => simpa [StoresInside, hs] using restores_step_not_ran p g hr hf hj hs
  | some r => simpa [StoresInside, hs] using restores_step_ran p g hr hf hj hs

theorem beginTransaction_store {h : Impl σ} (hf : h.isInTransaction = false)
    (env : ExecEnv σ) : (beginTransaction g h env).db.store = h.db.store ∧
      (beginTransaction g h env).isInTransaction = true := by
  obtain ⟨m, hb⟩ := beginTransaction_issued g hf env
  rw [hb]
  split <;> exact ⟨rfl, rfl⟩

/-- Whatever inserts came after `beginTransaction`, a ROLLBACK that SQLite executes
restores the content exactly when no earlier insert holds a transaction open and every
insert stores inside the transaction only. -/
theorem rollback_restores_iff {h : Impl σ} (hf : h.isInTransaction = false)
    (atBegin : ExecEnv σ) {atRollback : ExecEnv σ} (hr : (firstRan atRollback).isSome)
    (cs : List (InsertCall σ)) :
    AllStates (insertNext p) (Restores g atRollback h.db.store.view)
        (beginTransaction g h atBegin) cs ↔
      h.db.store.file = h.db.store.view ∧
        AllSteps (insertNext p) StoresInside (beginTransaction g h atBegin) cs := by
  obtain ⟨hs, hflag⟩ := beginTransaction_store g hf atBegin
  have hfirst : Restores g atRollback h.db.store.view (beginTransaction g h atBegin) ↔
      h.db.store.file = h.db.store.view := by
    rw [restores_iff g hr hflag, hs]
    simp
  rw [← hfirst]
  exact allStates_iff_first_and_steps (I := fun h => h.isInTransaction = true)
    (fun h c hi => by simpa using hi) (fun h c hi hj => restores_step p g hr c hi hj) hflag

theorem stored_restored : AllStates (insertNext .noConversion)
    (Restores .controlOnly (answers none) [0])
    (beginTransaction .controlOnly (Impl.opened [0]) (answers none))
    [insertRow 1, insertRow 2] := by
  have hf : (Impl.opened [0]).isInTransaction = false := rfl
  refine (rollback_restores_iff .noConversion .controlOnly hf (answers none) rfl _).mpr ⟨rfl, ?_⟩
  exact ⟨fun _ _ hc => absurd hc (by decide), fun _ _ hc => absurd hc (by decide), trivial⟩

/-- The second insert violates a constraint that is declared ON CONFLICT ROLLBACK. -/
def conflictThenStored : List (InsertCall (List ℕ)) :=
  [insertRow 1, insertOne (.ran (.conflict .rollback)), insertRow 2]

theorem conflictThenStored_not_restored : ¬Restores .controlOnly (answers none) [0]
    (run (insertNext .noConversion)
      (beginTransaction .controlOnly (Impl.opened [0]) (answers none)) conflictThenStored) := by
  decide

end RollbackRestores
