import MadSqlite.HandleCalls

/-! # The transaction flag

`isInTransaction` is set and cleared without looking at what SQLite answered. The runs in
which it nevertheless tells the state of the connection are those in which every BEGIN,
COMMIT and ROLLBACK takes effect and no insert ends the transaction by itself. -/
namespace TransactionFlag

open CppStrings ContentValues SqliteCommands TransactionalStore SqliteConnection SqliteExec
open MadDatabase HandleCalls Runs

variable {σ : Type*} (p : Platform) (g : Grammar)

/-- The flag is set exactly while the connection is inside an explicit transaction. -/
def InSync (h : Impl σ) : Prop := h.isInTransaction = true ↔ h.db.autoCommit = false

instance (h : Impl σ) : Decidable (InSync h) :=
  inferInstanceAs (Decidable (_ ↔ _))

def TakesEffect (h : Impl σ) : Call σ → Prop
  | .begin env => h.isInTransaction = false → BeginTakesEffect h.db env
  | .commit env => h.isInTransaction = true → CommitTakesEffect h.db env
  | .rollback env => h.isInTransaction = true → RollbackTakesEffect h.db env
  | .insert c => h.isInTransaction = true → ¬EndsTransaction c

theorem begin_in_sync {h : Impl σ} (hs : InSync h) (env : ExecEnv σ) :
    InSync (beginTransaction g h env) ↔ TakesEffect h (.begin env) := by
  cases hf : h.isInTransaction with
  | true => simp [beginTransaction, hf, TakesEffect, hs]
  | false =>
    have hc : h.db.autoCommit = true := by simpa [InSync, hf] using hs
    obtain ⟨m, hb⟩ := beginTransaction_issued g hf env
    rw [hb]
    split
    · next ht => simp [InSync, TakesEffect, ht]
    · next ht => simp [InSync, TakesEffect, hf, ht, hc]

theorem rollback_in_sync {h : Impl σ} (hs : InSync h) (env : ExecEnv σ) :
    InSync (rollbackTransaction g h env) ↔ TakesEffect h (.rollback env) := by
  cases hf : h.isInTransaction with
  | false => simp [rollbackTransaction, hf, TakesEffect, hs]
  | true =>
    have hc : h.db.autoCommit = false := by simpa [InSync, hf] using hs
    obtain ⟨m, hb⟩ := rollbackTransaction_issued g hf env
    rw [hb]
    split
    · next ht => simp [InSync, TakesEffect, ht]
    · next ht => simp [InSync, TakesEffect, hf, ht, hc]

/-- A COMMIT that fails after it has ended the transaction keeps the flag right too. -/
theorem commit_in_sync {h : Impl σ} (hs : InSync h) (env : ExecEnv σ) :
    InSync (commitTransaction g h env) ↔ TakesEffect h (.commit env) := by
  cases hf : h.isInTransaction with
  | false => simp [commitTransaction, hf, TakesEffect, hs]
  | true =>
    have hc : h.db.autoCommit = false := by simpa [InSync, hf] using hs
    obtain ⟨m, hb⟩ := commitTransaction_issued g hf env
    rw [hb]
    split
    · next ht => simp [InSync, TakesEffect, ht, (committed_autoCommit ht).1]
    · next ht => simp [InSync, TakesEffect, hf, ht, hc]

/-- An insert never opens a transaction. -/
theorem insert_in_sync {h : Impl σ} (hs : InSync h) (c : InsertCall σ) :
    InSync (insertNext p h c) ↔ TakesEffect h (.insert c) := by
  unfold insertNext
  cases hr : insertRan c with
  | none =>
    obtain ⟨b, t, m, hi, -⟩ := insert_not_ran p h hr
    simp [hi, TakesEffect, EndsTransaction, hr, InSync] at hs ⊢
    exact hs
  | some r =>
    obtain ⟨a, d, n, m, he, hi⟩ := insert_ran p h hr
    rw [hi]
    cases hf : h.isInTransaction with
    | false =>
      have hc : h.db.autoCommit = true := by simpa [InSync, hf] using hs
      have hd : d.autoCommit = true := by cases he <;> simp [hc]
      simp [InSync, TakesEffect, hf, hd]
    | true =>
      have hc : h.db.autoCommit = false := by simpa [InSync, hf] using hs
      cases he with
      | committed ha => simp [hc] at ha
      | rolledBack ha => simp [hc] at ha
      | ended hends => simp [InSync, TakesEffect, EndsTransaction, hf, hr, hends]
      | kept _ hends => simp [InSync, TakesEffect, EndsTransaction, hf, hr, hends, hc]
      | undone _ hends => simp [InSync, TakesEffect, EndsTransaction, hf, hr, hends, hc]

theorem in_sync_step {h : Impl σ} (hs : InSync h) (c : Call σ) :
    InSync (next p g h c) ↔ TakesEffect h c := by
  cases c with
  | begin env => exact begin_in_sync g hs env
  | commit env => exact commit_in_sync g hs env
  | rollback env => exact rollback_in_sync g hs env
  | insert c => exact insert_in_sync p hs c

/-- The flag is right in every state of a run exactly when every call takes effect. -/
theorem flag_in_sync_iff (content : σ) (calls : List (Call σ)) :
    AllStates (next p g) InSync (Impl.opened content) calls ↔
      AllSteps (next p g) TakesEffect (Impl.opened content) calls :=
  allStates_iff_allSteps (I := fun _ => True) (fun _ _ _ => trivial)
    (fun _ c _ hs => in_sync_step p g hs c) trivial
    (by simp [InSync, Impl.opened, Connection.opened])

/-- A COMMIT that is refused as busy leaves the transaction open behind a cleared flag. -/
def busyCommit : List (Call (List ℕ)) :=
  [.begin (answers none), .insert (insertRow 1),
    .commit (answers (some (busy (ascii "database is locked"))))]

theorem busyCommit_out_of_sync :
    ¬AllStates (next .noConversion .controlOnly) InSync (Impl.opened []) busyCommit := by decide

end TransactionFlag
