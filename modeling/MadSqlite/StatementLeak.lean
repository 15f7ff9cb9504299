import MadSqlite.HandleCalls

/-! # Statements that inserts leave behind

No path through `insert` finalises the statement it has prepared, so every insert that
gets past `sqlite3_prepare_v2` adds one to the connection for good. -/
namespace StatementLeak

open CppStrings ContentValues SqliteConnection SqliteConnection.Connection MadDatabase
open HandleCalls Runs

variable {σ : Type*} (p : Platform)

def KeepsStatements (h : Impl σ) (c : InsertCall σ) : Prop :=
  (insertNext p h c).db.unfinalised = h.db.unfinalised

instance (h : Impl σ) (c : InsertCall σ) : Decidable (KeepsStatements p h c) :=
  inferInstanceAs (Decidable (_ = _))

theorem keepsStatements_step (h : Impl σ) (c : InsertCall σ) :
    KeepsStatements p h c ↔ ¬Prepared c := by
  unfold KeepsStatements
  rw [insertNext_unfinalised]
  split
  · next hp => simp [hp]
  · next hp => simp [hp]

theorem run_unfinalised (h : Impl σ) (cs : List (InsertCall σ)) :
    (run (insertNext p) h cs).db.unfinalised =
      h.db.unfinalised + cs.countP fun c => Prepared c := by
  induction cs generalizing h with
  | nil => rfl
  | cons c cs ih =>
    rw [run_cons, ih, insertNext_unfinalised, List.countP_cons]
    simp only [decide_eq_true_eq]
    omega

/-- The count stays as it was in a run exactly when no insert of it is prepared. -/
theorem keepsStatements_iff (h : Impl σ) (cs : List (InsertCall σ)) :
    AllSteps (insertNext p) (KeepsStatements p) h cs ↔ ∀ c ∈ cs, ¬Prepared c := by
  induction cs generalizing h with
  | nil => simp [AllSteps]
  | cons c cs ih => simp only [AllSteps, keepsStatements_step, ih, List.forall_mem_cons]

theorem stored_leaks : (insertValues .noConversion (Impl.opened []) (insertRow 1)).1 = true ∧
    ¬AllSteps (insertNext .noConversion) (KeepsStatements .noConversion) (Impl.opened [])
      [insertRow 1] := by
  decide

end StatementLeak
