import MadSqlite.TransactionRefinement

/-! # What threads store through one handle

The two results on a handle together: whatever the interleaving of the threads, the content is
that of their changes in one order, in which the changes of each thread keep their own. -/
namespace ThreadContent

open SqliteCommands SqliteConnection MadDatabase AtomicCalls Runs
open HandleCalls (InsertCall Prepared insertRan insertValues)
open HandleAtomic (Answers Action Call Result act code perform performed)
open TransactionRefinement (CallServed RanWell Simulates work)
open Transactions (applyAll)

variable {τ σ : Type*} [DecidableEq τ] (p : Platform) (g : Grammar)

/-- The changes of the calls that have taken effect. -/
def works (history : List (τ × Call σ × Result)) : List (σ → σ) :=
  history.map fun q => work g q.2.1

structure StoredInOrder (before : Transactions.State σ)
    (s : State τ (Call σ) (Action σ) Answers Result (Impl σ)) : Prop where
  view : s.mutex = none → s.shared.db.store.view = applyAll (works g s.history) before.view
  file : s.mutex = none → s.shared.db.store.file =
    if before.pending.isSome then before.committed
    else applyAll (works g s.history) before.committed
  order : ∀ t, (s.history.filter (·.1 = t)).map Prod.snd = s.returned t ++ (s.phase t).due
  inserted : ∀ t c b, (t, .insert c, .inserted b) ∈ s.history →
    BindsSucceed c.values.impl c.env → (b = true ↔ RanWell c)

omit [DecidableEq τ] in
theorem performed_simulates {h : Impl σ} {before : Transactions.State σ}
    (hs : Simulates h before) {history : List (τ × Call σ × Result)}
    (hc : ∀ q ∈ history, CallServed g q.2.1) : Simulates (run (performed p g) h history)
      (run Transactions.next before ((works g history).map .change)) := by
  induction history generalizing h before with
  | nil => exact hs
  | cons q history ih =>
    rw [List.forall_mem_cons] at hc
    exact ih (TransactionRefinement.call_simulates p g hs hc.1) hc.2

/-- The second thread comes later and is faster. -/
def twoThreads : List (Event Bool (Call (List ℕ))) :=
  .call false (.insert (HandleCalls.insertRow 1)) ::
    .call true (.insert (HandleCalls.insertRow 2)) ::
      (List.replicate 6 (.step true) ++ List.replicate 6 (.step false))

example : (run (next (code .noConversion) (act .controlOnly)) (initial (Impl.opened []))
    twoThreads).shared.db.store.file = [1, 2] := by decide

end ThreadContent
