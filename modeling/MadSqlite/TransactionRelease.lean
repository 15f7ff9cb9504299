import MadSqlite.HandleCalls

/-! # Releasing a handle inside a transaction

The destructor rolls the open transaction back by closing the connection. SQLite refuses
to close while a statement is prepared, and inserts never finalise theirs, so after an
insert that wrote, the connection stays behind with its transaction and its lock. -/
namespace TransactionRelease

open CppStrings ContentValues SqliteCommands HandleTable TransactionalStore
open SqliteConnection SqliteConnection.Connection SqliteExec MadDatabase HandleCalls Runs

variable {σ : Type*} (p : Platform) (g : Grammar)

/-- Released here, the handle leaves this content in the file and no lock on it, so that
a handle opened again on the same path can write. -/
def ReleaseClean (content : σ) (h : Impl σ) : Prop :=
  (destructor h).file = content ∧ (destructor h).locked = false

instance [DecidableEq σ] (content : σ) (h : Impl σ) : Decidable (ReleaseClean content h) :=
  inferInstanceAs (Decidable (_ ∧ _))

/-- The insert leaves no write transaction open: inside one it ends it, and with autocommit
on and no other writer it stores nothing. -/
def LeavesNoLock (h : Impl σ) (c : InsertCall σ) : Prop :=
  ∀ r, insertRan c = some r →
    if h.db.autoCommit = true ∧ h.db.otherWriters = 0 then
      r.Commits → r.work h.db.store.view = h.db.store.view
    else r.endsTransaction true = true

/-- With autocommit on, a write transaction is open only while a statement waits. -/
def WriterWaits (h : Impl σ) : Prop :=
  h.db.autoCommit = true → h.db.store.writing = true → 0 < h.db.otherWriters

def WriterPrepared (h : Impl σ) : Prop := h.db.store.writing = true → 0 < h.db.unfinalised

theorem insert_writerWaits {h : Impl σ} (hw : WriterWaits h) (c : InsertCall σ) :
    WriterWaits (insertNext p h c) := by
  have ho := insertNext_otherWriters p h c
  unfold WriterWaits
  rw [ho, insertNext]
  cases hr : insertRan c with
  | none =>
    obtain ⟨b, t, m, hi, -⟩ := insert_not_ran p h hr
    rw [hi]
    exact fun hc hs => (hw hc hs).trans_le (Nat.le_add_right _ _)
  | some r =>
    obtain ⟨a, d, n, m, he, hi⟩ := insert_ran p h hr
    rw [hi]
    cases he with
    | committed => simp
    | rolledBack => simp
    | ended => simp
    | kept hn =>
      intro hc _
      have ho : h.db.otherWriters ≠ 0 := fun ho => hn ⟨hc, ho⟩
      omega
    | undone hn =>
      intro hc _
      have ho : h.db.otherWriters ≠ 0 := fun ho => hn ⟨hc, ho⟩
      omega

theorem control_writerWaits {h h' : Impl σ} (hw : WriterWaits h)
    (he : ControlEffect h.db h'.db) : WriterWaits h' := by
  unfold WriterWaits
  generalize h'.db = d at he ⊢
  cases he with
  | same m => exact hw
  | begun m => simp
  | rolledBack m => simp
  | committed env m ht => simp [(committed_autoCommit ht).2]

theorem next_writerWaits (h : Impl σ) (c : Call σ) (hw : WriterWaits h) :
    WriterWaits (next p g h c) := by
  cases c with
  | insert c => exact insert_writerWaits p hw c
  | begin env => exact control_writerWaits hw (control_effect p g h _ (by simp))
  | commit env => exact control_writerWaits hw (control_effect p g h _ (by simp))
  | rollback env => exact control_writerWaits hw (control_effect p g h _ (by simp))

/-- In every state a handle can get to. -/
theorem run_writerWaits (content : σ) (calls : List (Call σ)) :
    WriterWaits (run (next p g) (Impl.opened content) calls) :=
  run_preserves (next_writerWaits p g) (by simp [WriterWaits, Impl.opened, Connection.opened]) calls

theorem WriterWaits.prepared {h : Impl σ} (hw : WriterWaits h) (hc : h.db.autoCommit = true) :
    WriterPrepared h := fun hs =>
  (hw hc hs).trans_le (Table.count_le_size _ _)

theorem insert_writerPrepared (h : Impl σ) (c : InsertCall σ) (hw : WriterPrepared h) :
    WriterPrepared (insertNext p h c) := by
  have hu := insertNext_unfinalised p h c
  unfold WriterPrepared
  rw [hu]
  cases hr : insertRan c with
  | none =>
    obtain ⟨b, t, m, hi, -⟩ := insert_not_ran p h hr
    rw [insertNext, hi]
    exact fun hs => (hw hs).trans_le (Nat.le_add_right _ _)
  | some r =>
    rw [if_pos (insertRan_some.mp hr).1]
    exact fun _ => Nat.succ_pos _

theorem releaseClean_iff {content : σ} {h : Impl σ} (hw : WriterPrepared h) :
    ReleaseClean content h ↔ h.db.store.file = content ∧ h.db.store.writing = false := by
  unfold ReleaseClean destructor sqlite3Close
  split
  · next hu =>
    have hn : h.db.store.writing = false := by
      by_contra hn
      have := hw (by simpa using hn)
      omega
    simp [Remains.file, Remains.locked, hn]
  · simp [Remains.file, Remains.locked, report]

theorem releaseClean_step {content : σ} {h : Impl σ} (c : InsertCall σ) (hw : WriterPrepared h)
    (hcl : ReleaseClean content h) :
    ReleaseClean content (insertNext p h c) ↔ LeavesNoLock h c := by
  obtain ⟨hfile, hn⟩ := (releaseClean_iff hw).mp hcl
  rw [releaseClean_iff (insert_writerPrepared p h c hw)]
  have hview : h.db.store.view = content := (h.db.store.clean hn).trans hfile
  unfold LeavesNoLock insertNext
  cases hr : insertRan c with
  | none =>
    obtain ⟨b, t, m, hi, -⟩ := insert_not_ran p h hr
    rw [hi]
    simp [hfile, hn]
  | some r =>
    obtain ⟨a, d, n, m, he, hi⟩ := insert_ran p h hr
    rw [hi]
    simp only [Option.some.injEq, forall_eq']
    cases he with
    | committed ha ho hcom => simp [ha, ho, hcom, hview]
    | rolledBack ha ho hcom => simp [ha, ho, hcom, hfile]
    | ended hends hk =>
      have hl : if h.db.autoCommit = true ∧ h.db.otherWriters = 0 then
          r.Commits → r.work h.db.store.view = h.db.store.view
          else r.endsTransaction true = true := by
        split
        · next hc => exact fun hcom => absurd hcom.1 (hk hc.1 hc.2)
        · exact hends
      simp [hl, hfile]
    | kept hn hends => simp [hn, hends]
    | undone hn hends => simp [hn, hends]

/-- After a BEGIN that took effect, releasing the handle after any number of inserts is
clean exactly when no earlier insert holds a lock and none of these inserts leaves one. -/
theorem release_clean_iff (content : σ) (history : List (Call σ)) {h : Impl σ}
    (hh : run (next p g) (Impl.opened content) history = h) (hf : h.isInTransaction = false)
    {env : ExecEnv σ} (hb : BeginTakesEffect h.db env) (cs : List (InsertCall σ)) :
    AllStates (insertNext p) (ReleaseClean h.db.store.file) (beginTransaction g h env) cs ↔
      h.db.store.writing = false ∧
        AllSteps (insertNext p) LeavesNoLock (beginTransaction g h env) cs := by
  have hw : WriterWaits h := hh ▸ run_writerWaits p g content history
  obtain ⟨m, hs⟩ := beginTransaction_issued g hf env
  rw [if_pos hb] at hs
  have hp : WriterPrepared (beginTransaction g h env) := by
    rw [hs]
    exact hw.prepared hb.2.1
  have hfirst : ReleaseClean h.db.store.file (beginTransaction g h env) ↔
      h.db.store.writing = false := by
    rw [releaseClean_iff hp, hs]
    simp
  rw [← hfirst]
  exact allStates_iff_first_and_steps (insert_writerPrepared p)
    (fun h c hw hcl => releaseClean_step p c hw hcl) hp

/-- A failing insert that rolls back by itself leaves nothing to hold the lock for. -/
def conflicting : InsertCall (List ℕ) := insertOne (.ran (.conflict .rollback))

theorem conflicting_release_clean : AllStates (insertNext .noConversion) (ReleaseClean [0])
    (beginTransaction .controlOnly (Impl.opened [0]) (answers none)) [conflicting] := by
  have hb : BeginTakesEffect (Impl.opened [0]).db (answers none) := by decide
  refine (release_clean_iff .noConversion .controlOnly [0] [] rfl rfl hb _).mpr ⟨rfl, ?_, trivial⟩
  intro r hr
  cases Option.some.inj hr
  decide

theorem stored_release_locked : ¬ReleaseClean [0] (run (insertNext .noConversion)
    (beginTransaction .controlOnly (Impl.opened [0]) (answers none)) [insertRow 1]) := by
  decide

end TransactionRelease
