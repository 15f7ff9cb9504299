import MadSqlite.HandleAtomic
import MadSqlite.Transactions

/-! # A handle is a transaction machine

The calls of a handle as events of the machine of `Transactions`, for statements that SQLite
executes: no COMMIT is refused as busy, no lock is refused to an insert, and no statement ends
the transaction it runs in. -/
namespace TransactionRefinement

open CppStrings ContentValues SqliteCommands HandleTable TransactionalStore
open SqliteConnection SqliteConnection.Connection SqliteExec MadDatabase HandleCalls Runs
open HandleAtomic (perform)
open Transactions (State Event applyAll lasting inside ShowsPrefix)

variable {σ : Type*} (p : Platform) (g : Grammar)

inductive Call (σ : Type*) where
  | begin (env : ExecEnv σ)
  | commit (env : ExecEnv σ)
  | rollback (env : ExecEnv σ)
  | on (m : HandleAtomic.Call σ)

def next (h : Impl σ) : Call σ → Impl σ
  | .begin env => beginTransaction g h env
  | .commit env => commitTransaction g h env
  | .rollback env => rollbackTransaction g h env
  | .on m => (perform p g h m).2

/-- A failing statement takes its changes back, unless it is declared OE_Fail. -/
def ranWork (writes : Bool) (r : Ran σ) : σ → σ :=
  if writes = true ∧ r.KeepsWork then r.work else id

/-- What the commands do to the content, up to the first one that fails. -/
def execWork (env : ExecEnv σ) : ℕ → List Command → σ → σ
  | i, .other _ :: cmds =>
    match (env i).prepare, (env i).progress with
    | none, .ran r =>
      if r.error = none then execWork env (i + 1) cmds ∘ ranWork (env i).writes r
      else ranWork (env i).writes r
    | _, _ => id
  | _, _ => id

def work : HandleAtomic.Call σ → σ → σ
  | .insert c => ((insertRan c).map (ranWork true)).getD id
  | .exec sql env _ =>
    if upperCaseString sql ∈ transactionKeyWords then id else execWork env 0 (sqlCommands g sql)
  | .query _ _ _ => id

/-- A COMMIT that fails, and is not busy, has rolled back. -/
def event : Call σ → Event σ
  | .begin _ => .begin
  | .commit env => if ∃ r, firstRan env = some r ∧ r.commit ≠ none then .rollback else .commit
  | .rollback _ => .rollback
  | .on m => .change (work g m)

/-- The program of a statement keeps its changes for good or takes them back, and leaves
the transaction alone. -/
def RanServed (writes : Bool) (r : Ran σ) : Prop :=
  r.endsTransaction writes = false ∧ (writes = true → r.Commits ∨ ¬r.KeepsWork)

/-- No transaction control among the commands that SQLite comes to. -/
def ExecServed (env : ExecEnv σ) : ℕ → List Command → Prop
  | _, [] | _, .syntaxError :: _ => True
  | _, .control _ :: _ => False
  | i, .other _ :: cmds =>
    match (env i).prepare, (env i).progress with
    | none, .ran r =>
      RanServed (env i).writes r ∧ (r.error = none → ExecServed env (i + 1) cmds)
    | _, _ => True

def CallServed : HandleAtomic.Call σ → Prop
  | .insert c => ¬LockRefused c ∧ ∀ r, insertRan c = some r → RanServed true r
  | .exec sql env _ =>
    upperCaseString sql ∈ transactionKeyWords ∨ ExecServed env 0 (sqlCommands g sql)
  | .query _ _ _ => True

def Served : Call σ → Prop
  | .begin env | .rollback env => (firstRan env).isSome
  | .commit env => ∃ r, firstRan env = some r ∧ r.commit.rc ≠ SQLITE_BUSY
  | .on m => CallServed g m

structure Holds (c : Connection σ) (s : State σ) : Prop where
  autoCommit : c.autoCommit = s.pending.isNone
  file : c.store.file = s.committed
  view : c.store.view = s.view
  idle : s.pending = none → c.store.writing = false
  otherWriters : c.otherWriters = 0
  noDeferred : c.nDeferredCons = 0

structure Simulates (h : Impl σ) (s : State σ) : Prop where
  flag : h.isInTransaction = s.pending.isSome
  holds : Holds h.db s

section Halt

variable {before c d : Connection σ} {s : State σ} {a : Answer}

theorem Holds.errMsg (hs : Holds c s) (m : Bytes) : Holds { c with errMsg := m } s :=
  ⟨hs.autoCommit, hs.file, hs.view, hs.idle, hs.otherWriters, hs.noDeferred⟩

theorem Holds.nChange (hs : Holds c s) (n : ℤ) : Holds { c with nChange := n } s :=
  ⟨hs.autoCommit, hs.file, hs.view, hs.idle, hs.otherWriters, hs.noDeferred⟩

theorem Holds.setChanges (hs : Holds c s) (counts : Bool) (n : ℤ) :
    Holds (SqliteConnection.setChanges counts n c) s := by
  obtain ⟨k, hk⟩ := setChanges_eq counts n c
  exact hk ▸ hs.nChange k

/-- A table of statements in which no other statement writes. -/
theorem Holds.stmts (hs : Holds c s) {t : Table Stmt}
    (ht : (t.count fun s => s.active && s.writes) = c.otherWriters) :
    Holds { c with stmts := t } s :=
  ⟨hs.autoCommit, hs.file, hs.view, hs.idle, ht.trans hs.otherWriters, hs.noDeferred⟩

theorem Holds.withStmt (hs : Holds c s) {stmt : Stmt} (ha : stmt.active = false) :
    Holds (SqliteConnection.withStmt c stmt) s :=
  (hs.stmts (t := c.stmts.add stmt) (by simp [ha]; rfl)).errMsg msgOk

theorem Holds.change_id (hs : Holds c s) : Holds c (Transactions.next s (.change id)) := by
  rwa [Transactions.next_change_id]

/-- Where autocommit is on there is no transaction, and nothing is seen but the file. -/
theorem Holds.outside (hs : Holds c s) (hc : c.autoCommit = true) : s = ⟨c.store.file, none⟩ := by
  obtain ⟨committed, _ | content⟩ := s
  · rw [hs.file]
  · cases hc.symm.trans hs.autoCommit

theorem Holds.open (hs : Holds c s) (hc : ¬(c.autoCommit = true ∧ c.otherWriters = 0)) :
    s = ⟨c.store.file, some c.store.view⟩ := by
  obtain ⟨committed, _ | content⟩ := s
  · exact absurd ⟨hs.autoCommit, hs.otherWriters⟩ hc
  · rw [hs.file, hs.view]
    rfl

/-- A writing program that commits, in a transaction or for itself. -/
theorem halt_kept (hs : Holds before s) {stmt : Stmt} {r : Ran σ} (hw : stmt.writes = true)
    (hr : r.Commits) (hends : r.endsTransaction true = false)
    (he : HaltEffect before (runProgram before stmt r) r.toHalt a d) :
    Holds d (Transactions.next s (.change r.work)) ∧ a = r.error := by
  have hrun : runProgram before stmt r =
      { before with store := before.store.write r.work, nDeferredCons := r.deferred } := by
    rw [runProgram, if_pos hw]
  rw [hrun] at he
  have hcode : commitCode { before with
      store := before.store.write r.work, nDeferredCons := r.deferred } r.commit = none :=
    commitCode_eq_none.mpr ⟨hr.2.1, by simp [vdbeCommit, hr.2.2]⟩
  have hview := hs.view
  cases he with
  | committed ha ho =>
    obtain rfl := hs.outside ha
    rw [Transactions.view_none] at hview
    exact ⟨⟨ha, by simp [Transactions.next, hview], by simp [Transactions.next, hview],
      fun _ => rfl, hs.otherWriters, rfl⟩, rfl⟩
  | rolledBack _ _ hn => exact absurd ⟨hr.1, hcode⟩ hn
  | ended he => simp [hends] at he
  | kept hn =>
    obtain rfl := hs.open hn
    exact ⟨⟨hs.autoCommit, rfl, rfl, fun hp => (by cases hp), hs.otherWriters, hr.2.1⟩, rfl⟩
  | undone _ _ hk => exact absurd hr.1 hk

/-- A writing program that fails: nothing is left of what it did. -/
theorem halt_undone (hs : Holds before s) {h : Halt} (he : HaltEffect before c h a d)
    (hk : ¬h.KeepsWork) (hends : h.endsTransaction true = false)
    (hfile : c.store.file = before.store.file)
    (hview : (c.store.restore before.store.view).view = before.store.view)
    (hauto : c.autoCommit = before.autoCommit) (hstmts : c.stmts = before.stmts) :
    Holds d s ∧ a ≠ none := by
  have ho : c.otherWriters = 0 := (congrArg (Table.count _) hstmts).trans hs.otherWriters
  cases he with
  | committed _ _ hk' => exact absurd hk' hk
  | rolledBack ha =>
    obtain rfl := hs.outside (hauto ▸ ha)
    exact ⟨⟨ha, hfile, hfile, fun _ => rfl, ho, rfl⟩, Option.some_ne_none _⟩
  | ended he => simp [hends] at he
  | kept _ _ hk' => exact absurd hk' hk
  | undone hn =>
    obtain rfl := hs.open fun hb => hn ⟨hauto.trans hb.1, ho⟩
    exact ⟨⟨hauto.trans hs.autoCommit, by simpa using hfile, hview, nofun, ho, hs.noDeferred⟩,
      fun he => hk (.inl he)⟩

theorem halt_writing (hs : Holds before s) {stmt : Stmt} {r : Ran σ} (hw : stmt.writes = true)
    (hr : RanServed true r) (he : HaltEffect before (runProgram before stmt r) r.toHalt a d) :
    Holds d (Transactions.next s (.change (ranWork true r))) ∧ (a = none ↔ r.error = none) := by
  obtain ⟨hends, hk⟩ := hr
  rcases hk rfl with hr | hk
  · obtain ⟨hd, ha⟩ := halt_kept hs hw hr hends he
    rw [ranWork, if_pos ⟨rfl, hr.1⟩, ha]
    exact ⟨hd, Iff.rfl⟩
  · have hrun : runProgram before stmt r =
        { before with store := before.store.write r.work, nDeferredCons := r.deferred } := by
      rw [runProgram, if_pos hw]
    rw [hrun] at he
    obtain ⟨hd, ha⟩ := halt_undone hs he hk hends rfl rfl rfl rfl
    rw [ranWork, if_neg fun hw => hk hw.2]
    exact ⟨hd.change_id, iff_of_false ha fun hn => hk (.inl hn)⟩

/-- A statement that only reads leaves everything as it is. -/
theorem halt_reading (hs : Holds c s) {stmt : Stmt} {h : Halt} (hw : stmt.writes = false)
    (hends : h.endsTransaction false = false) :
    ∃ halted d, sqlite3VdbeHalt c c stmt h = (h.error, halted, d) ∧ Holds d s := by
  have hemergency : h.isEmergency false = false := by
    by_contra he
    simp [Halt.endsTransaction, he] at hends
  unfold sqlite3VdbeHalt
  rw [hw, hemergency, if_neg Bool.false_ne_true]
  by_cases ha : c.autoCommit = true ∧ c.otherWriters = 0
  · obtain rfl := hs.outside ha.1
    have hclean := hs.idle rfl
    have hcode : commitCode c h.commit = none :=
      commitCode_eq_none.mpr ⟨hs.noDeferred, by simp [vdbeCommit, hclean]⟩
    rw [if_pos ha, haltTransaction]
    split
    · refine ⟨true, setChanges stmt.counts h.nChange (commitDone c), by simp [hcode],
        Holds.setChanges ?_ _ _⟩
      unfold commitDone
      rw [Store.commit_of_clean hclean]
      exact ⟨ha.1, hs.file, hs.view, hs.idle, ha.2, rfl⟩
    · refine ⟨true, setChanges stmt.counts 0 (sqlite3RollbackAll c), rfl, Holds.setChanges ?_ _ _⟩
      exact ⟨ha.1, rfl, rfl, fun _ => rfl, ha.2, rfl⟩
  · obtain ⟨op, ho⟩ : ∃ op, h.statementOp false = some op := by
      refine Option.ne_none_iff_exists'.mp fun ho => ?_
      simp [Halt.endsTransaction, ho] at hends
    have hjournal : ¬(h.usesStmtJournal = true ∧ h.closeStatement ≠ none) := by
      intro hj
      simp [Halt.endsTransaction, hj] at hends
    rw [if_neg ha, haltStatement, hw, ho]
    simp only [if_neg hjournal]
    refine ⟨true, _, rfl, Holds.setChanges ?_ _ _⟩
    split
    · rw [undoStatement, Store.restore_view]
      exact hs
    · exact hs

end Halt

section Calls

variable {h : Impl σ} {s : State σ}

theorem halt_of_effect {d e : Connection σ} {c : InsertCall σ} {r : Ran σ} {a : Answer}
    (he : RanEffect d c r a e) : HaltEffect (withStmt d (insertStmt c.table c.values.impl c.env))
      (running d c r) r.toHalt a e := by
  have hcom : r.Commits ↔ r.KeepsWork ∧ commitCode (running d c r) r.commit = none := by
    rw [running_commits]
    rfl
  cases he with
  | committed ha ho hc => exact .committed ha (by simpa using ho) hc.1 (hcom.mp hc).2
  | rolledBack ha ho hn => exact .rolledBack ha (by simpa using ho) (mt hcom.mpr hn)
  | ended hends hk => exact .ended hends fun ha ho => hk ha (by simpa using ho)
  | kept hn hends hk => exact .kept (by simpa using hn) hends hk
  | undone hn hends hk => exact .undone (by simpa using hn) hends hk

/-- The statement of the insert runs to its end without an error. -/
def RanWell (c : InsertCall σ) : Prop := ∃ r, insertRan c = some r ∧ r.error = none

theorem insert_simulates (hs : Simulates h s) {c : InsertCall σ} (hl : ¬LockRefused c)
    (hc : ∀ r, insertRan c = some r → RanServed true r) :
    Simulates (insertNext p h c)
        (Transactions.next s (.change (((insertRan c).map (ranWork true)).getD id))) ∧
      ((insertValues p h c).1 = true ↔
        RanWell c ∨ (Prepared c ∧ ¬BindsSucceed c.values.impl c.env)) := by
  unfold insertNext RanWell
  cases hr : insertRan c with
  | none =>
    obtain ⟨b, t, m, hi, hb, -, ho⟩ := insert_not_ran p h hr
    rw [if_neg hl, Nat.add_zero] at ho
    rw [hi]
    have hd := ((hs.holds.stmts ho).errMsg m).change_id
    exact ⟨⟨hs.flag.trans (Transactions.next_change_pending s _).symm, hd⟩, by simpa using hb⟩
  | some r =>
    obtain ⟨a, d, n, m, he, hi⟩ := insert_ran p h hr
    have hstmt : Holds (withStmt h.db (insertStmt c.table c.values.impl c.env)) s :=
      hs.holds.withStmt rfl
    obtain ⟨hd, ha⟩ := halt_writing hstmt rfl (hc r hr) (halt_of_effect he)
    have hbound := (insertRan_some.mp hr).2.1
    rw [hi]
    refine ⟨⟨hs.flag.trans (Transactions.next_change_pending s _).symm,
      (hd.nChange n).errMsg m⟩, ?_⟩
    simp [ha, hbound]

theorem ran_holds {c : Connection σ} (hs : Holds c s) (stmt : Stmt) {r : Ran σ}
    (hr : RanServed stmt.writes r) :
    ∃ a halted d, sqlite3VdbeHalt c (runProgram c stmt r) stmt r.toHalt = (a, halted, d) ∧
      Holds d (Transactions.next s (.change (ranWork stmt.writes r))) ∧
      (a = none ↔ r.error = none) := by
  cases hw : stmt.writes with
  | false =>
    rw [hw] at hr
    have hrun : runProgram c stmt r = c := by simp [runProgram, hw]
    obtain ⟨halted, d, hd, hh⟩ := halt_reading hs hw hr.1
    rw [hrun, ranWork, if_neg (by simp)]
    exact ⟨_, halted, d, hd, hh.change_id, Iff.rfl⟩
  | true =>
    rw [hw] at hr
    obtain ⟨a, d, n, he, hd⟩ := sqlite3VdbeHalt_effect c (runProgram c stmt r) r.toHalt hw
    obtain ⟨hh, ha⟩ := halt_writing hs hw hr he
    exact ⟨a, true, _, hd, hh.setChanges _ _, ha⟩

/-- A statement that waits for a lock is finalised and leaves everything as it is. -/
theorem lockBusy_holds {c : Connection σ} (hs : Holds c s) (stmt : Stmt) (msg : Bytes) :
    Holds (sqlite3VdbeHalt c c stmt ⟨some (busy msg), .abort, false, 0, none, none⟩).2.2 s := by
  cases hw : stmt.writes with
  | false =>
    obtain ⟨halted, d, hd, hh⟩ := halt_reading hs hw
      (h := ⟨some (busy msg), .abort, false, 0, none, none⟩) rfl
    rwa [hd]
  | true =>
    obtain ⟨a, d, n, he, hd⟩ := sqlite3VdbeHalt_effect c c
      ⟨some (busy msg), .abort, false, 0, none, none⟩ hw
    have hk : ¬Halt.KeepsWork ⟨some (busy msg), .abort, false, 0, none, none⟩ := by
      simp [Halt.KeepsWork]
    rw [hd]
    exact (halt_undone hs he hk rfl rfl (by simp) rfl rfl).1.setChanges _ _

theorem execCommands_holds (env : ExecEnv σ) {cmds : List Command} {i : ℕ} {c : Connection σ}
    (hs : Holds c s) (hc : ExecServed env i cmds) : Holds (execCommands env i cmds c).2
      (Transactions.next s (.change (execWork env i cmds))) := by
  induction cmds generalizing i c s with
  | nil => exact hs.change_id
  | cons cmd cmds ih =>
    cases cmd with
    | control t => exact hc.elim
    | syntaxError =>
      obtain ⟨f, hf⟩ : ∃ f, execCommand c .syntaxError (env i) = (some f, c) := by
        cases hp : (env i).prepare <;> exact ⟨_, by simp only [execCommand, hp]; rfl⟩
      simp only [execCommands, hf]
      exact hs.change_id
    | other ts =>
      simp only [ExecServed] at hc
      simp only [execCommands, execWork]
      cases hp : (env i).prepare with
      | some f =>
        simp only [execCommand, hp]
        exact hs.change_id
      | none =>
        cases hq : (env i).progress with
        | notStarted f =>
          simp only [execCommand, hp, hq]
          exact hs.change_id
        | lockBusy msg =>
          simp only [execCommand, hp, hq]
          exact (lockBusy_holds hs _ msg).change_id
        | ran r =>
          rw [hp, hq] at hc
          obtain ⟨a, halted, d, hd, hh, ha⟩ :=
            ran_holds hs ⟨[], [], (env i).writes, (env i).counts, false⟩ hc.1
          simp only [execCommand, hp, hq, hd]
          cases a with
          | none =>
            rw [if_pos (ha.mp rfl), ← Transactions.next_change_comp]
            exact ih hh (hc.2 (ha.mp rfl))
          | some f =>
            rw [if_neg fun he => by simp at ha; exact ha he]
            exact hh

theorem exec_simulates (hs : Simulates h s) {sql : Bytes} {env : ExecEnv σ} (errorMessage : Bool)
    (hc : CallServed g (.exec sql env errorMessage)) : Simulates (MadDatabase.exec g h sql env).2
      (Transactions.next s (.change (work g (.exec sql env errorMessage)))) := by
  simp only [MadDatabase.exec, work]
  split
  · rwa [Transactions.next_change_id]
  · next hk =>
    have hd := execCommands_holds env (hs.holds.errMsg msgOk) (hc.resolve_left hk)
    exact ⟨hs.flag.trans (Transactions.next_change_pending s _).symm, hd.errMsg _⟩

theorem bind_holds {c : Connection σ} (hs : Holds c s) (stmt : Option ℕ) (i : ℕ) (v : BindCall)
    (a : Answer) : Holds (sqlite3Bind c stmt i v a).2 s := by
  cases stmt with
  | none => exact hs
  | some j =>
    cases a with
    | some f => exact hs.errMsg f.msg
    | none =>
      refine Holds.errMsg (hs.stmts ?_) msgOk
      exact Table.count_update (by simp) c.stmts j

theorem bindArgs_holds (env : QueryEnv) (stmt : Option ℕ) (i : ℕ) (args : List Bytes)
    {c : Connection σ} (hs : Holds c s) : Holds (bindArgs env stmt i args c) s := by
  induction args generalizing i c with
  | nil => exact hs
  | cons str args ih => exact ih (i + 1) (bind_holds hs stmt (i + 1) _ _)

theorem prepare_holds {c : Connection σ} (hs : Holds c s) (sql : Bytes) (writes counts : Bool)
    (a : Answer) : Holds (sqlite3PrepareV2 c sql writes counts a).2.2 s := by
  unfold sqlite3PrepareV2
  split
  · next ha =>
    rw [ha.1]
    exact hs.withStmt rfl
  · exact hs.errMsg _

theorem call_simulates (hs : Simulates h s) {m : HandleAtomic.Call σ} (hm : CallServed g m) :
    Simulates (perform p g h m).2 (Transactions.next s (.change (work g m))) := by
  cases m with
  | insert c => exact (insert_simulates p hs hm.1 hm.2).1
  | exec sql env errorMessage => exact exec_simulates g hs errorMessage hm
  | query sql args env =>
    rw [work, Transactions.next_change_id]
    exact ⟨hs.flag, bindArgs_holds env _ 0 args (prepare_holds hs.holds _ _ _ _)⟩

theorem begin_simulates (hs : Simulates h s) {env : ExecEnv σ} (he : (firstRan env).isSome) :
    Simulates (beginTransaction g h env) (Transactions.next s .begin) := by
  obtain ⟨committed, _ | content⟩ := s
  · obtain ⟨m, hb⟩ := beginTransaction_issued g hs.flag env
    have ht : BeginTakesEffect h.db env := ⟨he, hs.holds.autoCommit, hs.holds.noDeferred⟩
    rw [hb, if_pos ht]
    exact ⟨rfl, rfl, hs.holds.file, hs.holds.view, nofun, hs.holds.otherWriters,
      hs.holds.noDeferred⟩
  · have hb : beginTransaction g h env = h := if_neg (by simp [hs.flag])
    rwa [hb]

theorem rollback_simulates (hs : Simulates h s) {env : ExecEnv σ} (he : (firstRan env).isSome) :
    Simulates (rollbackTransaction g h env) (Transactions.next s .rollback) := by
  obtain ⟨committed, _ | content⟩ := s
  · have hb : rollbackTransaction g h env = h := if_neg (by simp [hs.flag])
    rwa [hb]
  · obtain ⟨m, hb⟩ := rollbackTransaction_issued g hs.flag env
    have ht : RollbackTakesEffect h.db env := ⟨he, hs.holds.autoCommit⟩
    rw [hb, if_pos ht]
    exact ⟨rfl, rfl, hs.holds.file, hs.holds.file, fun _ => rfl, hs.holds.otherWriters, rfl⟩

/-- A COMMIT that is not busy ends the transaction, with its changes or without. -/
theorem commit_simulates (hs : Simulates h s) {env : ExecEnv σ} {r : Ran σ}
    (he : firstRan env = some r) (hb : r.commit.rc ≠ SQLITE_BUSY) :
    Simulates (commitTransaction g h env) (Transactions.next s (event g (.commit env))) := by
  have hevent : event g (.commit env) = if r.commit = none then .commit else .rollback := by
    simp [event, he]
  rw [hevent]
  obtain ⟨file, _ | content⟩ := s
  · have hc : commitTransaction g h env = h := if_neg (by simp [hs.flag])
    rw [hc]
    split <;> exact hs
  · obtain ⟨m, hc⟩ := commitTransaction_issued g hs.flag env
    have hv : (vdbeCommit h.db r.commit).rc ≠ SQLITE_BUSY := by
      unfold vdbeCommit
      split
      · exact hb
      · simp
    have ht : CommitTakesEffect h.db env := by
      simp only [CommitTakesEffect, he]
      exact ⟨hs.holds.autoCommit, hs.holds.otherWriters, hs.holds.noDeferred, hv⟩
    rw [hc, if_pos ht]
    simp only [committed, he]
    have hfile := hs.holds.file
    have hview : h.db.store.view = content := hs.holds.view
    have ho := hs.holds.otherWriters
    cases hr : r.commit with
    | none =>
      rw [if_pos (by simp [vdbeCommit]), if_pos rfl]
      exact ⟨rfl, rfl, hview, hview, fun _ => rfl, ho, rfl⟩
    | some f =>
      rw [if_neg (Option.some_ne_none f)]
      cases hw : h.db.store.writing with
      | true =>
        rw [if_neg (by simp [vdbeCommit, hw])]
        exact ⟨rfl, rfl, hfile, hfile, fun _ => rfl, ho, rfl⟩
      | false =>
        -- Nothing was written, so there is nothing a commit could fail with.
        have hclean := (h.db.store.clean hw).trans hfile
        rw [if_pos (by simp [vdbeCommit, hw])]
        exact ⟨rfl, rfl, hclean, hclean, fun _ => rfl, ho, rfl⟩

theorem simulates_next (hs : Simulates h s) {c : Call σ} (hc : Served g c) :
    Simulates (next p g h c) (Transactions.next s (event g c)) := by
  cases c with
  | begin env => exact begin_simulates g hs hc
  | commit env =>
    obtain ⟨r, hr, hb⟩ := hc
    exact commit_simulates g hs hr hb
  | rollback env => exact rollback_simulates g hs hc
  | on m => exact call_simulates p g hs hc

end Calls

theorem opened_simulates (content : σ) : Simulates (Impl.opened content) ⟨content, none⟩ :=
  ⟨rfl, rfl, rfl, rfl, fun _ => rfl, rfl, rfl⟩

theorem run_simulates {h : Impl σ} {s : State σ} (hs : Simulates h s) {calls : List (Call σ)}
    (hc : ∀ c ∈ calls, Served g c) : Simulates (run (next p g) h calls)
      (run Transactions.next s (calls.map (event g))) := by
  induction calls generalizing h s with
  | nil => exact hs
  | cons c calls ih =>
    rw [List.forall_mem_cons] at hc
    exact ih (simulates_next p g hs hc.1) hc.2

/-- What a handle shows, and what is left of it, after the calls. -/
structure AllOrNothing (content : σ) (events : List (Event σ)) (h : Impl σ) : Prop where
  file : h.db.store.file = applyAll (lasting false events) content
  view : h.db.store.view = applyAll (lasting false (events ++ [.commit])) content
  flag : h.isInTransaction = inside false events
  autoCommit : h.db.autoCommit = !inside false events
  closed : (destructor h).file = applyAll (lasting false events) content
  shown : ShowsPrefix content events h.db.store.file

theorem insertRow_served (n : ℕ) : CallServed g (.insert (insertRow n)) := by
  refine ⟨fun hl => Bool.false_ne_true hl.2.2, ?_⟩
  rintro r hr
  obtain rfl : Ran.stored (n :: ·) = r := Option.some.inj hr
  exact ⟨rfl, fun _ => .inl ⟨.inl rfl, rfl, rfl⟩⟩

/-- One insert by itself, one that is rolled back, one that is committed, one that waits. -/
def session : List (Call (List ℕ)) :=
  [.on (.insert (insertRow 1)), .begin (answers none), .on (.insert (insertRow 2)),
    .rollback (answers none), .begin (answers none), .on (.insert (insertRow 3)),
    .commit (answers none), .begin (answers none), .on (.insert (insertRow 4))]

example : (run (next .noConversion .controlOnly) (Impl.opened []) session).db.store.file =
    [3, 1] := by decide

end TransactionRefinement
