import MadSqlite.SqliteConnection

/-! # Transaction control and sqlite3_exec

OP_AutoCommit and OP_Savepoint as the source has them, and the loop of `sqlite3_exec`
over the commands of a text. A statement of the loop is finalised before the next one is
prepared, so the statements it makes are not in the table of the connection. -/
namespace SqliteExec

open CppStrings SqliteCommands TransactionalStore HandleTable SqliteConnection
open SqliteConnection.Connection

variable {σ : Type*}

def failure (msg : String) : Failure := ⟨SQLITE_ERROR, ascii msg, by decide⟩

/-- A statement of transaction control neither writes nor counts changes. -/
def controlStmt : Stmt := ⟨[], [], false, false, true⟩

/-- The program of a transaction-control statement has no error of its own to halt with. -/
def controlHalt (commit : Answer) : Halt := ⟨none, .abort, false, 0, commit, none⟩

/-- The end of OP_AutoCommit. A commit that is refused as busy takes the flag back; one
that fails otherwise has rolled back and leaves autocommit on. -/
def finishAutoCommit (d : Connection σ) (desiredAutoCommit : Bool) (commit : Answer) :
    Answer × Connection σ :=
  let (a, _, e) := sqlite3VdbeHalt d d controlStmt (controlHalt commit)
  if a.rc = SQLITE_BUSY then (a, { e with autoCommit := !desiredAutoCommit })
  else (a, sqlite3CloseSavepoints e)

def opAutoCommit (c : Connection σ) (desiredAutoCommit iRollback : Bool) (commit : Answer) :
    Answer × Connection σ :=
  if desiredAutoCommit = c.autoCommit then
    (some (failure (if desiredAutoCommit = false then
        "cannot start a transaction within a transaction"
      else if iRollback then "cannot rollback - no transaction is active"
      else "cannot commit - no transaction is active")), c)
  else if iRollback = false ∧ desiredAutoCommit ∧ 0 < c.otherWriters then
    (some (busy (ascii "cannot commit transaction - SQL statements in progress")), c)
  else if iRollback = false ∧ checkFk c ≠ none then (checkFk c, c)
  else
    let d := { (if iRollback then sqlite3RollbackAll c else c) with
      autoCommit := desiredAutoCommit }
    finishAutoCommit d desiredAutoCommit commit

/-- COMMIT is not refused: no statement writes, no violation is deferred, and the b-tree
layer does not answer that the file is busy. -/
def CommitEnds (c : Connection σ) (commit : Answer) : Prop :=
  c.otherWriters = 0 ∧ c.nDeferredCons = 0 ∧ (vdbeCommit c commit).rc ≠ SQLITE_BUSY

instance (c : Connection σ) (commit : Answer) : Decidable (CommitEnds c commit) :=
  inferInstanceAs (Decidable (_ ∧ _))

def commitAll (c : Connection σ) : Connection σ :=
  { sqlite3CloseSavepoints (commitDone c) with autoCommit := true }

@[simp] theorem controlHalt_isEmergency (commit : Answer) :
    (controlHalt commit).isEmergency false = false := by
  simp [Halt.isEmergency, Halt.isSpecialError, controlHalt, Answer.rc, primary]

@[simp] theorem controlHalt_statementOp (commit : Answer) :
    (controlHalt commit).statementOp false = some .release := by
  simp [Halt.statementOp, Halt.isJournalled, Halt.isSpecialError, controlHalt, Answer.rc, primary]

@[simp] theorem controlHalt_error (commit : Answer) : (controlHalt commit).error = none := rfl
@[simp] theorem controlHalt_commit (commit : Answer) : (controlHalt commit).commit = commit := rfl
@[simp] theorem controlHalt_journal (commit : Answer) :
    (controlHalt commit).usesStmtJournal = false := rfl
@[simp] theorem controlStmt_writes : controlStmt.writes = false := rfl
@[simp] theorem setChanges_control (n : ℤ) (c : Connection σ) :
    setChanges controlStmt.counts n c = c := rfl

theorem controlHalt_inside {c : Connection σ} (h : ¬(c.autoCommit ∧ c.otherWriters = 0))
    (commit : Answer) : sqlite3VdbeHalt c c controlStmt (controlHalt commit) = (none, true, c) := by
  simp [sqlite3VdbeHalt, h, haltStatement]

theorem controlHalt_autocommit {c : Connection σ} (hc : c.autoCommit = true)
    (ho : c.otherWriters = 0) (commit : Answer) :
    sqlite3VdbeHalt c c controlStmt (controlHalt commit) =
      match commitCode c commit with
      | none => (none, true, commitDone c)
      | some f => if f.rc = SQLITE_BUSY then (some f, false, c)
        else (some f, true, sqlite3RollbackAll c) := by
  cases hv : commitCode c commit with
  | none => simp [sqlite3VdbeHalt, hc, ho, haltTransaction, hv]
  | some f => simp [sqlite3VdbeHalt, hc, ho, haltTransaction, hv, Answer.rc]

theorem opAutoCommit_same {c : Connection σ} {desired : Bool} (h : desired = c.autoCommit)
    (iRollback : Bool) (commit : Answer) :
    ∃ f, opAutoCommit c desired iRollback commit = (some f, c) := by
  rw [opAutoCommit, if_pos h]
  exact ⟨_, rfl⟩

theorem opAutoCommit_begin {c : Connection σ} (hc : c.autoCommit = true)
    (hd : c.nDeferredCons = 0) (commit : Answer) :
    opAutoCommit c false false commit =
      (none, sqlite3CloseSavepoints { c with autoCommit := false }) := by
  have hk : checkFk c = none := by simp [checkFk, hd]
  have hh := controlHalt_inside (c := { c with autoCommit := false }) (by simp) commit
  have hf : finishAutoCommit { c with autoCommit := false } false commit =
      (none, sqlite3CloseSavepoints { c with autoCommit := false }) := by
    simp [finishAutoCommit, hh]
  rw [← hf]
  simp [opAutoCommit, hc, hk]

theorem opAutoCommit_begin_deferred {c : Connection σ} (hc : c.autoCommit = true)
    (hd : c.nDeferredCons ≠ 0) (commit : Answer) :
    opAutoCommit c false false commit = (some fkViolation, c) := by
  have hk : checkFk c = some fkViolation := by simp [checkFk, Nat.pos_of_ne_zero hd]
  simp [opAutoCommit, hc, hk]

theorem opAutoCommit_rollback {c : Connection σ} (hc : c.autoCommit = false)
    (commit : Answer) : opAutoCommit c true true commit = (none, endTransaction c) := by
  let d : Connection σ := { sqlite3RollbackAll c with autoCommit := true }
  have hh : sqlite3VdbeHalt d d controlStmt (controlHalt commit) = (none, true, d) := by
    by_cases ho : d.otherWriters = 0
    · have hv : commitCode d commit = none := commitCode_eq_none.mpr ⟨rfl, rfl⟩
      have hs : d.store.commit = d.store := Store.commit_of_clean rfl
      rw [controlHalt_autocommit rfl ho, hv]
      simp only [commitDone, hs]
      rfl
    · exact controlHalt_inside (fun h => ho h.2) commit
  have hf : finishAutoCommit d true commit = (none, endTransaction c) := by
    simp [finishAutoCommit, hh]
    rfl
  rw [← hf]
  simp [opAutoCommit, hc, d]

theorem opAutoCommit_commit {c : Connection σ} (hc : c.autoCommit = false)
    (ho : c.otherWriters = 0) (hd : c.nDeferredCons = 0) (commit : Answer) :
    opAutoCommit c true false commit =
      match vdbeCommit c commit with
      | none => (none, commitAll c)
      | some f => if f.rc = SQLITE_BUSY then (some f, c) else (some f, endTransaction c) := by
  let d : Connection σ := { c with autoCommit := true }
  have hk : checkFk c = none := by simp [checkFk, hd]
  have hv : commitCode d commit = vdbeCommit c commit := by
    have hk' : checkFk d = none := hk
    simp only [commitCode, hk', if_true]
    rfl
  have hh := controlHalt_autocommit (c := d) rfl ho commit
  have hf : opAutoCommit c true false commit = finishAutoCommit d true commit := by
    simp [opAutoCommit, hc, ho, hk, d]
  rw [hf, finishAutoCommit, hh, hv]
  cases ha : vdbeCommit c commit with
  | none => simp [d]; rfl
  | some f =>
    by_cases hb : f.rc = SQLITE_BUSY
    · simp [hb, Answer.rc, d]
      rw [← hc]
    · simp [hb, Answer.rc, d]
      rfl

theorem opAutoCommit_commit_refused {c : Connection σ} (hc : c.autoCommit = false)
    {commit : Answer} (h : ¬CommitEnds c commit) :
    ∃ f, opAutoCommit c true false commit = (some f, c) := by
  by_cases ho : c.otherWriters = 0
  · by_cases hd : c.nDeferredCons = 0
    · cases ha : vdbeCommit c commit with
      | none => exact absurd ⟨ho, hd, by simp [ha]⟩ h
      | some f =>
        have hb : f.rc = SQLITE_BUSY := by
          by_contra hb
          exact h ⟨ho, hd, by simpa [ha, Answer.rc] using hb⟩
        exact ⟨f, by simp [opAutoCommit_commit hc ho hd, ha, hb]⟩
    · have hk : checkFk c = some fkViolation := by simp [checkFk, Nat.pos_of_ne_zero hd]
      exact ⟨fkViolation, by simp [opAutoCommit, hc, ho, hk]⟩
  · exact ⟨_, by simp [opAutoCommit, hc, Nat.pos_of_ne_zero ho]; rfl⟩

/-- A COMMIT that is not refused ends the transaction, even when it fails. -/
theorem opAutoCommit_commit_ends {c : Connection σ} (hc : c.autoCommit = false)
    {commit : Answer} (h : CommitEnds c commit) :
    opAutoCommit c true false commit = (vdbeCommit c commit,
      if vdbeCommit c commit = none then commitAll c else endTransaction c) := by
  obtain ⟨ho, hd, hb⟩ := h
  rw [opAutoCommit_commit hc ho hd]
  cases ha : vdbeCommit c commit with
  | none => rfl
  | some f =>
    have hb' : f.rc ≠ SQLITE_BUSY := by simpa [ha, Answer.rc] using hb
    simp [hb']

def sameName (a b : Bytes) : Bool := a.map toupper = b.map toupper

def opSavepointBegin (c : Connection σ) (name : Bytes) : Answer × Connection σ :=
  if 0 < c.otherWriters then
    (some (busy (ascii "cannot open savepoint - SQL statements in progress")), c)
  else
    (none, { c with
      autoCommit := false
      isTransactionSavepoint := c.autoCommit || c.isTransactionSavepoint
      savepoints := ⟨name, c.store.view, c.nDeferredCons⟩ :: c.savepoints })

def findSavepoint (name : Bytes) (sps : List (Savepoint σ)) : List (Savepoint σ) :=
  sps.dropWhile fun s => !sameName s.name name

/-- `abort_due_to_error` of a transaction-control statement: it halts with the error. -/
def abortDueToError (c : Connection σ) (f : Failure) : Answer × Connection σ :=
  let (a, _, d) := sqlite3VdbeHalt c c controlStmt { controlHalt none with error := some f }
  (a, d)

/-- RELEASE and ROLLBACK TO. `btree` answers for the b-tree savepoint, `commit` for the
commit that releasing a transaction savepoint is. -/
def opSavepointEnd (c : Connection σ) (release : Bool) (name : Bytes) (btree commit : Answer) :
    Answer × Connection σ :=
  match findSavepoint name c.savepoints with
  | [] => (some ⟨SQLITE_ERROR, ascii "no such savepoint: " ++ name, by decide⟩, c)
  | sp :: below =>
    if 0 < c.otherWriters ∧ release then
      (some (busy (ascii "cannot release savepoint - SQL statements in progress")), c)
    else if below = [] ∧ c.isTransactionSavepoint ∧ release then
      if checkFk c ≠ none then (checkFk c, c)
      else
        let d := { c with autoCommit := true }
        let (a, _, e) := sqlite3VdbeHalt d d controlStmt (controlHalt commit)
        if a.rc = SQLITE_BUSY then (a, { e with autoCommit := false })
        else (a, { e with isTransactionSavepoint := false, savepoints := below })
    else
      match btree with
      | some f => abortDueToError c f
      | none =>
        if release then (none, { c with savepoints := below })
        else (none, { c with
          store := c.store.restore sp.view
          nDeferredCons := sp.nDeferredCons
          savepoints := sp :: below })

def lockNow (type : BeginType) (c : Connection σ) : Connection σ :=
  if type = .deferred then c else { c with store := c.store.write id }

def runControl (c : Connection σ) (t : TransactionControl) (h : Halt) : Answer × Connection σ :=
  match t with
  | .begin type => opAutoCommit (lockNow type c) false false h.commit
  | .commit => opAutoCommit c true false h.commit
  | .rollback => opAutoCommit c true true h.commit
  | .savepoint name => opSavepointBegin c name
  | .release name => opSavepointEnd c true name h.closeStatement h.commit
  | .rollbackTo name => opSavepointEnd c false name h.closeStatement h.commit

theorem controlHalt_nChange (c : Connection σ) (commit : Answer) :
    (sqlite3VdbeHalt c c controlStmt (controlHalt commit)).2.2.nChange = c.nChange :=
  halt_nChange c c _ rfl

theorem opAutoCommit_nChange (c : Connection σ) (desired iRollback : Bool) (commit : Answer) :
    (opAutoCommit c desired iRollback commit).2.nChange = c.nChange := by
  unfold opAutoCommit
  split_ifs <;> try rfl
  all_goals
    unfold finishAutoCommit
    dsimp only
    split_ifs <;> exact controlHalt_nChange _ commit

theorem opSavepointEnd_nChange (c : Connection σ) (release : Bool) (name : Bytes)
    (btree commit : Answer) :
    (opSavepointEnd c release name btree commit).2.nChange = c.nChange := by
  unfold opSavepointEnd
  split
  · rfl
  · split_ifs
    · rfl
    · rfl
    · dsimp only
      split_ifs <;> exact controlHalt_nChange _ commit
    · split
      · exact halt_nChange c c _ rfl
      · rfl
    · split
      · exact halt_nChange c c _ rfl
      · rfl

/-- Transaction control does not touch the change counter. -/
theorem runControl_nChange (c : Connection σ) (t : TransactionControl) (h : Halt) :
    (runControl c t h).2.nChange = c.nChange := by
  cases t with
  | begin type =>
    rw [runControl, opAutoCommit_nChange, lockNow]
    split <;> rfl
  | commit => exact opAutoCommit_nChange c true false h.commit
  | rollback => exact opAutoCommit_nChange c true true h.commit
  | savepoint name =>
    rw [runControl, opSavepointBegin]
    split <;> rfl
  | release name => exact opSavepointEnd_nChange c true name h.closeStatement h.commit
  | rollbackTo name => exact opSavepointEnd_nChange c false name h.closeStatement h.commit

/-- A command that runs makes no statement, finalises none, and leaves the message of the last
call. -/
structure Untouched (c d : Connection σ) : Prop where
  stmts : d.stmts = c.stmts
  errMsg : d.errMsg = c.errMsg

theorem Untouched.refl (c : Connection σ) : Untouched c c := ⟨rfl, rfl⟩

theorem Untouched.trans {c d e : Connection σ} (h : Untouched c d) (h' : Untouched d e) :
    Untouched c e := ⟨h'.stmts.trans h.stmts, h'.errMsg.trans h.errMsg⟩

theorem setChanges_errMsg (counts : Bool) (n : ℤ) (c : Connection σ) :
    (setChanges counts n c).errMsg = c.errMsg := by
  cases counts <;> rfl

theorem halt_untouched (before c : Connection σ) (s : Stmt) (h : Halt) :
    Untouched c (sqlite3VdbeHalt before c s h).2.2 := by
  refine ⟨halt_stmts before c s h, ?_⟩
  unfold sqlite3VdbeHalt
  split
  · exact setChanges_errMsg _ _ _
  · split
    · unfold haltTransaction
      dsimp only
      split
      · split
        · rfl
        · split <;> exact setChanges_errMsg _ _ _
      · exact setChanges_errMsg _ _ _
    · unfold haltStatement
      split
      · exact setChanges_errMsg _ _ _
      · dsimp only
        split
        · refine (setChanges_errMsg _ _ _).trans ?_
          split <;> rfl
        · refine (setChanges_errMsg _ _ _).trans ?_
          split <;> rfl

theorem opAutoCommit_untouched (c : Connection σ) (desired iRollback : Bool) (commit : Answer) :
    Untouched c (opAutoCommit c desired iRollback commit).2 := by
  have hfinish (d : Connection σ) : Untouched d (finishAutoCommit d desired commit).2 := by
    have hd := halt_untouched d d controlStmt (controlHalt commit)
    unfold finishAutoCommit
    dsimp only
    split
    · exact ⟨hd.stmts, hd.errMsg⟩
    · exact ⟨hd.stmts, hd.errMsg⟩
  unfold opAutoCommit
  split
  · exact .refl c
  · split
    · exact .refl c
    · split
      · exact .refl c
      · refine Untouched.trans ?_ (hfinish _)
        split <;> exact ⟨rfl, rfl⟩

theorem opSavepointEnd_untouched (c : Connection σ) (release : Bool) (name : Bytes)
    (btree commit : Answer) :
    Untouched c (opSavepointEnd c release name btree commit).2 := by
  unfold opSavepointEnd
  split
  · exact .refl c
  · split_ifs
    · exact .refl c
    · exact .refl c
    · have hd := halt_untouched { c with autoCommit := true } { c with autoCommit := true }
        controlStmt (controlHalt commit)
      dsimp only
      split
      · exact ⟨hd.stmts, hd.errMsg⟩
      · exact ⟨hd.stmts, hd.errMsg⟩
    · split
      · exact halt_untouched c c controlStmt _
      · exact ⟨rfl, rfl⟩
    · split
      · exact halt_untouched c c controlStmt _
      · exact ⟨rfl, rfl⟩

theorem runControl_untouched (c : Connection σ) (t : TransactionControl) (h : Halt) :
    Untouched c (runControl c t h).2 := by
  cases t with
  | begin type =>
    refine Untouched.trans ?_ (opAutoCommit_untouched (lockNow type c) false false h.commit)
    unfold lockNow
    split <;> exact ⟨rfl, rfl⟩
  | commit => exact opAutoCommit_untouched c true false h.commit
  | rollback => exact opAutoCommit_untouched c true true h.commit
  | savepoint name =>
    rw [runControl, opSavepointBegin]
    split <;> exact ⟨rfl, rfl⟩
  | release name => exact opSavepointEnd_untouched c true name h.closeStatement h.commit
  | rollbackTo name => exact opSavepointEnd_untouched c false name h.closeStatement h.commit

structure CommandEnv (σ : Type*) where
  prepare : Answer
  writes : Bool
  counts : Bool
  progress : Progress σ

/-- The environment of a whole text, by the position of the command. -/
abbrev ExecEnv (σ : Type*) := ℕ → CommandEnv σ

def answers (commit : Answer) : ExecEnv σ := fun _ =>
  ⟨none, false, false, .ran ⟨⟨none, .abort, false, 0, commit, none⟩, id, 0⟩⟩

def firstRan (env : ExecEnv σ) : Option (Ran σ) :=
  if (env 0).prepare = none then
    match (env 0).progress with
    | .ran r => some r
    | _ => none
  else none

def syntaxFailure : Failure := failure "syntax error"

def execCommand (c : Connection σ) (cmd : Command) (env : CommandEnv σ) :
    Answer × Connection σ :=
  match cmd, env.prepare with
  | .syntaxError, some f => (some f, c)
  | .syntaxError, none => (some syntaxFailure, c)
  | _, some f => (some f, c)
  | .control t, none =>
    match env.progress with
    | .notStarted f => (some f, c)
    | .lockBusy msg => (some (busy msg), c)
    | .ran r => runControl c t r.toHalt
  | .other _, none =>
    let s : Stmt := ⟨[], [], env.writes, env.counts, false⟩
    match env.progress with
    | .notStarted f => (some f, c)
    | .lockBusy msg =>
      -- Finalising the statement that waits for the lock halts it with SQLITE_BUSY.
      let h : Halt := ⟨some (busy msg), .abort, false, 0, none, none⟩
      (some (busy msg), (sqlite3VdbeHalt c c s h).2.2)
    | .ran r =>
      let (a, _, d) := sqlite3VdbeHalt c (runProgram c s r) s r.toHalt
      (a, d)

def execCommands (env : ExecEnv σ) : ℕ → List Command → Connection σ → Answer × Connection σ
  | _, [], c => (none, c)
  | i, cmd :: cmds, c =>
    match execCommand c cmd (env i) with
    | (none, d) => execCommands env (i + 1) cmds d
    | (some f, d) => (some f, d)

/-- `sqlite3_exec` without a callback. -/
def sqlite3Exec (g : Grammar) (c : Connection σ) (sql : Bytes) (env : ExecEnv σ) :
    Answer × Connection σ :=
  let (a, d) := execCommands env 0 (sqlCommands g sql) (c.report none)
  (a, d.report a)

theorem execCommand_untouched (c : Connection σ) (cmd : Command) (env : CommandEnv σ) :
    Untouched c (execCommand c cmd env).2 := by
  unfold execCommand
  split
  · exact .refl c
  · exact .refl c
  · exact .refl c
  · split
    · exact .refl c
    · exact .refl c
    · exact runControl_untouched c _ _
  · dsimp only
    split
    · exact .refl c
    · exact halt_untouched _ _ _ _
    · refine Untouched.trans ?_ (halt_untouched _ _ _ _)
      unfold runProgram
      split <;> exact ⟨rfl, rfl⟩

theorem execCommands_untouched (env : ExecEnv σ) (i : ℕ) (cmds : List Command)
    (c : Connection σ) : Untouched c (execCommands env i cmds c).2 := by
  induction cmds generalizing i c with
  | nil => exact .refl c
  | cons cmd cmds ih =>
    have hd := execCommand_untouched c cmd (env i)
    rw [execCommands]
    generalize execCommand c cmd (env i) = r at hd ⊢
    obtain ⟨_ | f, d⟩ := r
    · exact hd.trans (ih (i + 1) d)
    · exact hd

theorem sqlite3Exec_stmts (g : Grammar) (c : Connection σ) (sql : Bytes) (env : ExecEnv σ) :
    (sqlite3Exec g c sql env).2.stmts = c.stmts :=
  (execCommands_untouched env 0 (sqlCommands g sql) (c.report none)).stmts

theorem sqlite3Exec_ok {g : Grammar} {c : Connection σ} {sql : Bytes} {env : ExecEnv σ}
    (h : (sqlite3Exec g c sql env).1 = none) : (sqlite3Exec g c sql env).2.errMsg = msgOk := by
  unfold sqlite3Exec at h ⊢
  generalize execCommands env 0 (sqlCommands g sql) (c.report none) = r at h ⊢
  obtain ⟨a, d⟩ := r
  obtain rfl : a = none := h
  rfl

theorem sqlite3Exec_one {g : Grammar} {sql : Bytes} {cmd : Command}
    (ht : sqlCommands g sql = [cmd]) (c : Connection σ) (env : ExecEnv σ) :
    sqlite3Exec g c sql env =
      let (a, d) := execCommand (c.report none) cmd (env 0)
      (a, d.report a) := by
  simp only [sqlite3Exec, ht, execCommands]
  rcases execCommand (c.report none) cmd (env 0) with ⟨_ | f, d⟩ <;> rfl

theorem execCommand_ran (c : Connection σ) (t : TransactionControl) {env : ExecEnv σ} {r : Ran σ}
    (hr : firstRan env = some r) :
    execCommand c (.control t) (env 0) = runControl c t r.toHalt := by
  unfold firstRan at hr
  split at hr
  · next hp =>
    split at hr
    · next hq =>
      cases hr
      simp [execCommand, hp, hq]
    · cases hr
  · cases hr

theorem execCommand_not_ran (c : Connection σ) (t : TransactionControl) {env : ExecEnv σ}
    (hr : firstRan env = none) : ∃ f, execCommand c (.control t) (env 0) = (some f, c) := by
  cases hp : (env 0).prepare with
  | some f => exact ⟨f, by simp [execCommand, hp]⟩
  | none =>
    cases hq : (env 0).progress with
    | notStarted f => exact ⟨f, by simp [execCommand, hp, hq]⟩
    | lockBusy msg => exact ⟨busy msg, by simp [execCommand, hp, hq]⟩
    | ran r => simp [firstRan, hp, hq] at hr

def BeginTakesEffect (c : Connection σ) (env : ExecEnv σ) : Prop :=
  (firstRan env).isSome ∧ c.autoCommit = true ∧ c.nDeferredCons = 0

def RollbackTakesEffect (c : Connection σ) (env : ExecEnv σ) : Prop :=
  (firstRan env).isSome ∧ c.autoCommit = false

/-- A COMMIT in this state ends the transaction, with its changes or without. -/
def CommitTakesEffect (c : Connection σ) (env : ExecEnv σ) : Prop :=
  match firstRan env with
  | some r => c.autoCommit = false ∧ CommitEnds c r.commit
  | none => False

/-- The state after a COMMIT that takes effect: it succeeds, or it fails and rolls back. -/
def committed (c : Connection σ) (env : ExecEnv σ) : Connection σ :=
  match firstRan env with
  | some r => if vdbeCommit c r.commit = none then commitAll c else endTransaction c
  | none => c

instance (c : Connection σ) (env : ExecEnv σ) : Decidable (BeginTakesEffect c env) :=
  inferInstanceAs (Decidable (_ ∧ _))

instance (c : Connection σ) (env : ExecEnv σ) : Decidable (RollbackTakesEffect c env) :=
  inferInstanceAs (Decidable (_ ∧ _))

instance (c : Connection σ) (env : ExecEnv σ) : Decidable (CommitTakesEffect c env) := by
  unfold CommitTakesEffect; split <;> infer_instance

def begun (c : Connection σ) : Connection σ :=
  sqlite3CloseSavepoints { c with autoCommit := false }

section Fields

variable (c : Connection σ)

@[simp] theorem begun_store : (begun c).store = c.store := rfl
@[simp] theorem begun_autoCommit : (begun c).autoCommit = false := rfl
@[simp] theorem begun_stmts : (begun c).stmts = c.stmts := rfl
@[simp] theorem commitAll_store : (commitAll c).store = c.store.commit := rfl

end Fields

theorem sqlite3Exec_begin (g : Grammar) (c : Connection σ) (env : ExecEnv σ) :
    ∃ a m, sqlite3Exec g c (ascii "BEGIN") env =
      (a, { (if BeginTakesEffect c env then begun c else c) with errMsg := m }) := by
  rw [sqlite3Exec_one (sqlCommands_begin g)]
  cases hr : firstRan env with
  | none =>
    obtain ⟨f, hf⟩ := execCommand_not_ran (c.report none) (.begin .deferred) hr
    rw [hf, if_neg (by simp [BeginTakesEffect, hr])]
    exact ⟨some f, f.msg, rfl⟩
  | some r =>
    rw [execCommand_ran _ _ hr, runControl, lockNow, if_pos rfl]
    by_cases hc : c.autoCommit = true
    · by_cases hd : c.nDeferredCons = 0
      · rw [opAutoCommit_begin (c := c.report none) hc hd, if_pos ⟨by simp [hr], hc, hd⟩]
        exact ⟨none, msgOk, rfl⟩
      · rw [opAutoCommit_begin_deferred (c := c.report none) hc hd, if_neg fun h => hd h.2.2]
        exact ⟨_, _, rfl⟩
    · have hc' : false = (c.report none).autoCommit := (Bool.eq_false_of_not_eq_true hc).symm
      obtain ⟨f, hf⟩ := opAutoCommit_same hc' false r.commit
      have hn : ¬BeginTakesEffect c env := fun h => hc h.2.1
      simp only [hf, if_neg hn]
      exact ⟨_, _, rfl⟩

theorem sqlite3Exec_rollback (g : Grammar) (c : Connection σ) (env : ExecEnv σ) :
    ∃ a m, sqlite3Exec g c (ascii "ROLLBACK") env =
      (a, { (if RollbackTakesEffect c env then endTransaction c else c) with errMsg := m }) := by
  rw [sqlite3Exec_one (sqlCommands_rollback g)]
  cases hr : firstRan env with
  | none =>
    obtain ⟨f, hf⟩ := execCommand_not_ran (c.report none) .rollback hr
    rw [hf, if_neg (by simp [RollbackTakesEffect, hr])]
    exact ⟨some f, f.msg, rfl⟩
  | some r =>
    rw [execCommand_ran _ _ hr, runControl]
    by_cases hc : c.autoCommit = false
    · rw [opAutoCommit_rollback (c := c.report none) hc, if_pos ⟨by simp [hr], hc⟩]
      exact ⟨none, msgOk, rfl⟩
    · have hc' : true = (c.report none).autoCommit := (Bool.eq_true_of_not_eq_false hc).symm
      obtain ⟨f, hf⟩ := opAutoCommit_same hc' true r.commit
      have hn : ¬RollbackTakesEffect c env := fun h => hc h.2
      simp only [hf, if_neg hn]
      exact ⟨_, _, rfl⟩

theorem sqlite3Exec_commit (g : Grammar) (c : Connection σ) (env : ExecEnv σ) :
    ∃ a m, sqlite3Exec g c (ascii "COMMIT") env =
      (a, { (if CommitTakesEffect c env then committed c env else c) with errMsg := m }) := by
  rw [sqlite3Exec_one (sqlCommands_commit g)]
  cases hr : firstRan env with
  | none =>
    obtain ⟨f, hf⟩ := execCommand_not_ran (c.report none) .commit hr
    rw [hf, if_neg (by simp [CommitTakesEffect, hr])]
    exact ⟨some f, f.msg, rfl⟩
  | some r =>
    rw [execCommand_ran _ _ hr, runControl]
    by_cases hc : c.autoCommit = false
    · by_cases he : CommitEnds c r.commit
      · have ht : CommitTakesEffect c env := by simp [CommitTakesEffect, hr, hc, he]
        rw [opAutoCommit_commit_ends (c := c.report none) hc he, if_pos ht]
        have hv : vdbeCommit (c.report none) r.commit = vdbeCommit c r.commit := rfl
        simp only [hv, committed, hr]
        split <;> exact ⟨_, _, rfl⟩
      · obtain ⟨f, hf⟩ := opAutoCommit_commit_refused (c := c.report none) hc he
        rw [hf, if_neg (by simp [CommitTakesEffect, hr, he])]
        exact ⟨some f, f.msg, rfl⟩
    · have hc' : true = (c.report none).autoCommit := (Bool.eq_true_of_not_eq_false hc).symm
      obtain ⟨f, hf⟩ := opAutoCommit_same hc' false r.commit
      rw [hf, if_neg (by simp [CommitTakesEffect, hr, hc])]
      exact ⟨some f, f.msg, rfl⟩

theorem committed_autoCommit {c : Connection σ} {env : ExecEnv σ}
    (ht : CommitTakesEffect c env) : (committed c env).autoCommit = true ∧
      (committed c env).store.writing = false := by
  unfold CommitTakesEffect at ht
  unfold committed
  split at ht
  · split <;> exact ⟨rfl, rfl⟩
  · exact ht.elim

@[simp] theorem committed_stmts (c : Connection σ) (env : ExecEnv σ) :
    (committed c env).stmts = c.stmts := by
  unfold committed
  split
  · split <;> rfl
  · rfl

end SqliteExec
