import MadSqlite.ContentValues
import MadSqlite.HandleTable
import MadSqlite.SqliteCommands
import MadSqlite.TransactionalStore

/-! # One SQLite connection

The part of `sqlite3` that decides what is stored, what is locked and what is still
prepared: autocommit flag, savepoints, deferred violations, change counter, last error
message, prepared statements, and the content of the database over an arbitrary type.
What a call answers is decided outside and given to it as an argument. The rules are
those of `sqlite3VdbeHalt`, OP_AutoCommit, OP_Savepoint, OP_Transaction and
`sqlite3Close`; virtual tables and hooks are not used by the program. -/
namespace SqliteConnection

open CppStrings ContentValues SqliteTokens SqliteCommands HandleTable TransactionalStore

abbrev ResultCode := ℤ
abbrev SQLITE_OK : ResultCode := 0
abbrev SQLITE_ERROR : ResultCode := 1
abbrev SQLITE_BUSY : ResultCode := 5
abbrev SQLITE_NOMEM : ResultCode := 7
abbrev SQLITE_INTERRUPT : ResultCode := 9
abbrev SQLITE_IOERR : ResultCode := 10
abbrev SQLITE_FULL : ResultCode := 13
abbrev SQLITE_CONSTRAINT : ResultCode := 19
abbrev SQLITE_TOOBIG : ResultCode := 18
abbrev SQLITE_MISUSE : ResultCode := 21
abbrev SQLITE_ROW : ResultCode := 100
abbrev SQLITE_DONE : ResultCode := 101
abbrev SQLITE_CONSTRAINT_FOREIGNKEY : ResultCode := 787

def primary (rc : ResultCode) : ResultCode := rc % 256

/-- An error: a code that is no success code, with the message SQLite records. -/
structure Failure where
  rc : ResultCode
  msg : Bytes
  failed : rc ≠ SQLITE_OK ∧ rc ≠ SQLITE_ROW ∧ rc ≠ SQLITE_DONE

/-- What a call answers; none is SQLITE_OK. -/
abbrev Answer := Option Failure

def Answer.rc : Answer → ResultCode
  | none => SQLITE_OK
  | some f => f.rc

@[simp] theorem answer_rc_none : Answer.rc none = SQLITE_OK := rfl
@[simp] theorem answer_rc_eq_ok {a : Answer} : a.rc = SQLITE_OK ↔ a = none := by
  cases a with
  | none => simp [Answer.rc]
  | some f => simpa [Answer.rc] using f.failed.1

def busy (msg : Bytes) : Failure := ⟨SQLITE_BUSY, msg, by decide⟩

/-- The raw arguments of a bind call: a text comes with its length narrowed to `int`, a
blob with the pointer of its vector, which is null for an empty one. -/
inductive BindCall where
  | int64 (v : Int64)
  | double (v : Double)
  | text (z : Bytes) (n : Int32)
  | blob (z : Option Bytes) (n : Int32)
  deriving DecidableEq

structure Stmt where
  sql : Bytes
  bound : List (ℕ × BindCall)
  writes : Bool
  counts : Bool
  active : Bool

structure Savepoint (σ : Type*) where
  name : Bytes
  view : σ
  nDeferredCons : ℕ

structure Connection (σ : Type*) where
  store : Store σ
  autoCommit : Bool
  savepoints : List (Savepoint σ)
  isTransactionSavepoint : Bool
  nDeferredCons : ℕ
  nChange : ℤ
  errMsg : Bytes
  stmts : Table Stmt

variable {σ : Type*}

def msgOk : Bytes := ascii "not an error"
def msgUnknown : Bytes := ascii "unknown error"

namespace Connection

def opened (content : σ) : Connection σ :=
  ⟨.opened content, true, [], false, 0, 0, msgOk, .empty⟩

def report (c : Connection σ) (a : Answer) : Connection σ :=
  { c with errMsg := match a with
      | none => msgOk
      | some f => f.msg }

def reportDone (c : Connection σ) : Connection σ := { c with errMsg := msgUnknown }

/-- Other statements that write and have not halted: `nVdbeWrite` less the running one. -/
def otherWriters (c : Connection σ) : ℕ := c.stmts.count fun s => s.active && s.writes

def unfinalised (c : Connection σ) : ℕ := c.stmts.size

end Connection

open Connection

def sqlite3RollbackAll (c : Connection σ) : Connection σ :=
  { c with store := c.store.rollback, nDeferredCons := 0 }

def sqlite3CloseSavepoints (c : Connection σ) : Connection σ :=
  { c with savepoints := [], isTransactionSavepoint := false }

/-- The three lines by which a failing statement ends the whole transaction. -/
def endTransaction (c : Connection σ) : Connection σ :=
  { sqlite3CloseSavepoints (sqlite3RollbackAll c) with autoCommit := true }

/-- A commit has something to do, and can fail, only in a write transaction. -/
def vdbeCommit (c : Connection σ) (a : Answer) : Answer := if c.store.writing then a else none

def commitDone (c : Connection σ) : Connection σ :=
  { c with store := c.store.commit, nDeferredCons := 0 }

def fkViolation : Failure :=
  ⟨SQLITE_CONSTRAINT_FOREIGNKEY, ascii "FOREIGN KEY constraint failed", by decide⟩

def checkFk (c : Connection σ) : Answer := if 0 < c.nDeferredCons then some fkViolation else none

section Fields

variable (c : Connection σ)

@[simp] theorem rollbackAll_store : (sqlite3RollbackAll c).store = c.store.rollback := rfl
@[simp] theorem rollbackAll_autoCommit : (sqlite3RollbackAll c).autoCommit = c.autoCommit := rfl
@[simp] theorem rollbackAll_stmts : (sqlite3RollbackAll c).stmts = c.stmts := rfl
@[simp] theorem endTransaction_store : (endTransaction c).store = c.store.rollback := rfl
@[simp] theorem endTransaction_autoCommit : (endTransaction c).autoCommit = true := rfl
@[simp] theorem endTransaction_stmts : (endTransaction c).stmts = c.stmts := rfl
@[simp] theorem commitDone_store : (commitDone c).store = c.store.commit := rfl
@[simp] theorem commitDone_autoCommit : (commitDone c).autoCommit = c.autoCommit := rfl
@[simp] theorem commitDone_stmts : (commitDone c).stmts = c.stmts := rfl

end Fields

inductive ErrorAction where
  | rollback | abort | fail
  deriving DecidableEq, Repr

/-- How a program stands when it halts, and what the b-tree layer answers from there. -/
structure Halt where
  error : Answer
  errorAction : ErrorAction
  usesStmtJournal : Bool
  nChange : ℤ
  commit : Answer
  closeStatement : Answer

def Halt.isSpecialError (h : Halt) : Bool :=
  let mrc := primary h.error.rc
  mrc = SQLITE_NOMEM ∨ mrc = SQLITE_IOERR ∨ mrc = SQLITE_INTERRUPT ∨ mrc = SQLITE_FULL

def Halt.isEmergency (h : Halt) (writes : Bool) : Bool :=
  let mrc := primary h.error.rc
  h.isSpecialError && (writes || mrc ≠ SQLITE_INTERRUPT) &&
    !((mrc = SQLITE_NOMEM || mrc = SQLITE_FULL) && h.usesStmtJournal)

def Halt.isJournalled (h : Halt) (writes : Bool) : Bool :=
  let mrc := primary h.error.rc
  h.isSpecialError && (writes || mrc ≠ SQLITE_INTERRUPT) &&
    ((mrc = SQLITE_NOMEM || mrc = SQLITE_FULL) && h.usesStmtJournal)

inductive StatementOp where
  | release | rollback
  deriving DecidableEq, Repr

/-- `eStatementOp`; none when the error action is to roll the transaction back. -/
def Halt.statementOp (h : Halt) (writes : Bool) : Option StatementOp :=
  if h.isJournalled writes then some .rollback
  else if h.error = none ∨ h.errorAction = .fail then some .release
  else if h.errorAction = .abort then some .rollback
  else none

def setChanges (counts : Bool) (n : ℤ) (c : Connection σ) : Connection σ :=
  if counts then { c with nChange := n } else c

/-- Undo the statement's own changes. Without a statement journal the program has made
none when it aborts, so going back to where it started is right in both cases. -/
def undoStatement (before c : Connection σ) : Connection σ :=
  { c with store := c.store.restore before.store.view, nDeferredCons := before.nDeferredCons }

/-- The code of the commit that ends a transaction: deferred violations come first. -/
def commitCode (c : Connection σ) (a : Answer) : Answer :=
  if checkFk c = none then vdbeCommit c a else checkFk c

theorem commitCode_eq_none {c : Connection σ} {a : Answer} :
    commitCode c a = none ↔ c.nDeferredCons = 0 ∧ vdbeCommit c a = none := by
  by_cases hd : c.nDeferredCons = 0
  · simp [commitCode, checkFk, hd]
  · simp [commitCode, checkFk, hd, Nat.pos_of_ne_zero hd]

def haltTransaction (c : Connection σ) (s : Stmt) (h : Halt) : Answer × Bool × Connection σ :=
  if h.error = none ∨ (h.errorAction = .fail ∧ h.isSpecialError = false) then
    let rc := commitCode c h.commit
    if rc.rc = SQLITE_BUSY ∧ s.writes = false then (rc, false, c)
    else if rc ≠ none then (rc, true, setChanges s.counts 0 (sqlite3RollbackAll c))
    else (h.error, true, setChanges s.counts h.nChange (commitDone c))
  else (h.error, true, setChanges s.counts 0 (sqlite3RollbackAll c))

/-- The code of a statement whose close fails: it replaces a success and a constraint error. -/
def closeCode (h : Halt) : Answer :=
  if h.error = none ∨ primary h.error.rc = SQLITE_CONSTRAINT then h.closeStatement else h.error

def haltStatement (before c : Connection σ) (s : Stmt) (h : Halt) :
    Answer × Bool × Connection σ :=
  match h.statementOp s.writes with
  | none => (h.error, true, setChanges s.counts 0 (endTransaction c))
  | some op =>
    let d := if op = .rollback then undoStatement before c else c
    if h.usesStmtJournal ∧ h.closeStatement ≠ none then
      (closeCode h, true, setChanges s.counts 0 (endTransaction d))
    else (h.error, true, setChanges s.counts (if op = .rollback then 0 else h.nChange) d)

@[simp] theorem undoStatement_store (before c : Connection σ) :
    (undoStatement before c).store = c.store.restore before.store.view := rfl
@[simp] theorem undoStatement_autoCommit (before c : Connection σ) :
    (undoStatement before c).autoCommit = c.autoCommit := rfl
@[simp] theorem undoStatement_stmts (before c : Connection σ) :
    (undoStatement before c).stmts = c.stmts := rfl

/-- `sqlite3VdbeHalt` for a program that started in `before` and has brought the
connection to `c`. The first result is `p->rc`, the second whether the program halted. -/
def sqlite3VdbeHalt (before c : Connection σ) (s : Stmt) (h : Halt) :
    Answer × Bool × Connection σ :=
  if h.isEmergency s.writes then
    -- Nothing is left for the rest of the function to commit or to undo.
    (h.error, true, setChanges s.counts 0 (endTransaction c))
  else if c.autoCommit ∧ c.otherWriters = 0 then haltTransaction c s h
  else haltStatement before c s h

def Halt.endsTransaction (h : Halt) (writes : Bool) : Bool :=
  h.isEmergency writes || h.statementOp writes = none ||
    (h.usesStmtJournal && h.closeStatement ≠ none)

/-- The statement's changes are not undone: it succeeds, or it fails with OE_Fail. -/
def Halt.KeepsWork (h : Halt) : Prop :=
  h.error = none ∨ (h.errorAction = .fail ∧ h.isSpecialError = false)

instance (h : Halt) : Decidable h.KeepsWork :=
  inferInstanceAs (Decidable (_ ∨ _))

/-- What a writing program that halts in `c` does to the connection, and its code. -/
inductive HaltEffect (before c : Connection σ) (h : Halt) : Answer → Connection σ → Prop where
  | committed : c.autoCommit → c.otherWriters = 0 → h.KeepsWork → commitCode c h.commit = none →
      HaltEffect before c h h.error (commitDone c)
  | rolledBack {f} : c.autoCommit → c.otherWriters = 0 →
      ¬(h.KeepsWork ∧ commitCode c h.commit = none) →
      HaltEffect before c h (some f) (sqlite3RollbackAll c)
  | ended {f} : h.endsTransaction true → (c.autoCommit → c.otherWriters = 0 → ¬h.KeepsWork) →
      HaltEffect before c h (some f) (endTransaction c)
  | kept : ¬(c.autoCommit ∧ c.otherWriters = 0) → h.endsTransaction true = false → h.KeepsWork →
      HaltEffect before c h h.error c
  | undone : ¬(c.autoCommit ∧ c.otherWriters = 0) → h.endsTransaction true = false →
      ¬h.KeepsWork → HaltEffect before c h h.error (undoStatement before c)

theorem endTransaction_undoStatement (before c : Connection σ) :
    endTransaction (undoStatement before c) = endTransaction c := by
  have hs : (undoStatement before c).store.rollback = c.store.rollback := by
    ext <;> simp [undoStatement]
  simp only [endTransaction, sqlite3CloseSavepoints, sqlite3RollbackAll, hs]
  rfl

theorem isSpecialError_error {h : Halt} (hs : h.isSpecialError = true) : h.error ≠ none := by
  intro he
  simp [Halt.isSpecialError, he, Answer.rc, primary] at hs

theorem isEmergency_error {h : Halt} {w : Bool} (he : h.isEmergency w = true) :
    h.error ≠ none := by
  simp only [Halt.isEmergency, Bool.and_eq_true] at he
  exact isSpecialError_error he.1.1

theorem isEmergency_undoes {h : Halt} {w : Bool} (he : h.isEmergency w = true) :
    ¬h.KeepsWork := by
  simp only [Halt.isEmergency, Bool.and_eq_true] at he
  intro hk
  rcases hk with hn | hf
  · exact isSpecialError_error he.1.1 hn
  · simp [hf.2] at he

theorem statementOp_error {h : Halt} {w : Bool} (ho : h.statementOp w ≠ some .release) :
    h.error ≠ none := by
  intro he
  have hj : h.isJournalled w = false := by
    simp [Halt.isJournalled, Halt.isSpecialError, he, Answer.rc, primary]
  simp [Halt.statementOp, hj, he] at ho

theorem isSpecialError_cases (h : Halt) :
    h.isSpecialError = (h.isEmergency true || h.isJournalled true) := by
  simp only [Halt.isEmergency, Halt.isJournalled, Bool.true_or, Bool.and_true]
  generalize (_ && h.usesStmtJournal) = undoable
  cases h.isSpecialError <;> cases undoable <;> rfl

theorem statementOp_release {h : Halt} (he : h.isEmergency true = false)
    (ho : h.statementOp true = some .release) : h.KeepsWork := by
  have hj : h.isJournalled true = false := by
    by_contra hj
    rw [Bool.not_eq_false] at hj
    simp [Halt.statementOp, hj] at ho
  have hs : h.isSpecialError = false := by simp [isSpecialError_cases, he, hj]
  by_cases hn : h.error = none ∨ h.errorAction = .fail
  · exact hn.imp_right fun hf => ⟨hf, hs⟩
  · simp only [Halt.statementOp, hj, if_neg hn] at ho
    split at ho <;> simp_all

theorem statementOp_rollback {h : Halt} (ho : h.statementOp true = some .rollback) :
    ¬h.KeepsWork := by
  intro hk
  have hn : h.error ≠ none := statementOp_error (w := true) (by simp [ho])
  obtain ⟨hf, hs⟩ := hk.resolve_left hn
  have hj : h.isJournalled true = false := by simp [Halt.isJournalled, hs]
  simp [Halt.statementOp, hj, hf] at ho

theorem haltTransaction_effect (before : Connection σ) {c : Connection σ} {s : Stmt} (h : Halt)
    (hw : s.writes = true) (hc : c.autoCommit = true) (ho : c.otherWriters = 0) :
    ∃ a d n, HaltEffect before c h a d ∧
      haltTransaction c s h = (a, true, setChanges s.counts n d) := by
  unfold haltTransaction
  dsimp only
  by_cases hk : h.KeepsWork
  · have hk' : h.error = none ∨ (h.errorAction = .fail ∧ h.isSpecialError = false) := hk
    rw [if_pos hk', if_neg (by simp [hw])]
    split
    · next hn =>
      obtain ⟨f, hf⟩ := Option.ne_none_iff_exists'.mp hn
      exact ⟨some f, _, 0, .rolledBack hc ho fun h => hn h.2, by rw [hf]⟩
    · next hn => exact ⟨_, _, h.nChange, .committed hc ho hk (not_not.mp hn), rfl⟩
  · have hk' : ¬(h.error = none ∨ (h.errorAction = .fail ∧ h.isSpecialError = false)) := hk
    rw [if_neg hk']
    obtain ⟨f, hf⟩ := Option.ne_none_iff_exists'.mp fun he => hk (.inl he)
    exact ⟨some f, _, 0, .rolledBack hc ho fun h => hk h.1, by rw [hf]⟩

theorem closeCode_ne_none {h : Halt} (hc : h.closeStatement ≠ none) : closeCode h ≠ none := by
  unfold closeCode
  split
  · exact hc
  · next hn => exact fun he => hn (.inl he)

theorem haltStatement_effect (before : Connection σ) {c : Connection σ} {s : Stmt} {h : Halt}
    (hw : s.writes = true) (he : h.isEmergency true = false)
    (hc : ¬(c.autoCommit ∧ c.otherWriters = 0)) : ∃ a d n, HaltEffect before c h a d ∧
      haltStatement before c s h = (a, true, setChanges s.counts n d) := by
  unfold haltStatement
  rw [hw]
  cases ho : h.statementOp true with
  | none =>
    obtain ⟨f, hf⟩ := Option.ne_none_iff_exists'.mp (statementOp_error (h := h) (w := true)
      (by simp [ho]))
    have hends : h.endsTransaction true = true := by simp [Halt.endsTransaction, ho]
    exact ⟨some f, _, 0, .ended hends fun ha ho => absurd ⟨ha, ho⟩ hc, by rw [hf]⟩
  | some op =>
    dsimp only
    split
    · next hj =>
      obtain ⟨f, hf⟩ := Option.ne_none_iff_exists'.mp (closeCode_ne_none hj.2)
      have hends : h.endsTransaction true = true := by simp [Halt.endsTransaction, hj]
      refine ⟨some f, _, 0, .ended hends fun ha ho => absurd ⟨ha, ho⟩ hc, ?_⟩
      rw [hf]
      split
      · rw [endTransaction_undoStatement]
      · rfl
    · next hj =>
      have hends : h.endsTransaction true = false := by
        simpa [Halt.endsTransaction, he, ho] using hj
      cases op with
      | release => exact ⟨_, _, h.nChange, .kept hc hends (statementOp_release he ho), rfl⟩
      | rollback => exact ⟨_, _, 0, .undone hc hends (statementOp_rollback ho), rfl⟩

@[simp] theorem setChanges_autoCommit (counts : Bool) (n : ℤ) (c : Connection σ) :
    (setChanges counts n c).autoCommit = c.autoCommit := by
  cases counts <;> rfl

theorem halt_in_transaction (before : Connection σ) {c : Connection σ} (s : Stmt) (h : Halt)
    (hc : c.autoCommit = false) : ∃ a d, sqlite3VdbeHalt before c s h = (a, true, d) ∧
      d.autoCommit = h.endsTransaction s.writes ∧
      (a = none ↔ h.error = none ∧ h.endsTransaction s.writes = false) := by
  unfold sqlite3VdbeHalt
  split
  · next he =>
    have hends : h.endsTransaction s.writes = true := by simp [Halt.endsTransaction, he]
    exact ⟨_, _, rfl, by simp [hends], by simp [isEmergency_error he]⟩
  · next he =>
    rw [Bool.not_eq_true] at he
    rw [if_neg (by simp [hc]), haltStatement]
    cases ho : h.statementOp s.writes with
    | none =>
      have hends : h.endsTransaction s.writes = true := by simp [Halt.endsTransaction, ho]
      have hn : h.error ≠ none := statementOp_error (w := s.writes) (by simp [ho])
      exact ⟨_, _, rfl, by simp [hends], by simp [hn]⟩
    | some op =>
      dsimp only
      split
      · next hj =>
        have hends : h.endsTransaction s.writes = true := by simp [Halt.endsTransaction, hj]
        exact ⟨_, _, rfl, by simp [hends], by simp [hends, closeCode_ne_none hj.2]⟩
      · next hj =>
        have hends : h.endsTransaction s.writes = false := by
          simpa [Halt.endsTransaction, he, ho] using hj
        refine ⟨_, _, rfl, ?_, by simp [hends]⟩
        split <;> simp [hends, hc]

/-- With autocommit on, no statement turns it off by halting. -/
theorem halt_autoCommit (before : Connection σ) {c : Connection σ} (s : Stmt) (h : Halt)
    (hc : c.autoCommit = true) : (sqlite3VdbeHalt before c s h).2.2.autoCommit = true := by
  unfold sqlite3VdbeHalt
  split
  · simp
  · split
    · unfold haltTransaction
      dsimp only
      split
      · split
        · exact hc
        · split <;> simp [hc]
      · simp [hc]
    · unfold haltStatement
      split
      · simp
      · dsimp only
        split
        · simp
        · rw [setChanges_autoCommit]
          split <;> simp [hc]

theorem sqlite3VdbeHalt_effect (before c : Connection σ) {s : Stmt} (h : Halt)
    (hw : s.writes = true) : ∃ a d n, HaltEffect before c h a d ∧
      sqlite3VdbeHalt before c s h = (a, true, setChanges s.counts n d) := by
  unfold sqlite3VdbeHalt
  rw [hw]
  split
  · next he =>
    obtain ⟨f, hf⟩ := Option.ne_none_iff_exists'.mp (isEmergency_error he)
    have hends : h.endsTransaction true = true := by simp [Halt.endsTransaction, he]
    exact ⟨some f, _, 0, .ended hends fun _ _ => isEmergency_undoes he, by rw [hf]⟩
  · next he =>
    rw [Bool.not_eq_true] at he
    split
    · next hc => exact haltTransaction_effect before h hw hc.1 hc.2
    · next hc => exact haltStatement_effect before hw he hc

/-- What a program has done when it halts: its change to the content and the number of
deferred violations it leaves. -/
structure Ran (σ : Type*) extends Halt where
  work : σ → σ
  deferred : ℕ

def Ran.Commits (r : Ran σ) : Prop := r.KeepsWork ∧ r.deferred = 0 ∧ r.commit = none

instance (r : Ran σ) : Decidable r.Commits :=
  inferInstanceAs (Decidable (_ ∧ _))

def Ran.stored (work : σ → σ) : Ran σ := ⟨⟨none, .abort, false, 1, none, none⟩, work, 0⟩

def Ran.conflict (action : ErrorAction) : Ran σ :=
  ⟨⟨some ⟨SQLITE_CONSTRAINT, ascii "UNIQUE constraint failed", by decide⟩, action, false, 0, none,
    none⟩, id, 0⟩

/-- How a step of a statement goes: it fails before it starts, the lock is refused at
OP_Transaction and the statement stays active, or the program runs until it halts. -/
inductive Progress (σ : Type*) where
  | notStarted (f : Failure)
  | lockBusy (msg : Bytes)
  | ran (r : Ran σ)

def Progress.isLockBusy : Progress σ → Bool
  | .lockBusy _ => true
  | _ => false

/-- A writing program has passed OP_Transaction, so the write transaction is open. -/
def runProgram (c : Connection σ) (s : Stmt) (r : Ran σ) : Connection σ :=
  if s.writes then { c with store := c.store.write r.work, nDeferredCons := r.deferred } else c

def activate (s : Stmt) : Stmt := { s with active := true }
def deactivate (s : Stmt) : Stmt := { s with active := false }

def stepCode (a : Answer) : ResultCode := if a = none then SQLITE_DONE else a.rc

def stepReport (c : Connection σ) (a : Answer) : Connection σ :=
  if a = none then c.reportDone else c.report a

def stringTooBig : Failure := ⟨SQLITE_TOOBIG, ascii "string or blob too big", by decide⟩

def misuse : Failure := ⟨SQLITE_MISUSE, ascii "library routine called out of sequence", by decide⟩

/-- `sqlite3_step` of a statement that yields no row. -/
def sqlite3Step (c : Connection σ) (stmt : Option ℕ) (p : Stmt → Progress σ) :
    ResultCode × Connection σ :=
  match stmt.bind fun i => (c.stmts.find? i).map fun s => (i, s) with
  | none => (SQLITE_MISUSE, c)
  | some (i, s) =>
    match p s with
    | .notStarted f => (f.rc, c.report (some f))
    | .lockBusy msg =>
      (SQLITE_BUSY, { c with stmts := c.stmts.update i activate }.report (some (busy msg)))
    | .ran r =>
      let before := { c with stmts := c.stmts.update i deactivate }
      let (a, halted, d) := sqlite3VdbeHalt before (runProgram before s r) s r.toHalt
      let d := if halted then d else { d with stmts := d.stmts.update i activate }
      (stepCode a, stepReport d a)

theorem setChanges_eq (counts : Bool) (n : ℤ) (c : Connection σ) :
    ∃ k, setChanges counts n c = { c with nChange := k } := by
  cases counts with
  | false => exact ⟨c.nChange, rfl⟩
  | true => exact ⟨n, rfl⟩

theorem stepReport_eq (c : Connection σ) (a : Answer) :
    ∃ m, stepReport c a = { c with errMsg := m } := by
  unfold stepReport
  split
  · exact ⟨msgUnknown, rfl⟩
  · exact ⟨_, rfl⟩

@[simp] theorem stepCode_eq_done {a : Answer} : stepCode a = SQLITE_DONE ↔ a = none := by
  cases a with
  | none => simp [stepCode]
  | some f => simpa [stepCode, Answer.rc] using f.failed.2.2

def withStmt (c : Connection σ) (s : Stmt) : Connection σ :=
  { c with stmts := c.stmts.add s, errMsg := msgOk }

@[simp] theorem find?_withStmt (c : Connection σ) (s : Stmt) :
    (withStmt c s).stmts.find? c.stmts.next = some s := Table.find?_add c.stmts s

@[simp] theorem update_withStmt (c : Connection σ) (s : Stmt) (f : Stmt → Stmt) :
    (withStmt c s).stmts.update c.stmts.next f = c.stmts.add (f s) := Table.update_add c.stmts s f

theorem step_notStarted (c : Connection σ) (s : Stmt) {p : Stmt → Progress σ} {f : Failure}
    (hp : p s = .notStarted f) : sqlite3Step (withStmt c s) (some c.stmts.next) p =
      (f.rc, { withStmt c s with errMsg := f.msg }) := by
  simp [sqlite3Step, hp, report]

theorem step_lockBusy (c : Connection σ) (s : Stmt) {p : Stmt → Progress σ} {msg : Bytes}
    (hp : p s = .lockBusy msg) : sqlite3Step (withStmt c s) (some c.stmts.next) p =
      (SQLITE_BUSY, { withStmt c (activate s) with errMsg := msg }) := by
  simp only [sqlite3Step, Option.bind_some, find?_withStmt, Option.map_some, hp, update_withStmt]
  rfl

theorem step_ran (c : Connection σ) {s : Stmt} {p : Stmt → Progress σ} {r : Ran σ}
    (hw : s.writes = true) (hi : s.active = false) (hp : p s = .ran r) :
    ∃ a d n m, HaltEffect (withStmt c s) (runProgram (withStmt c s) s r) r.toHalt a d ∧
      sqlite3Step (withStmt c s) (some c.stmts.next) p =
        (stepCode a, { d with nChange := n, errMsg := m }) := by
  have hb : { withStmt c s with stmts := c.stmts.add (deactivate s) } = withStmt c s := by
    rw [deactivate, ← hi]
    rfl
  obtain ⟨a, d, k, he, hh⟩ :=
    sqlite3VdbeHalt_effect (withStmt c s) (runProgram (withStmt c s) s r) r.toHalt hw
  obtain ⟨n, hn⟩ := setChanges_eq s.counts k d
  obtain ⟨m, hm⟩ := stepReport_eq { d with nChange := n } a
  refine ⟨a, d, n, m, he, ?_⟩
  simp only [sqlite3Step, Option.bind_some, find?_withStmt, Option.map_some, hp, update_withStmt,
    hb, hh, hn, if_true, hm]

def isBlank (sql : Bytes) : Bool := (tokenize (cStr sql)).all fun t => t.type = .semi

/-- `sqlite3_prepare_v2`: the statement exists exactly when the answer is SQLITE_OK and
the text holds a command. -/
def sqlite3PrepareV2 (c : Connection σ) (sql : Bytes) (writes counts : Bool) (a : Answer) :
    Answer × Option ℕ × Connection σ :=
  if a = none ∧ isBlank sql = false then
    let s : Stmt := ⟨sql, [], writes, counts, false⟩
    (a, some c.stmts.next, { c with stmts := c.stmts.add s }.report a)
  else (a, none, c.report a)

/-- The `sqlite3_bind_*` family; a null statement is a misuse. -/
def sqlite3Bind (c : Connection σ) (stmt : Option ℕ) (i : ℕ) (v : BindCall) (a : Answer) :
    Answer × Connection σ :=
  match stmt, a with
  | none, _ => (some misuse, c)
  | some _, some f => (some f, c.report (some f))
  | some j, none =>
    let bind (s : Stmt) : Stmt := { s with bound := (i, v) :: s.bound }
    (none, { c with stmts := c.stmts.update j bind }.report none)

/-- Finalising an active statement halts it where it is. One that waits for a lock has
SQLITE_BUSY as its code, any other one is in the middle of its rows. -/
def sqlite3Finalize (c : Connection σ) (i : ℕ) (commit : Answer) : Connection σ :=
  match c.stmts.find? i with
  | none => c
  | some s =>
    let d := { c with stmts := c.stmts.remove i }
    if s.active then
      let error : Answer := if s.writes then some (busy (ascii "database is locked")) else none
      (sqlite3VdbeHalt d d s ⟨error, .abort, false, 0, commit, none⟩).2.2
    else d

@[simp] theorem setChanges_stmts (counts : Bool) (n : ℤ) (c : Connection σ) :
    (setChanges counts n c).stmts = c.stmts := by
  cases counts <;> rfl

theorem halt_stmts (before c : Connection σ) (s : Stmt) (h : Halt) :
    (sqlite3VdbeHalt before c s h).2.2.stmts = c.stmts := by
  unfold sqlite3VdbeHalt
  split
  · simp
  · split
    · unfold haltTransaction
      dsimp only
      split
      · split
        · rfl
        · split <;> simp
      · simp
    · unfold haltStatement
      split
      · simp
      · dsimp only
        split
        · rw [setChanges_stmts, endTransaction_stmts]
          split <;> simp
        · rw [setChanges_stmts]
          split <;> simp

theorem halt_nChange (before c : Connection σ) {s : Stmt} (h : Halt) (hs : s.counts = false) :
    (sqlite3VdbeHalt before c s h).2.2.nChange = c.nChange := by
  have hset (n : ℤ) (d : Connection σ) : setChanges s.counts n d = d := by rw [hs]; rfl
  simp only [sqlite3VdbeHalt, haltTransaction, haltStatement, hset]
  split
  · rfl
  · split
    · split
      · split
        · rfl
        · split <;> rfl
      · rfl
    · split
      · rfl
      · split
        · split <;> rfl
        · split <;> rfl

theorem haltStatement_halts (before c : Connection σ) (s : Stmt) (h : Halt) :
    (haltStatement before c s h).2.1 = true := by
  unfold haltStatement
  split
  · rfl
  · dsimp only
    split <;> rfl

/-- A statement that waits for its commit has changed nothing by trying to halt. -/
theorem halt_waits {before c : Connection σ} {s : Stmt} {h : Halt}
    (hw : (sqlite3VdbeHalt before c s h).2.1 = false) :
    (sqlite3VdbeHalt before c s h).2.2 = c := by
  unfold sqlite3VdbeHalt at hw ⊢
  split at hw
  · cases hw
  · next he =>
    rw [if_neg he]
    split at hw
    · next hc =>
      rw [if_pos hc]
      unfold haltTransaction at hw ⊢
      dsimp only at hw ⊢
      split_ifs at hw ⊢
      rfl
    · rw [haltStatement_halts] at hw
      cases hw

theorem sqlite3Finalize_ids (c : Connection σ) (i : ℕ) (commit : Answer) :
    (sqlite3Finalize c i commit).stmts.ids = c.stmts.ids.filter (· ≠ i) := by
  unfold sqlite3Finalize
  split
  · next hn =>
    rw [← Table.ids_remove, Table.ids_remove_of_notMem (Table.find?_eq_none.mp hn)]
  · next s hs =>
    dsimp only
    split
    · rw [halt_stmts, Table.ids_remove]
    · rw [Table.ids_remove]

inductive Remains (σ : Type*) where
  | opened (c : Connection σ)
  | freed (file : σ)

def Remains.file : Remains σ → σ
  | .opened c => c.store.file
  | .freed f => f

def Remains.locked : Remains σ → Bool
  | .opened c => c.store.writing
  | .freed _ => false

def closeBusy : Failure :=
  busy (ascii "unable to close due to unfinalized statements or unfinished backups")

/-- `sqlite3_close`: busy while a statement is prepared, else roll back and free. -/
def sqlite3Close (c : Connection σ) : ResultCode × Remains σ :=
  if c.unfinalised = 0 then (SQLITE_OK, .freed (sqlite3RollbackAll c).store.file)
  else (SQLITE_BUSY, .opened (c.report (some closeBusy)))

end SqliteConnection
