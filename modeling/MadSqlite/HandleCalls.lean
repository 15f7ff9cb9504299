import MadSqlite.MadDatabase
import MadSqlite.Runs

/-! # Calls on one handle

The calls that concern a transaction as the events of a machine, and what one of them
can do to the state it finds. Inserts take a container its class can build, so the
error branch of `insert` is dead. -/
namespace HandleCalls

open CppStrings ContentValues SqliteCommands HandleTable TransactionalStore
open SqliteConnection SqliteConnection.Connection SqliteExec MadDatabase

variable {σ : Type*} (p : Platform) (g : Grammar)

structure InsertCall (σ : Type*) where
  table : Bytes
  values : MadContentValues
  env : InsertEnv σ

def insertValues (h : Impl σ) (c : InsertCall σ) : Bool × Impl σ :=
  match MadDatabase.insert p h c.table c.values.impl c.env with
  | .ok r => r
  | .error _ => (false, h)

theorem insertValues_spec (h : Impl σ) (c : InsertCall σ) :
    MadDatabase.insert p h c.table c.values.impl c.env = .ok (insertValues p h c) := by
  obtain ⟨r, hr, -⟩ := insert_path p h c.table c.values.wellFormed c.env
  simp [insertValues, hr]

theorem insertValues_empty (h : Impl σ) {c : InsertCall σ} (he : isEmpty c.values.impl = true) :
    insertValues p h c = (false, h) := by
  have hs := insertValues_spec p h c
  rw [MadDatabase.insert, if_pos he] at hs
  exact (Except.ok.inj hs).symm

theorem insertValues_path (h : Impl σ) (c : InsertCall σ) :
    InsertPath h c.table c.values.impl c.env (insertValues p h c) := by
  obtain ⟨r, hr, hp⟩ := insert_path p h c.table c.values.wellFormed c.env
  rw [insertValues_spec] at hr
  exact Except.ok.inj hr ▸ hp

def insertNext (h : Impl σ) (c : InsertCall σ) : Impl σ :=
  (insertValues p h c).2

inductive Call (σ : Type*) where
  | begin (env : ExecEnv σ)
  | commit (env : ExecEnv σ)
  | rollback (env : ExecEnv σ)
  | insert (c : InsertCall σ)

def next (h : Impl σ) : Call σ → Impl σ
  | .begin env => beginTransaction g h env
  | .commit env => commitTransaction g h env
  | .rollback env => rollbackTransaction g h env
  | .insert c => insertNext p h c

def oneInteger : MadContentValues := MadContentValues.new.putInteger (ascii "k") 1

/-- An insert of it whose statement compiles, takes the value and goes on like this. -/
def insertOne (progress : Progress σ) : InsertCall σ :=
  ⟨ascii "t", oneInteger, .insertion, fun _ => none, fun _ _ => none, fun _ => progress⟩

def insertRow (n : ℕ) : InsertCall (List ℕ) := insertOne (.ran (.stored (n :: ·)))

/-- The insert makes a statement: there are values and the text compiles. -/
def Prepared (c : InsertCall σ) : Prop :=
  isEmpty c.values.impl = false ∧ insertPrepare c.table c.values.impl c.env = none

instance (c : InsertCall σ) : Decidable (Prepared c) :=
  inferInstanceAs (Decidable (_ ∧ _))

/-- How the program of an insert runs, if the insert gets so far. -/
def insertRan (c : InsertCall σ) : Option (Ran σ) :=
  if Prepared c ∧ BindsSucceed c.values.impl c.env then
    match insertProgress c.table c.values.impl c.env with
    | .ran r => some r
    | _ => none
  else none

def EndsTransaction (c : InsertCall σ) : Prop :=
  (insertRan c).any fun r => r.endsTransaction true

instance (c : InsertCall σ) : Decidable (EndsTransaction c) :=
  inferInstanceAs (Decidable (_ = true))

def LockRefused (c : InsertCall σ) : Prop :=
  Prepared c ∧ BindsSucceed c.values.impl c.env ∧
    (insertProgress c.table c.values.impl c.env).isLockBusy

instance (c : InsertCall σ) : Decidable (LockRefused c) :=
  inferInstanceAs (Decidable (_ ∧ _))

def running (d : Connection σ) (c : InsertCall σ) (r : Ran σ) : Connection σ :=
  runProgram (withStmt d (insertStmt c.table c.values.impl c.env))
    (insertStmt c.table c.values.impl c.env) r

section Fields

variable (d : Connection σ) (c : InsertCall σ) (r : Ran σ)

@[simp] theorem running_store :
    (running d c r).store = d.store.write r.work := rfl
@[simp] theorem running_autoCommit :
    (running d c r).autoCommit = d.autoCommit := rfl
@[simp] theorem running_nDeferredCons :
    (running d c r).nDeferredCons = r.deferred := rfl
@[simp] theorem running_otherWriters :
    (running d c r).otherWriters = d.otherWriters := by
  simp [running, runProgram, withStmt, insertStmt, otherWriters]
@[simp] theorem running_commits :
    commitCode (running d c r) r.commit = none ↔ r.deferred = 0 ∧ r.commit = none := by
  rw [commitCode_eq_none]
  rfl

end Fields

theorem insertRan_some {c : InsertCall σ} {r : Ran σ} : insertRan c = some r ↔
    Prepared c ∧ BindsSucceed c.values.impl c.env ∧
      insertProgress c.table c.values.impl c.env = .ran r := by
  unfold insertRan
  split
  · next h =>
    cases insertProgress c.table c.values.impl c.env <;> simp [h.1, h.2]
  · next h =>
    simp only [reduceCtorEq, false_iff]
    exact fun hr => h ⟨hr.1, hr.2.1⟩

/-- `HaltEffect` of the program of an insert, from the connection the insert finds. -/
inductive RanEffect (d : Connection σ) (c : InsertCall σ) (r : Ran σ) :
    Answer → Connection σ → Prop where
  | committed : d.autoCommit = true → d.otherWriters = 0 → r.Commits →
      RanEffect d c r r.error (commitDone (running d c r))
  | rolledBack {f} : d.autoCommit = true → d.otherWriters = 0 → ¬r.Commits →
      RanEffect d c r (some f) (sqlite3RollbackAll (running d c r))
  | ended {f} : r.endsTransaction true = true →
      (d.autoCommit = true → d.otherWriters = 0 → ¬r.KeepsWork) →
      RanEffect d c r (some f) (endTransaction (running d c r))
  | kept : ¬(d.autoCommit = true ∧ d.otherWriters = 0) → r.endsTransaction true = false →
      r.KeepsWork → RanEffect d c r r.error (running d c r)
  | undone : ¬(d.autoCommit = true ∧ d.otherWriters = 0) → r.endsTransaction true = false →
      ¬r.KeepsWork → RanEffect d c r r.error
        (undoStatement (withStmt d (insertStmt c.table c.values.impl c.env)) (running d c r))

theorem RanEffect.of_halt {d e : Connection σ} {c : InsertCall σ} {r : Ran σ} {a : Answer}
    (he : HaltEffect (withStmt d (insertStmt c.table c.values.impl c.env)) (running d c r)
      r.toHalt a e) : RanEffect d c r a e := by
  have hcom : r.Commits ↔ r.KeepsWork ∧ commitCode (running d c r) r.commit = none := by
    rw [running_commits]
    rfl
  cases he with
  | committed ha ho hk hv => exact .committed ha (by simpa using ho) (hcom.mpr ⟨hk, hv⟩)
  | rolledBack ha ho hn => exact .rolledBack ha (by simpa using ho) (mt hcom.mp hn)
  | ended hends hk => exact .ended hends fun ha ho => hk ha (by simpa using ho)
  | kept hn hends hk => exact .kept (by simpa using hn) hends hk
  | undone hn hends hk => exact .undone (by simpa using hn) hends hk

theorem RanEffect.stmts {d e : Connection σ} {c : InsertCall σ} {r : Ran σ} {a : Answer}
    (he : RanEffect d c r a e) : e.stmts = (running d c r).stmts := by
  cases he <;> rfl

/-- An insert that runs its program does to the connection what the halt does. -/
theorem insert_ran (h : Impl σ) {c : InsertCall σ} {r : Ran σ} (hr : insertRan c = some r) :
    ∃ a d n m, RanEffect h.db c r a d ∧ insertValues p h c =
      (decide (a = none), { h with db := { d with nChange := n, errMsg := m } }) := by
  obtain ⟨⟨he, hp⟩, hb, hs⟩ := insertRan_some.mp hr
  have hpath := insertValues_path p h c
  generalize insertValues p h c = v at hpath ⊢
  cases hpath with
  | empty he' => simp [he] at he'
  | notPrepared _ hp' => simp [hp] at hp'
  | notBound _ _ hb' => exact absurd hb hb'
  | notStarted _ _ _ hs' => simp [hs] at hs'
  | lockBusy _ _ _ hs' => simp [hs] at hs'
  | ran _ _ _ hs' hf =>
    cases hs.symm.trans hs'
    exact ⟨_, _, _, _, .of_halt hf, rfl⟩

/-- Any other insert touches the table of statements only. -/
theorem insert_not_ran (h : Impl σ) {c : InsertCall σ} (hr : insertRan c = none) :
    ∃ b t m, insertValues p h c =
        (b, { h with db := { h.db with stmts := t, errMsg := m } }) ∧
      (b = true ↔ Prepared c ∧ ¬BindsSucceed c.values.impl c.env) ∧
      t.ids = h.db.stmts.ids ++ (if Prepared c then [h.db.stmts.next] else []) ∧
      (t.count fun s => s.active && s.writes) =
        h.db.otherWriters + (if LockRefused c then 1 else 0) := by
  have hpath := insertValues_path p h c
  generalize insertValues p h c = v at hpath ⊢
  cases hpath with
  | empty he =>
    have hp : ¬Prepared c := fun hp => by simp [hp.1] at he
    have hl : ¬LockRefused c := fun hl => hp hl.1
    exact ⟨false, h.db.stmts, h.db.errMsg, rfl, by simp [hp], by simp [hp],
      by simp [hl, otherWriters]⟩
  | @notPrepared f he hf =>
    have hp : ¬Prepared c := fun hp => by simp [hp.2] at hf
    have hl : ¬LockRefused c := fun hl => hp hl.1
    exact ⟨false, h.db.stmts, f.msg, rfl, by simp [hp], by simp [hp],
      by simp [hl, otherWriters]⟩
  | @notBound b f he hp hb =>
    have hl : ¬LockRefused c := fun hl => hb hl.2.1
    exact ⟨true, _, f.msg, rfl, by simp [Prepared, he, hp, hb],
      by simp [Prepared, he, hp, withStmt],
      by simp [hl, otherWriters, withStmt, insertStmt]⟩
  | @notStarted f he hp hb hs =>
    have hl : ¬LockRefused c := fun hl => by
      simp [LockRefused, hs, Progress.isLockBusy] at hl
    exact ⟨false, _, f.msg, rfl, by simp [hb],
      by simp [Prepared, he, hp, withStmt],
      by simp [hl, otherWriters, withStmt, insertStmt]⟩
  | @lockBusy msg he hp hb hs =>
    have hl : LockRefused c := ⟨⟨he, hp⟩, hb, by rw [hs]; rfl⟩
    exact ⟨false, _, msg, rfl, by simp [hb],
      by simp [Prepared, he, hp, withStmt],
      by simp [hl, otherWriters, withStmt, insertStmt, activate]⟩
  | ran he hp hb hs => exact absurd (insertRan_some.mpr ⟨⟨he, hp⟩, hb, hs⟩) (by simp [hr])

@[simp] theorem insertNext_flag (h : Impl σ) (c : InsertCall σ) :
    (insertNext p h c).isInTransaction = h.isInTransaction := by
  unfold insertNext
  cases hr : insertRan c with
  | none =>
    obtain ⟨b, t, m, hi, -⟩ := insert_not_ran p h hr
    rw [hi]
  | some r =>
    obtain ⟨a, d, n, m, -, hi⟩ := insert_ran p h hr
    rw [hi]

theorem lockRefused_not_ran {c : InsertCall σ} {r : Ran σ} (hr : insertRan c = some r) :
    ¬LockRefused c := by
  intro hl
  have hs := (insertRan_some.mp hr).2.2
  simp [LockRefused, hs, Progress.isLockBusy] at hl

theorem insertNext_ids (h : Impl σ) (c : InsertCall σ) : (insertNext p h c).db.stmts.ids =
    h.db.stmts.ids ++ if Prepared c then [h.db.stmts.next] else [] := by
  unfold insertNext
  cases hr : insertRan c with
  | none =>
    obtain ⟨b, t, m, hi, -, hu, -⟩ := insert_not_ran p h hr
    rw [hi]
    exact hu
  | some r =>
    obtain ⟨a, d, n, m, he, hi⟩ := insert_ran p h hr
    rw [hi, if_pos (insertRan_some.mp hr).1]
    exact (congrArg Table.ids he.stmts).trans (Table.ids_add _ _)

theorem insertNext_unfinalised (h : Impl σ) (c : InsertCall σ) :
    (insertNext p h c).db.unfinalised = h.db.unfinalised + if Prepared c then 1 else 0 := by
  unfold unfinalised
  rw [Table.size_eq_ids, Table.size_eq_ids, insertNext_ids, List.length_append]
  split <;> rfl

/-- The statement of an insert whose lock was refused stays an active writer. -/
theorem insertNext_otherWriters (h : Impl σ) (c : InsertCall σ) :
    (insertNext p h c).db.otherWriters = h.db.otherWriters + if LockRefused c then 1 else 0 := by
  unfold insertNext
  cases hr : insertRan c with
  | none =>
    obtain ⟨b, t, m, hi, -, -, ho⟩ := insert_not_ran p h hr
    rw [hi]
    exact ho
  | some r =>
    obtain ⟨a, d, n, m, he, hi⟩ := insert_ran p h hr
    rw [hi, if_neg (lockRefused_not_ran hr)]
    exact (congrArg (Table.count _) he.stmts).trans (running_otherWriters h.db c r)

theorem beginTransaction_issued {h : Impl σ} (hf : h.isInTransaction = false)
    (env : ExecEnv σ) : ∃ m, beginTransaction g h env =
      ⟨{ (if BeginTakesEffect h.db env then begun h.db else h.db) with errMsg := m }, true⟩ := by
  obtain ⟨a, m, he⟩ := sqlite3Exec_begin g h.db env
  exact ⟨m, by simp only [beginTransaction, hf, if_true, execInternal, he]⟩

theorem rollbackTransaction_issued {h : Impl σ} (hf : h.isInTransaction = true)
    (env : ExecEnv σ) : ∃ m, rollbackTransaction g h env =
      ⟨{ (if RollbackTakesEffect h.db env then endTransaction h.db else h.db) with errMsg := m },
        false⟩ := by
  obtain ⟨a, m, he⟩ := sqlite3Exec_rollback g h.db env
  exact ⟨m, by simp only [rollbackTransaction, hf, if_true, execInternal, he]⟩

theorem commitTransaction_issued {h : Impl σ} (hf : h.isInTransaction = true)
    (env : ExecEnv σ) : ∃ m, commitTransaction g h env =
      ⟨{ (if CommitTakesEffect h.db env then committed h.db env else h.db) with errMsg := m },
        false⟩ := by
  obtain ⟨a, m, he⟩ := sqlite3Exec_commit g h.db env
  exact ⟨m, by simp only [commitTransaction, hf, if_true, execInternal, he]⟩

/-- What a call of the three does to the connection, whether it issues its text or not. -/
inductive ControlEffect (c : Connection σ) : Connection σ → Prop where
  | same (m : Bytes) : ControlEffect c { c with errMsg := m }
  | begun (m : Bytes) : ControlEffect c { begun c with errMsg := m }
  | rolledBack (m : Bytes) : ControlEffect c { endTransaction c with errMsg := m }
  | committed (env : ExecEnv σ) (m : Bytes) :
      CommitTakesEffect c env → ControlEffect c { committed c env with errMsg := m }

theorem control_effect (h : Impl σ) (c : Call σ) (hc : ∀ i, c ≠ .insert i) :
    ControlEffect h.db (next p g h c).db := by
  cases c with
  | insert i => exact absurd rfl (hc i)
  | begin env =>
    cases hf : h.isInTransaction with
    | true =>
      rw [next, beginTransaction, hf]
      exact .same h.db.errMsg
    | false =>
      obtain ⟨m, hb⟩ := beginTransaction_issued g hf env
      rw [next, hb]
      split
      · exact .begun m
      · exact .same m
  | commit env =>
    cases hf : h.isInTransaction with
    | false =>
      rw [next, commitTransaction, hf]
      exact .same h.db.errMsg
    | true =>
      obtain ⟨m, hb⟩ := commitTransaction_issued g hf env
      rw [next, hb]
      split
      · next ht => exact .committed env m ht
      · exact .same m
  | rollback env =>
    cases hf : h.isInTransaction with
    | false =>
      rw [next, rollbackTransaction, hf]
      exact .same h.db.errMsg
    | true =>
      obtain ⟨m, hb⟩ := rollbackTransaction_issued g hf env
      rw [next, hb]
      split
      · exact .rolledBack m
      · exact .same m

theorem ControlEffect.ids {c d : Connection σ} (he : ControlEffect c d) :
    d.stmts.ids = c.stmts.ids := by
  cases he with
  | same m => rfl
  | begun m => rfl
  | rolledBack m => rfl
  | committed env m ht => exact congrArg Table.ids (committed_stmts c env)

theorem next_ids (h : Impl σ) (c : Call σ) (hc : ∀ i, c = .insert i → ¬Prepared i) :
    (next p g h c).db.stmts.ids = h.db.stmts.ids := by
  cases c with
  | insert i => rw [next, insertNext_ids, if_neg (hc i rfl), List.append_nil]
  | begin env => exact (control_effect p g h _ (by simp)).ids
  | commit env => exact (control_effect p g h _ (by simp)).ids
  | rollback env => exact (control_effect p g h _ (by simp)).ids

end HandleCalls
