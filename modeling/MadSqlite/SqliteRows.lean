import MadSqlite.SqliteConnection

/-! # A statement that yields rows

What the caller of `sqlite3_step` and `sqlite3_reset` sees of a statement. Each execution
has rows and an end of its own, since the database may change in between. -/
namespace SqliteRows

open CppStrings SqliteConnection

/-- One execution: the rows it yields, and none for SQLITE_DONE or the error after them.
Result codes are not negative. -/
structure Run (ρ : Type*) where
  rows : List ρ
  answer : Answer
  nonneg : 0 ≤ answer.rc

theorem rc_none_nonneg : 0 ≤ Answer.rc none := le_rfl

def Run.completed {ρ : Type*} (rows : List ρ) : Run ρ := ⟨rows, none, rc_none_nonneg⟩

inductive Phase (ρ : Type*) where
  | ready
  | row (run : Run ρ) (i : ℕ)
  | halted (answer : Answer)

/-- `runs` is what the executions yield in turn, `steps` what `sqlite3_step` has answered,
the latest first. -/
structure Vdbe (ρ : Type*) where
  runs : ℕ → Run ρ
  started : ℕ
  phase : Phase ρ
  steps : List ResultCode

variable {ρ : Type*}

def Vdbe.prepared (runs : ℕ → Run ρ) : Vdbe ρ := ⟨runs, 0, .ready, []⟩

def advance (v : Vdbe ρ) (run : Run ρ) (i : ℕ) : ResultCode × Vdbe ρ :=
  if i < run.rows.length then
    (SQLITE_ROW, { v with phase := .row run i, steps := SQLITE_ROW :: v.steps })
  else
    (stepCode run.answer,
      { v with phase := .halted run.answer, steps := stepCode run.answer :: v.steps })

/-- A halted statement is executed again; a null one is a misuse. -/
def sqlite3Step (stmt : Option ℕ) (v : Vdbe ρ) : ResultCode × Vdbe ρ :=
  if stmt = none then (SQLITE_MISUSE, { v with steps := SQLITE_MISUSE :: v.steps })
  else
    match v.phase with
    | .row run i => advance v run (i + 1)
    | _ => advance { v with started := v.started + 1 } (v.runs v.started) 0

/-- The statement goes back to its start in any case; the answer is the error of the step
before, if there was one. -/
def sqlite3Reset (stmt : Option ℕ) (v : Vdbe ρ) : ResultCode × Vdbe ρ :=
  if stmt = none then (SQLITE_OK, v)
  else
    match v.phase with
    | .halted answer => (answer.rc, { v with phase := .ready })
    | _ => (SQLITE_OK, { v with phase := .ready })

/-- The row the `sqlite3_column_*` functions read. -/
def currentRow (stmt : Option ℕ) (v : Vdbe ρ) : Option ρ :=
  match stmt, v.phase with
  | some _, .row run i => run.rows[i]?
  | _, _ => none

theorem Run.stepCode_end (run : Run ρ) :
    0 ≤ stepCode run.answer ∧ stepCode run.answer ≠ SQLITE_ROW := by
  have hn := run.nonneg
  cases ha : run.answer with
  | none => exact ⟨by decide, by decide⟩
  | some f =>
    rw [ha] at hn
    exact ⟨hn, f.failed.2.1⟩

@[simp] theorem advance_runs (v : Vdbe ρ) (run : Run ρ) (i : ℕ) :
    (advance v run i).2.runs = v.runs ∧ (advance v run i).2.started = v.started := by
  unfold advance
  split <;> exact ⟨rfl, rfl⟩

end SqliteRows
