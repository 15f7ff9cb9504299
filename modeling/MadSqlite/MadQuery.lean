import MadSqlite.SqliteNumbers

/-! # The cursor

`MadQuery::Impl` holds the statement `query` made, null when there is none. -/
namespace MadQuery

open CppStrings ContentValues SqliteConnection SqliteRows SqliteValues SqliteNumbers

variable {σ ρ : Type*}

structure Impl where
  statement : Option ℕ
  position : ℤ
  stepResult : ResultCode
  deriving DecidableEq

def Impl.new (statement : Option ℕ) : Impl := ⟨statement, -1, -1⟩

def destructor (c : Connection σ) (q : Impl) (commit : Answer) : Connection σ :=
  match q.statement with
  | none => c
  | some i => sqlite3Finalize c i commit

abbrev CURSOR_STEP_UNKNOWN : ResultCode := -1

def isAfterLast (q : Impl) : Bool := CURSOR_STEP_UNKNOWN < q.stepResult ∧ q.stepResult ≠ SQLITE_ROW

def moveToFirst (q : Impl) (v : Vdbe ρ) : Bool × Impl × Vdbe ρ :=
  let (rc, v) := sqlite3Reset q.statement v
  if rc = SQLITE_OK then
    let (stepResult, v) := SqliteRows.sqlite3Step q.statement v
    (stepResult = SQLITE_ROW, { q with stepResult := stepResult, position := 0 }, v)
  else (false, q, v)

def moveToNext (q : Impl) (v : Vdbe ρ) : Bool × Impl × Vdbe ρ :=
  if isAfterLast q = false then
    let (stepResult, v) := SqliteRows.sqlite3Step q.statement v
    -- The second operand is the constant itself, so the condition always holds.
    if stepResult = SQLITE_ROW ∨ SQLITE_DONE ≠ 0 then
      (true, { q with stepResult := stepResult, position := q.position + 1 }, v)
    else (false, { q with stepResult := stepResult }, v)
  else (false, q, v)

/-- A string is made of the pointer alone, so it ends before the first NUL. -/
def getString (lib : ValueLibrary) (q : Impl) (v : Vdbe Row) (columnIndex : ℤ) : Bytes :=
  match sqlite3ValueText lib (columnMem q.statement v columnIndex) with
  | none => []
  | some text => cStr text

def getBlob (lib : ValueLibrary) (q : Impl) (v : Vdbe Row) (columnIndex : ℤ) : Bytes :=
  let column := columnMem q.statement v columnIndex
  let sz := sqlite3ValueBytes lib column
  match sqlite3ValueBlob lib column with
  | none => []
  | some charBuf => charBuf.take sz

/-- None where the cast of a double is undefined. -/
def getInt (q : Impl) (v : Vdbe Row) (columnIndex : ℤ) : Option Int64 :=
  sqlite3VdbeIntValue (columnMem q.statement v columnIndex)

def getReal (lib : NumberLibrary) (q : Impl) (v : Vdbe Row) (columnIndex : ℤ) : Double :=
  sqlite3VdbeRealValue lib (columnMem q.statement v columnIndex)

end MadQuery
