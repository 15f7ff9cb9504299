import MadSqlite.SqliteRows

/-! # The values of a row

What the bind functions make of their arguments and what the column functions make of a
stored value: `sqlite3VdbeMemSetStr`, `sqlite3_value_text`, `sqlite3_value_blob` and
`sqlite3_value_bytes`, in a database whose encoding is UTF-8. -/
namespace SqliteValues

open CppStrings ContentValues SqliteConnection SqliteRows

abbrev SQLITE_MAX_LENGTH : ℕ := 1000000000

/-- SQLITE_LIMIT_LENGTH of a connection. -/
structure LengthLimit where
  iLimit : ℕ
  le_max : iLimit ≤ SQLITE_MAX_LENGTH

def defaultLimit : LengthLimit := ⟨SQLITE_MAX_LENGTH, le_rfl⟩

theorem LengthLimit.lt (limit : LengthLimit) : limit.iLimit < 2 ^ 31 :=
  limit.le_max.trans_lt (by decide)

inductive SqlValue where
  | null
  | integer (v : Int64)
  | real (v : Double)
  | text (z : Bytes)
  | blob (z : Bytes)
  deriving DecidableEq

inductive Encoding where
  | utf8 | none
  deriving DecidableEq, Repr

/-- The length is masked, so a text of a gigabyte and more is taken for a shorter one. -/
def sqlite3Strlen30 (z : Bytes) : ℕ := (cStr z).length % 2 ^ 30

/-- The loop for a blob whose length is negative, which looks for a pair of NULs. -/
def pairLength : Bytes → ℕ
  | a :: b :: z => if a = 0 ∧ b = 0 then 0 else pairLength z + 2
  | z => z.length

def nByte (enc : Encoding) (z : Bytes) (n : Int32) : ℕ :=
  if 0 ≤ n.toInt then n.toInt.toNat
  else
    match enc with
    | .utf8 => sqlite3Strlen30 z
    | .none => pairLength z

/-- None is SQLITE_TOOBIG. -/
def sqlite3VdbeMemSetStr (limit : LengthLimit) (enc : Encoding) (z : Bytes) (n : Int32) :
    Option Bytes :=
  if limit.iLimit < nByte enc z n then none else some (z.take (nByte enc z n))

def sqlite3IsNaN (v : Double) : Bool :=
  v &&& 0x7FF0000000000000 = 0x7FF0000000000000 ∧ v &&& 0x000FFFFFFFFFFFFF ≠ 0

/-- The value a parameter has after a bind call, none when the call is refused for the
length of the value. -/
def bindValue (limit : LengthLimit) : BindCall → Option SqlValue
  | .int64 v => some (.integer v)
  | .double v => some (if sqlite3IsNaN v then .null else .real v)
  | .text z n => (sqlite3VdbeMemSetStr limit .utf8 z n).map .text
  | .blob none _ => some .null
  | .blob (some z) n => (sqlite3VdbeMemSetStr limit .none z n).map .blob

/-- A bind call that is accepted is within the limit. -/
def WithinLimit (limit : LengthLimit) (bind : ℕ → BindCall → Answer) : Prop :=
  ∀ i v, bind i v = none → bindValue limit v ≠ none

/-- The same answers, with the values over the limit refused. -/
def limited (limit : LengthLimit) (bind : ℕ → BindCall → Answer) : ℕ → BindCall → Answer :=
  fun i v => if bindValue limit v = none then some stringTooBig else bind i v

theorem limited_within (limit : LengthLimit) (bind : ℕ → BindCall → Answer) :
    WithinLimit limit (limited limit bind) := by
  intro i v ha hn
  simp [limited, hn] at ha

inductive Affinity where
  | blob | text | numeric | integer | real
  deriving DecidableEq, Repr

/-- The conversions between numbers and text that SQLite makes of stored values. -/
structure ValueLibrary where
  realText : Double → Bytes
  numericAffinity : Affinity → SqlValue → SqlValue

def applyAffinity (lib : ValueLibrary) : Affinity → SqlValue → SqlValue
  | .blob, v => v
  | .text, .integer v => .text (integerText v.toInt)
  | .text, .real v => .text (lib.realText v)
  | .text, v => v
  | affinity, v => lib.numericAffinity affinity v

/-- The text behind the pointer, with the NUL that SQLite puts after it left out. -/
def sqlite3ValueText (lib : ValueLibrary) : SqlValue → Option Bytes
  | .null => none
  | .integer v => some (integerText v.toInt)
  | .real v => some (lib.realText v)
  | .text z | .blob z => some z

def sqlite3ValueBlob (lib : ValueLibrary) : SqlValue → Option Bytes
  | .text z | .blob z => if z = [] then none else some z
  | v => sqlite3ValueText lib v

def sqlite3ValueBytes (lib : ValueLibrary) (v : SqlValue) : ℕ :=
  ((sqlite3ValueText lib v).map List.length).getD 0

abbrev Row := List SqlValue

/-- A column that is not there, or no row at all, reads as NULL. -/
def columnMem (stmt : Option ℕ) (v : Vdbe Row) (i : ℤ) : SqlValue :=
  match currentRow stmt v with
  | none => .null
  | some row => if 0 ≤ i then row[i.toNat]?.getD .null else .null

theorem columnMem_eq {stmt : Option ℕ} {v : Vdbe Row} {row : Row}
    (h : currentRow stmt v = some row) (i : ℕ) : columnMem stmt v i = row[i]?.getD .null := by
  simp [columnMem, h]

/-- The cursor is on a row with this value in this column. -/
def Selects (stmt : Option ℕ) (v : Vdbe Row) (i : ℕ) (value : SqlValue) : Prop :=
  ∃ row, currentRow stmt v = some row ∧ row[i]? = some value

theorem Selects.columnMem {stmt : Option ℕ} {v : Vdbe Row} {i : ℕ} {value : SqlValue}
    (h : Selects stmt v i value) : columnMem stmt v i = value := by
  obtain ⟨row, hr, hi⟩ := h
  rw [columnMem_eq hr, hi, Option.getD_some]

theorem exists_selects (value : SqlValue) :
    ∃ (stmt : Option ℕ) (v : Vdbe Row), Selects stmt v 0 value :=
  ⟨some 0, ⟨fun _ => .completed [], 1, .row (.completed [[value]]) 0, []⟩, [value], rfl, rfl⟩

theorem setStr_of_nonneg {n : Int32} (hn : 0 ≤ n.toInt) (limit : LengthLimit) (enc : Encoding)
    (z : Bytes) : sqlite3VdbeMemSetStr limit enc z n =
      if limit.iLimit < n.toInt.toNat then none else some (z.take n.toInt.toNat) := by
  simp only [sqlite3VdbeMemSetStr, nByte, if_pos hn]

/-- What is stored is no longer than the limit allows. -/
theorem setStr_length {limit : LengthLimit} {enc : Encoding} {z y : Bytes} {n : Int32}
    (h : sqlite3VdbeMemSetStr limit enc z n = some y) : y.length ≤ limit.iLimit := by
  unfold sqlite3VdbeMemSetStr at h
  split at h
  · cases h
  · next hl =>
    cases h
    exact (List.length_take_le _ _).trans (not_lt.mp hl)

end SqliteValues
