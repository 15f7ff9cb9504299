import MadSqlite.SqliteNumbers
import MadSqlite.SqliteTable
import Mathlib.Algebra.Order.BigOperators.Group.List

/-! # The record of a row

OP_MakeRecord puts a row together as a header with a type for each column and the data of the
columns. The limit on the length of a value is the limit on the record, and the header counts. -/
namespace SqliteRecord

open CppStrings SqliteConnection SqliteValues SqliteNumbers SqliteTable

abbrev SQLITE_DEFAULT_FILE_FORMAT : ℕ := 4

def varintLoop : ℕ → ℕ → ℕ → ℕ
  | 0, _, i => i
  | fuel + 1, v, i => if v >>> 7 = 0 then i else varintLoop fuel (v >>> 7) (i + 1)

/-- A value of 64 bits takes ten bytes at most. -/
def sqlite3VarintLen (v : ℕ) : ℕ := varintLoop 9 v 1

abbrev MAX_6BYTE : ℕ := 0x00008000 <<< 32 - 1

/-- The type of a value in the header and the length of its data. -/
def sqlite3VdbeSerialType (file_format : ℕ) : SqlValue → ℕ × ℕ
  | .null => (0, 0)
  | .integer i =>
    let u := (if i < 0 then ~~~i else i).toInt.toNat
    if u ≤ 127 then
      if i &&& 1 = i ∧ 4 ≤ file_format then (8 + u, 0) else (1, 1)
    else if u ≤ 32767 then (2, 2)
    else if u ≤ 8388607 then (3, 3)
    else if u ≤ 2147483647 then (4, 4)
    else if u ≤ MAX_6BYTE then (5, 6)
    else (6, 8)
  | .real _ => (7, 8)
  | .text z => (z.length * 2 + 12 + 1, z.length)
  | .blob z => (z.length * 2 + 12, z.length)

def typeLength (serial_type : ℕ) : ℕ :=
  if serial_type ≤ 127 then 1 else sqlite3VarintLen serial_type

/-- The header with its own length in front. -/
def headerLength (nHdr : ℕ) : ℕ :=
  if nHdr ≤ 126 then nHdr + 1
  else
    let nVarint := sqlite3VarintLen nHdr
    if nVarint < sqlite3VarintLen (nHdr + nVarint) then nHdr + nVarint + 1 else nHdr + nVarint

/-- `nByte` of OP_MakeRecord. -/
def recordLength (file_format : ℕ) (values : List SqlValue) : ℕ :=
  headerLength ((values.map fun v => typeLength (sqlite3VdbeSerialType file_format v).1).sum) +
    (values.map fun v => (sqlite3VdbeSerialType file_format v).2).sum

/-- What the record has for a column: nothing for the row id, which is the key of the row, and
an integer for a whole number of REAL affinity. -/
def recorded (col : Column) (value : Option SqlValue) : SqlValue :=
  if col.isRowid then .null
  else
    match value with
    | none => .null
    | some (.real r) => if col.affinity = .real then sqlite3VdbeIntegerAffinity r else .real r
    | some v => v

def rowLength (columns : List Column) (values : List (Option SqlValue)) : ℕ :=
  recordLength SQLITE_DEFAULT_FILE_FORMAT (List.zipWith recorded columns values)

theorem varintLoop_le (fuel v i : ℕ) : i ≤ varintLoop fuel v i := by
  induction fuel generalizing v i with
  | zero => exact le_rfl
  | succ fuel ih =>
    rw [varintLoop]
    split
    · exact le_rfl
    · exact (Nat.le_succ i).trans (ih _ _)

theorem typeLength_pos (serial_type : ℕ) : 0 < typeLength serial_type := by
  rw [typeLength]
  split
  · exact Nat.one_pos
  · exact varintLoop_le 9 serial_type 1

theorem lt_headerLength (nHdr : ℕ) : nHdr < headerLength nHdr := by
  have hpos : 0 < sqlite3VarintLen nHdr := varintLoop_le 9 nHdr 1
  rw [headerLength]
  split
  · exact Nat.lt_succ_self nHdr
  · dsimp only
    split
    · omega
    · omega

/-- The data of a value and two bytes of the header are in the record. -/
theorem value_lt_record (file_format : ℕ) {values : List SqlValue} {v : SqlValue}
    (hv : v ∈ values) :
    (sqlite3VdbeSerialType file_format v).2 + 2 ≤ recordLength file_format values := by
  have hdata : (sqlite3VdbeSerialType file_format v).2 ≤
      (values.map fun v => (sqlite3VdbeSerialType file_format v).2).sum :=
    List.le_sum_of_mem (List.mem_map_of_mem hv)
  have htype : typeLength (sqlite3VdbeSerialType file_format v).1 ≤
      (values.map fun v => typeLength (sqlite3VdbeSerialType file_format v).1).sum :=
    List.le_sum_of_mem (List.mem_map_of_mem (f := fun v =>
      typeLength (sqlite3VdbeSerialType file_format v).1) hv)
  have hpos := typeLength_pos (sqlite3VdbeSerialType file_format v).1
  have hheader := lt_headerLength
    ((values.map fun v => typeLength (sqlite3VdbeSerialType file_format v).1).sum)
  rw [recordLength]
  omega

end SqliteRecord
