import MadSqlite.MadQuery
import MadSqlite.TableInsert

/-! # Numbers that go in and come out

An integer is bound and read as 64 bits, a double as its bits; what is in between is the
affinity of the column. A NaN is bound as NULL. -/
namespace NumberRoundTrip

open CppStrings ContentValues ContentMap FloatRounding SqliteAtoi SqliteConnection MadDatabase
open MadQuery HandleCalls InsertText SqliteRows SqliteValues SqliteNumbers SqliteBindings
open SqliteTable TableInsert Runs

variable {σ : Type*} {p : Platform} {t : RowTable σ} {limit : LengthLimit} {lib : NumberLibrary}
  {h : MadDatabase.Impl σ}

/-- An insert that stored its row, and a column whose value the key provides. The row id, which
SQLite may choose itself, is not such a column. -/
structure ColumnInsert (p : Platform) (t : RowTable σ) (limit : LengthLimit)
    (lib : NumberLibrary) (h : MadDatabase.Impl σ) where
  table : Bytes
  calls : List ContentMap.Call
  env : InsertEnv σ
  index : ℕ
  column : Column
  key : Bytes
  value : Value
  intoTable : sqlite3StrICmp table t.name = true
  stores : Stores t.toTable limit lib.values h.db.store.view env
  isColumn : t.columns[index]? = some column
  ordinary : column.isRowid = false
  provides : column.keyFor (insertKeys calls env) = some key
  put : (contents calls).lookup key = some value
  clean : NamesClean (insertCall table calls env)
  bound : BindsSucceed (run ContentMap.next .new calls).impl env
  returned : (insertValues p h (insertCall table calls env)).1 = true

namespace ColumnInsert

variable (c : ColumnInsert p t limit lib h)

def call : InsertCall σ := insertCall c.table c.calls c.env

/-- What the column gets. -/
def stored : SqlValue :=
  applyAffinity lib.values c.column.affinity ((bindValue limit (bindCallOf c.value)).getD .null)

/-- There is one row more, and whatever cursor is on its value reads this. -/
def ReadsAs {α : Type} (read : MadQuery.Impl → Vdbe Row → ℤ → α) (a : α) : Prop :=
  ∃ row value, t.rows (insertValues p h c.call).2.db.store.view = row ::ₘ t.rows h.db.store.view ∧
    row[c.index]? = some value ∧
    ∀ (q : MadQuery.Impl) (v : Vdbe Row) (i : ℕ), Selects q.statement v i value → read q v i = a

theorem row_added : ∃ row, t.rows (insertValues p h c.call).2.db.store.view =
    row ::ₘ t.rows h.db.store.view ∧ row[c.index]? = some c.stored := by
  obtain ⟨row, hrows, hvalue⟩ := stored_row p c.stores c.intoTable c.clean c.bound c.returned
    c.isColumn c.ordinary c.provides
  rw [boundValue, c.put, Option.bind_some] at hvalue
  exact ⟨row, hrows, hvalue⟩

theorem readsAs_iff {α : Type} (of : SqlValue → α) {read : MadQuery.Impl → Vdbe Row → ℤ → α}
    (hread : ∀ q v i, read q v i = of (columnMem q.statement v i)) (a : α) :
    c.ReadsAs read a ↔ of c.stored = a := by
  obtain ⟨row, hrows, hvalue⟩ := c.row_added
  constructor
  · rintro ⟨row', value, hrows', hvalue', hall⟩
    obtain rfl : row' = row := (Multiset.cons_inj_left _).mp (hrows'.symm.trans hrows)
    obtain rfl : c.stored = value := Option.some.inj (hvalue.symm.trans hvalue')
    obtain ⟨stmt, v, hs⟩ := exists_selects c.stored
    have hmem : columnMem (Impl.new stmt).statement v (0 : ℕ) = c.stored := hs.columnMem
    rw [← hall (.new stmt) v 0 hs, hread, hmem]
  · rintro rfl
    refine ⟨row, c.stored, hrows, hvalue, fun q v i hs => ?_⟩
    rw [hread, hs.columnMem]

end ColumnInsert

/-- An integer comes back from every column but one of REAL affinity, and from that one when a
double has all of its bits or it is the largest of all. -/
theorem integer_comes_back_iff (c : ColumnInsert p t limit lib h) {v : Int64}
    (hv : c.value = .int v) : c.ReadsAs getInt (some v) ↔
      (c.column.affinity = .real → Representable v ∨ v = LARGEST_INT64) := by
  have hstored : c.stored = applyAffinity lib.values c.column.affinity (.integer v) := by
    rw [ColumnInsert.stored, hv]
    rfl
  have hread := c.readsAs_iff sqlite3VdbeIntValue (fun q v i => (rfl : getInt q v i = _))
  rw [hread, hstored]
  exact intValue_column lib c.column.affinity v

/-- A double comes back from a column that does not turn it into text when it is no NaN, and in
a column that likes integers better not the negative zero. -/
theorem real_comes_back_iff (c : ColumnInsert p t limit lib h) {r : Double}
    (hr : c.value = .real r) (ha : c.column.affinity ≠ .text) : c.ReadsAs (getReal lib) r ↔
      sqlite3IsNaN r = false ∧ (c.column.affinity = .blob ∨ r ≠ negativeZero) := by
  have hstored : c.stored =
      applyAffinity lib.values c.column.affinity ((bindValue limit (.double r)).getD .null) := by
    rw [ColumnInsert.stored, hr]
    rfl
  have hread := c.readsAs_iff (sqlite3VdbeRealValue lib)
    fun q v i => (rfl : getReal lib q v i = _)
  rw [hread, hstored]
  exact realValue_column lib limit ha r

/-- Integers are read as what they are, and other texts are no numbers. -/
def integersOnly : NumberLibrary :=
  ⟨fun _ => [], fun z => (ofInt (sqlite3Atoi64 z).1.toInt, decide ((sqlite3Atoi64 z).2 = 0))⟩

def realColumn : Column := plainColumn (ascii "a") .real

def realTable : RowTable (List Row) := listTable defaultLimit (ascii "t") [realColumn] (by simp)

def serveReal : InsertEnv (List Row) :=
  serve realTable.toTable defaultLimit integersOnly.values (.opened []) .insertion

theorem returns_wholeNumber : (insertValues .noConversion (Impl.opened []) (insertCall (ascii "t")
    [.putInteger (ascii "a") 9007199254740992] serveReal)).1 = true := by
  decide +kernel

/-- 2 ^ 53, the last one before the first integer that is no double. -/
def wholeNumber :
    ColumnInsert .noConversion realTable defaultLimit integersOnly (Impl.opened []) where
  table := ascii "t"
  calls := [.putInteger (ascii "a") 9007199254740992]
  env := serveReal
  index := 0
  column := realColumn
  key := ascii "a"
  value := .int 9007199254740992
  intoTable := by decide
  stores := (serve_serves _ _ _ _ _).stores
  isColumn := rfl
  ordinary := rfl
  provides := by decide
  put := by simp [contents, run, apply]
  clean := by decide
  bound := by decide
  returned := returns_wholeNumber

theorem wholeNumber_back : wholeNumber.ReadsAs getInt (some 9007199254740992) :=
  (integer_comes_back_iff wholeNumber rfl).mpr fun _ => .inl (by decide)

theorem returns_oneAndAHalf : (insertValues .noConversion (Impl.opened []) (insertCall (ascii "t")
    [.putReal (ascii "a") 0x3FF8000000000000] serveReal)).1 = true := by
  decide +kernel

/-- 1.5 -/
def oneAndAHalf :
    ColumnInsert .noConversion realTable defaultLimit integersOnly (Impl.opened []) where
  table := ascii "t"
  calls := [.putReal (ascii "a") 0x3FF8000000000000]
  env := serveReal
  index := 0
  column := realColumn
  key := ascii "a"
  value := .real 0x3FF8000000000000
  intoTable := by decide
  stores := (serve_serves _ _ _ _ _).stores
  isColumn := rfl
  ordinary := rfl
  provides := by decide
  put := by simp [contents, run, apply]
  clean := by decide
  bound := by decide
  returned := returns_oneAndAHalf

theorem oneAndAHalf_back : oneAndAHalf.ReadsAs (getReal integersOnly) 0x3FF8000000000000 :=
  (real_comes_back_iff oneAndAHalf rfl (by decide)).mpr ⟨by decide, .inr (by decide)⟩

end NumberRoundTrip
