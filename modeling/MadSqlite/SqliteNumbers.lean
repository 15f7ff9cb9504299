import MadSqlite.FloatRounding
import MadSqlite.SqliteAtoi
import MadSqlite.SqliteValues

/-! # Numbers in a row

What becomes of an integer and of a double in a column, and what is read from it:
`applyAffinity`, OP_RealAffinity, `sqlite3VdbeIntValue` and `sqlite3VdbeRealValue`. -/
namespace SqliteNumbers

open CppStrings ContentValues FloatFormat FloatRounding SqliteAtoi SqliteValues

/-- The cast of a NaN is undefined. -/
def doubleToInt64 (r : Double) : Option Int64 :=
  if le r (ofInt SMALLEST_INT64.toInt) then some SMALLEST_INT64
  else if le (ofInt LARGEST_INT64.toInt) r then some LARGEST_INT64
  else (truncate r).map Int64.ofInt

/-- The two conversions of doubles and text: what is printed for a double, and the number
`sqlite3AtoF` finds with whether the text is one. -/
structure NumberLibrary where
  realText : Double → Bytes
  sqlite3AtoF : Bytes → Double × Bool

def sqlite3VdbeIntegerAffinity (r : Double) : SqlValue :=
  match doubleToInt64 r with
  | some ix =>
    if eq r (ofInt ix.toInt) ∧ SMALLEST_INT64 < ix ∧ ix < LARGEST_INT64 then .integer ix
    else .real r
  | none => .real r

variable (lib : NumberLibrary)

def applyNumericAffinity (z : Bytes) (bTryForInt : Bool) : SqlValue :=
  if (lib.sqlite3AtoF z).2 = false then .text z
  else if (sqlite3Atoi64 z).2 = 0 then .integer (sqlite3Atoi64 z).1
  else if bTryForInt then sqlite3VdbeIntegerAffinity (lib.sqlite3AtoF z).1
  else .real (lib.sqlite3AtoF z).1

def numericAffinity : SqlValue → SqlValue
  | .real r => sqlite3VdbeIntegerAffinity r
  | .text z => applyNumericAffinity lib z true
  | v => v

/-- A REAL column keeps integers as integers, and gives doubles. -/
def opRealAffinity : SqlValue → SqlValue
  | .integer v => .real (ofInt v.toInt)
  | v => v

def NumberLibrary.values : ValueLibrary where
  realText := lib.realText
  numericAffinity affinity v :=
    if affinity = .real then opRealAffinity (numericAffinity lib v) else numericAffinity lib v

def sqlite3VdbeIntValue : SqlValue → Option Int64
  | .integer v => some v
  | .real r => doubleToInt64 r
  | .text z | .blob z => some (sqlite3Atoi64 z).1
  | .null => some 0

def sqlite3VdbeRealValue : SqlValue → Double
  | .real r => r
  | .integer v => ofInt v.toInt
  | .text z | .blob z => (lib.sqlite3AtoF z).1
  | .null => 0

/-- The integers that are the value of a double. -/
def Representable (v : Int64) : Prop := rounded v.toInt.natAbs = v.toInt.natAbs

instance (v : Int64) : Decidable (Representable v) := inferInstanceAs (Decidable (_ = _))

theorem natAbs_lt (v : Int64) : v.toInt.natAbs < 2 ^ 64 := by
  have hl := v.le_toInt
  have hu := v.toInt_lt
  omega

theorem roundedInt_eq_iff (v : ℤ) : roundedInt v = v ↔ rounded v.natAbs = v.natAbs := by
  unfold roundedInt
  split <;> omega

theorem doubleToInt64_ofInt (v : Int64) : doubleToInt64 (ofInt v.toInt) =
    if roundedInt v.toInt ≤ -2 ^ 63 then some SMALLEST_INT64
    else if 2 ^ 63 ≤ roundedInt v.toInt then some LARGEST_INT64
    else some (Int64.ofInt (roundedInt v.toInt)) := by
  have hmin : roundedInt SMALLEST_INT64.toInt = -2 ^ 63 := by decide
  have hmax : roundedInt LARGEST_INT64.toInt = 2 ^ 63 := by decide
  have hle := le_ofInt (natAbs_lt v) (natAbs_lt SMALLEST_INT64)
  have hge := le_ofInt (natAbs_lt LARGEST_INT64) (natAbs_lt v)
  rw [hmin] at hle
  rw [hmax] at hge
  rw [doubleToInt64, truncate_ofInt (natAbs_lt v), Option.map_some]
  simp only [hle, hge]

/-- An integer that went through a double is the same when no bit of it was lost. The largest
one loses bits and is the largest again. -/
theorem doubleToInt64_ofInt_iff (v : Int64) :
    doubleToInt64 (ofInt v.toInt) = some v ↔ Representable v ∨ v = LARGEST_INT64 := by
  have hl := v.le_toInt
  have hu := v.toInt_lt
  have heq (w : Int64) : w = v ↔ w.toInt = v.toInt := Int64.toInt_inj.symm
  have hmin : SMALLEST_INT64.toInt = -2 ^ 63 := rfl
  have hmax : LARGEST_INT64.toInt = 2 ^ 63 - 1 := rfl
  have hsmallest : v.toInt = -2 ^ 63 → roundedInt v.toInt = -2 ^ 63 := fun h => by
    rw [h]
    decide
  have hlargest : v.toInt = 2 ^ 63 - 1 → roundedInt v.toInt = 2 ^ 63 := fun h => by
    rw [h]
    decide
  rw [doubleToInt64_ofInt, Representable, ← roundedInt_eq_iff, ← Int64.toInt_inj, hmax]
  split
  · rw [Option.some.injEq, heq, hmin]
    omega
  · split
    · rw [Option.some.injEq, heq, hmax]
      omega
    · rw [Option.some.injEq, heq, Int64.toInt_ofInt_of_le (by omega) (by omega)]
      omega

theorem integerAffinity_negativeZero : sqlite3VdbeIntegerAffinity negativeZero = .integer 0 := by
  decide +kernel

/-- A double that becomes an integer and is read again has lost nothing but the sign of zero. -/
theorem realValue_integerAffinity (r : Double) :
    sqlite3VdbeRealValue lib (sqlite3VdbeIntegerAffinity r) = r ↔ r ≠ negativeZero := by
  by_cases hz : r = negativeZero
  · rw [hz, integerAffinity_negativeZero]
    have hzero : ofInt (Int64.toInt 0) ≠ negativeZero := by decide
    exact iff_of_false hzero fun h => h rfl
  refine iff_of_true ?_ hz
  unfold sqlite3VdbeIntegerAffinity
  split
  · next ix hix =>
    split
    · next hc =>
      have heq : scaled r = scaled (ofInt ix.toInt) := by
        have he := hc.1
        simp only [eq, Bool.and_eq_true, decide_eq_true_eq] at he
        exact he.2
      by_cases h0 : scaled r = 0
      · obtain rfl := (scaled_eq_zero h0).resolve_right hz
        have hzero : doubleToInt64 0 = some 0 := by decide +kernel
        obtain rfl := Option.some.inj (hzero.symm.trans hix)
        rfl
      · exact (scaled_inj heq h0).symm
    · rfl
  · rfl

@[simp] theorem realValue_opRealAffinity (v : SqlValue) :
    sqlite3VdbeRealValue lib (opRealAffinity v) = sqlite3VdbeRealValue lib v := by
  cases v <;> rfl

/-- An integer in a column of any affinity. -/
theorem intValue_column (affinity : Affinity) (v : Int64) :
    sqlite3VdbeIntValue (applyAffinity lib.values affinity (.integer v)) = some v ↔
      (affinity = .real → Representable v ∨ v = LARGEST_INT64) := by
  cases affinity with
  | blob | numeric | integer => exact iff_of_true rfl nofun
  | text => exact iff_of_true (congrArg (fun q : Int64 × ℕ => some q.1) (atoi_integerText v)) nofun
  | real =>
    exact (doubleToInt64_ofInt_iff v).trans ⟨fun h _ => h, fun h => h rfl⟩

/-- A double in a column that does not turn it into text. -/
theorem realValue_column (limit : LengthLimit) {affinity : Affinity} (ha : affinity ≠ .text)
    (r : Double) : sqlite3VdbeRealValue lib (applyAffinity lib.values affinity
        ((bindValue limit (.double r)).getD .null)) = r ↔
      sqlite3IsNaN r = false ∧ (affinity = .blob ∨ r ≠ negativeZero) := by
  rw [bindValue, Option.getD_some]
  cases hn : sqlite3IsNaN r with
  | true =>
    have hr : r ≠ 0 := by
      rintro rfl
      exact absurd hn (by decide)
    have hnull : applyAffinity lib.values affinity .null = .null := by
      cases affinity <;> rfl
    rw [if_pos rfl, hnull]
    exact iff_of_false (fun h => hr h.symm) fun h => Bool.noConfusion h.1
  | false =>
    rw [if_neg Bool.false_ne_true, and_iff_right rfl]
    cases affinity with
    | text => exact absurd rfl ha
    | blob => exact iff_of_true rfl (.inl rfl)
    | numeric | integer =>
      rw [or_iff_right (by decide)]
      exact realValue_integerAffinity lib r
    | real =>
      rw [or_iff_right (by decide), ← realValue_integerAffinity lib r]
      exact Eq.congr_left (realValue_opRealAffinity lib _)

end SqliteNumbers
