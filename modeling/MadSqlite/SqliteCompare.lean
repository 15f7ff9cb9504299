import MadSqlite.SqliteNumbers
import Mathlib.Data.List.Lex
import Mathlib.Data.Prod.Lex

/-! # Comparing two values

`sqlite3MemCompare` with the collation BINARY, and what OP_Eq and its kin do to the two values
before: the affinity of a column is applied to both. An integer and a double are compared by way
of a `long double`, or where that is no longer than a double, of a cast. -/
namespace SqliteCompare

open CppStrings ContentValues FloatFormat FloatRounding SqliteAtoi SqliteValues SqliteNumbers

/-- The difference of the first two bytes that differ. -/
def memcmp : ℕ → Bytes → Bytes → ℤ
  | n + 1, a :: z1, b :: z2 => if a = b then memcmp n z1 z2 else (a.toNat : ℤ) - b.toNat
  | _, _, _ => 0

def binCollFunc (pKey1 pKey2 : Bytes) : ℤ :=
  let rc := memcmp (min pKey1.length pKey2.length) pKey1 pKey2
  if rc = 0 then (pKey1.length : ℤ) - pKey2.length else rc

def sqlite3BlobCompare (pB1 pB2 : Bytes) : ℤ :=
  let c := memcmp (min pB1.length pB2.length) pB1 pB2
  if c ≠ 0 then c else (pB1.length : ℤ) - pB2.length

/-- Whether `long double` has more than eight bytes, and the cast of a double to a 64-bit integer,
which the language leaves open out of range. -/
structure Machine where
  wide : Bool
  cast : Double → Int64
  inRange : ∀ r n, truncate r = some n → -2 ^ 63 ≤ n → n < 2 ^ 63 → cast r = Int64.ofInt n

/-- What the source counts on where it has no wide `long double`: out of range at 2 ^ 63, the cast
gives the smallest integer. -/
def Machine.Exact (mach : Machine) : Prop :=
  mach.wide = true ∨ mach.cast (ofInt (2 ^ 63)) = SMALLEST_INT64

variable (mach : Machine)

/-- Every integer of 64 bits and every double is a wide `long double`. -/
def compareWide (i : Int64) (r : Double) : ℤ :=
  if isNaN r then 0
  else if i.toInt * 2 ^ 1074 < scaled r then -1
  else if scaled r < i.toInt * 2 ^ 1074 then 1
  else 0

/-- What is left when the double is in range and has been cast to `y`. -/
def compareCast (y i : Int64) (r : Double) : ℤ :=
  if i < y then -1
  else if y < i then if y = SMALLEST_INT64 ∧ lt 0 r then -1 else 1
  else
    let s := ofInt i.toInt
    if lt s r then -1
    else if lt r s then 1
    else 0

/-- The larger one of the two bounds has no double, and the next one is taken for it. -/
def compareNarrow (i : Int64) (r : Double) : ℤ :=
  if lt r (ofInt (-2 ^ 63)) then 1
  else if lt (ofInt (2 ^ 63)) r then -1
  else compareCast (mach.cast r) i r

def sqlite3IntFloatCompare (i : Int64) (r : Double) : ℤ :=
  if mach.wide then compareWide i r else compareNarrow mach i r

def sqlite3MemCompare : SqlValue → SqlValue → ℤ
  | .null, .null => 0
  | .null, _ => -1
  | _, .null => 1
  | .integer i1, .integer i2 => if i1 < i2 then -1 else if i2 < i1 then 1 else 0
  | .real r1, .real r2 => if lt r1 r2 then -1 else if lt r2 r1 then 1 else 0
  | .integer i, .real r => sqlite3IntFloatCompare mach i r
  | .real r, .integer i => -sqlite3IntFloatCompare mach i r
  | .integer _, _ | .real _, _ => -1
  | _, .integer _ | _, .real _ => 1
  | .blob _, .text _ => 1
  | .text _, .blob _ => -1
  | .text z1, .text z2 => binCollFunc z1 z2
  | .blob z1, .blob z2 => sqlite3BlobCompare z1 z2

def sqlite3IsNumericAffinity : Affinity → Bool
  | .numeric | .integer | .real => true
  | .blob | .text => false

/-- None where an operand is not a column. -/
def sqlite3CompareAffinity : Option Affinity → Option Affinity → Affinity
  | some aff1, some aff2 =>
    if sqlite3IsNumericAffinity aff1 || sqlite3IsNumericAffinity aff2 then .numeric else .blob
  | some aff, none | none, some aff => aff
  | none, none => .blob

variable (lib : NumberLibrary)

/-- What the opcodes do to an operand. -/
def compared : Affinity → SqlValue → SqlValue
  | .text, .integer v => .text (integerText v.toInt)
  | .text, .real v => .text (lib.realText v)
  | .numeric, .text z | .integer, .text z | .real, .text z => applyNumericAffinity lib z false
  | _, v => v

/-- OP_Eq, OP_Ne and the others before they look at their opcode; none with a NULL. -/
def opCompare (affinity : Affinity) (pIn3 pIn1 : SqlValue) : Option ℤ :=
  if pIn1 = .null ∨ pIn3 = .null then none
  else
    match sqlite3IsNumericAffinity affinity, compared lib affinity pIn3,
      compared lib affinity pIn1 with
    | true, .integer i3, .integer i1 => some (if i1 < i3 then 1 else if i3 < i1 then -1 else 0)
    | _, v3, v1 => some (sqlite3MemCompare mach v3 v1)

/-- `column = ?` of a WHERE, which is an OP_Ne that jumps over the row, for a NULL as well. -/
def whereEqual (affinity : Affinity) (column parameter : SqlValue) : Bool :=
  opCompare mach lib (sqlite3CompareAffinity none (some affinity)) column parameter = some 0

/-- All infinities and NaNs have a larger exponent. -/
theorem isFinite_of_bounded {r : Double} (hl : -2 ^ 63 * 2 ^ 1074 ≤ scaled r)
    (hu : scaled r ≤ 2 ^ 63 * 2 ^ 1074) : Format.isFinite binary64 r.toNat = true := by
  by_contra hf
  have hexponent : Format.exponent binary64 r.toNat = 2 ^ binary64.exponentBits - 1 := by
    simpa only [Format.isFinite, decide_eq_true_eq, not_not] using hf
  have hlt : Format.magnitude binary64 (ofInt (2 ^ 63)).toNat < Format.magnitude binary64 r.toNat :=
    magnitude_lt (hexponent ▸ by decide)
  have hrounded : rounded (Int.natAbs (2 ^ 63)) = 2 ^ 63 := by decide
  rw [(ofInt_spec (by decide)).2.2.trans (congrArg (· * 2 ^ 1074) hrounded)] at hlt
  have hcast : (2 ^ 63 * 2 ^ 1074 : ℤ) < Format.magnitude binary64 r.toNat := by exact_mod_cast hlt
  generalize (2 : ℤ) ^ 1074 = u at hl hu hcast
  unfold scaled at hl hu
  split at hl
  · next hs =>
    rw [if_pos hs] at hu
    linarith only [hcast, hl]
  · next hs =>
    rw [if_neg hs] at hu
    linarith only [hcast, hu]

/-- A double that is not out of the range of the cast, or is at its end. -/
theorem truncate_of_bounded {r : Double} (hl : -2 ^ 63 * 2 ^ 1074 ≤ scaled r)
    (hu : scaled r ≤ 2 ^ 63 * 2 ^ 1074) : ∃ n, truncate r = some n ∧ -2 ^ 63 ≤ n ∧ n ≤ 2 ^ 63 := by
  have hpos : (0 : ℤ) ≤ 2 ^ 1074 := pow_nonneg (by decide) _
  obtain ⟨n, ht⟩ : ∃ n, truncate r = some n := by
    rw [truncate, if_pos (isFinite_of_bounded hl hu)]
    exact ⟨_, rfl⟩
  obtain ⟨-, -, hlt, hgt⟩ := truncate_spec ht
  have hlow := lt_of_mul_lt_mul_right (hl.trans_lt hgt) hpos
  have hhigh := lt_of_mul_lt_mul_right (hlt.trans_le hu) hpos
  exact ⟨n, ht, by omega, by omega⟩

theorem lt_iff {a b : Double} (ha : isNaN a = false) (hb : isNaN b = false) :
    lt a b = true ↔ scaled a < scaled b := by
  simp [lt, ha, hb]

/-- The result of a comparison of these two. -/
structure Compares {α : Type*} [LT α] (c : ℤ) (a b : α) : Prop where
  less : c < 0 ↔ a < b
  greater : 0 < c ↔ b < a

namespace Compares

variable {α β : Type*} [LinearOrder α] [LinearOrder β] {c : ℤ} {a b : α}

theorem of_lt (h : a < b) : Compares (-1) a b :=
  ⟨by simp [h], by simp [h.le]⟩

theorem of_gt (h : b < a) : Compares 1 a b :=
  ⟨by simp [h.le], by simp [h]⟩

theorem of_if {less greater : Prop} [Decidable less] [Decidable greater]
    (hl : less ↔ a < b) (hg : greater ↔ b < a) :
    Compares (if less then -1 else if greater then 1 else 0) a b := by
  split
  · next h => exact .of_lt (hl.mp h)
  · next h =>
    split
    · next h' => exact .of_gt (hg.mp h')
    · next h' => exact ⟨by simp [(not_congr hl).mp h], by simp [(not_congr hg).mp h']⟩

theorem neg (h : Compares c a b) : Compares (-c) b a :=
  ⟨neg_lt_zero.trans h.greater, neg_pos.trans h.less⟩

theorem eq_zero (h : Compares c a b) : c = 0 ↔ a = b := by
  have hl := h.less
  have hg := h.greater
  constructor
  · intro h0
    exact le_antisymm (not_lt.mp fun hb => by have := hg.mpr hb; omega)
      (not_lt.mp fun ha => by have := hl.mpr ha; omega)
  · rintro rfl
    rw [iff_false_right (lt_irrefl a)] at hl hg
    omega

theorem fst (h : Compares c a b) (l : β) : Compares c (toLex (a, l)) (toLex (b, l)) := by
  constructor
  · rw [h.less, Prod.Lex.toLex_lt_toLex]
    simp
  · rw [h.greater, Prod.Lex.toLex_lt_toLex]
    simp

theorem snd (h : Compares c a b) (n : β) : Compares c (toLex (n, a)) (toLex (n, b)) := by
  constructor
  · rw [h.less, Prod.Lex.toLex_lt_toLex]
    simp
  · rw [h.greater, Prod.Lex.toLex_lt_toLex]
    simp

end Compares

/-- A number and a double that is cut off to it are compared as doubles. -/
theorem compares_truncated (i : Int64) {r : Double} (hn : isNaN r = false)
    (ht : truncate r = some i.toInt) :
    Compares (if lt (ofInt i.toInt) r then -1 else if lt r (ofInt i.toInt) then 1 else 0)
      (i.toInt * 2 ^ 1074) (scaled r) := by
  obtain ⟨hs, hns⟩ := scaled_ofInt (natAbs_lt i)
  rw [(truncate_spec ht).1] at hs
  exact Compares.of_if ((lt_iff hns hn).trans (by rw [hs])) ((lt_iff hn hns).trans (by rw [hs]))

theorem lt_zero_iff {r : Double} (hn : isNaN r = false) : lt 0 r = true ↔ 0 < scaled r :=
  lt_iff (by decide) hn

theorem compareCast_inRange {y : Int64} (i : Int64) {r : Double} (hn : isNaN r = false)
    (ht : truncate r = some y.toInt) :
    Compares (compareCast y i r) (i.toInt * 2 ^ 1074) (scaled r) := by
  have hpos : (0 : ℤ) < 2 ^ 1074 := pow_pos (by decide) _
  obtain ⟨-, hexact, hgt, hlt⟩ := truncate_spec ht
  unfold compareCast
  split
  · next h =>
    have hle : i.toInt ≤ y.toInt - 1 := Int.le_sub_one_of_lt (Int64.lt_iff_toInt_lt.mp h)
    exact .of_lt ((mul_le_mul_of_nonneg_right hle hpos.le).trans_lt hgt)
  · next hge =>
    split
    · next h =>
      have hle : y.toInt + 1 ≤ i.toInt := Int64.lt_iff_toInt_lt.mp h
      have hsmallest : ¬(y = SMALLEST_INT64 ∧ lt 0 r = true) := by
        rintro ⟨rfl, hr⟩
        rw [lt_zero_iff hn, hexact (by decide)] at hr
        exact absurd hr (not_lt.mpr (mul_nonpos_of_nonpos_of_nonneg (by decide) hpos.le))
      rw [if_neg hsmallest]
      exact .of_gt (hlt.trans_le (mul_le_mul_of_nonneg_right hle hpos.le))
    · next hle =>
      obtain rfl : y = i := by
        rw [Int64.lt_iff_toInt_lt] at hge hle
        exact Int64.toInt_inj.mp (by omega)
      exact compares_truncated y hn ht

/-- At 2 ^ 63 the cast gives the smallest integer, and the double is larger than all integers. -/
theorem compareCast_outOfRange (i : Int64) {r : Double} (hn : isNaN r = false)
    (hr : scaled r = 2 ^ 63 * 2 ^ 1074) :
    Compares (compareCast SMALLEST_INT64 i r) (i.toInt * 2 ^ 1074) (scaled r) := by
  have hpos : (0 : ℤ) < 2 ^ 1074 := pow_pos (by decide) _
  have hless : i.toInt * 2 ^ 1074 < scaled r := hr ▸ mul_lt_mul_of_pos_right i.toInt_lt hpos
  have hi := i.le_toInt
  unfold compareCast
  split
  · exact .of_lt hless
  · split
    · rw [if_pos ⟨rfl, (lt_zero_iff hn).mpr (hr ▸ mul_pos (by decide) hpos)⟩]
      exact .of_lt hless
    · next hge hle =>
      obtain rfl : SMALLEST_INT64 = i := by
        rw [Int64.lt_iff_toInt_lt] at hge hle
        exact Int64.toInt_inj.mp (by omega)
      obtain ⟨hs, hns⟩ := scaled_ofInt (natAbs_lt SMALLEST_INT64)
      rw [show roundedInt SMALLEST_INT64.toInt = SMALLEST_INT64.toInt by decide] at hs
      exact Compares.of_if ((lt_iff hns hn).trans (by rw [hs])) ((lt_iff hn hns).trans (by rw [hs]))

theorem compareNarrow_exact (hm : mach.cast (ofInt (2 ^ 63)) = SMALLEST_INT64) (i : Int64)
    {r : Double} (hn : isNaN r = false) : Compares (compareNarrow mach i r) (i.toInt * 2 ^ 1074) (scaled r) := by
  have hpos : (0 : ℤ) < 2 ^ 1074 := pow_pos (by decide) _
  obtain ⟨hmin, hnmin⟩ := scaled_ofInt (v := -2 ^ 63) (by decide)
  obtain ⟨hmax, hnmax⟩ := scaled_ofInt (v := 2 ^ 63) (by decide)
  rw [show roundedInt (-2 ^ 63) = -2 ^ 63 by decide] at hmin
  rw [show roundedInt (2 ^ 63) = 2 ^ 63 by decide] at hmax
  unfold compareNarrow
  split
  · next h =>
    rw [lt_iff hn hnmin, hmin] at h
    exact .of_gt (h.trans_le (mul_le_mul_of_nonneg_right i.le_toInt hpos.le))
  · next hlow =>
    rw [lt_iff hn hnmin, hmin, not_lt] at hlow
    split
    · next h =>
      rw [lt_iff hnmax hn, hmax] at h
      exact .of_lt ((mul_lt_mul_of_pos_right i.toInt_lt hpos).trans h)
    · next hhigh =>
      rw [lt_iff hnmax hn, hmax, not_lt] at hhigh
      obtain ⟨n, ht, hln, hun⟩ := truncate_of_bounded hlow hhigh
      rcases hun.lt_or_eq with hlt | rfl
      · have hy : (Int64.ofInt n).toInt = n := Int64.toInt_ofInt_of_le hln hlt
        rw [mach.inRange r n ht hln hlt]
        exact compareCast_inRange i hn (hy.symm ▸ ht)
      · have hr := (truncate_spec ht).2.1 (by decide)
        have hne : scaled r ≠ 0 := hr ▸ (mul_pos (by decide) hpos).ne'
        rw [scaled_inj (hr.trans hmax.symm) hne, hm]
        exact compareCast_outOfRange i hnmax hmax

/-- Whichever way the two are compared, the result is the one of the two numbers. -/
theorem intFloatCompare_exact (hm : mach.Exact) (i : Int64) {r : Double} (hn : isNaN r = false) :
    Compares (sqlite3IntFloatCompare mach i r) (i.toInt * 2 ^ 1074) (scaled r) := by
  unfold sqlite3IntFloatCompare
  split
  · rw [compareWide, if_neg (by simp [hn])]
    exact Compares.of_if Iff.rfl Iff.rfl
  · next hw => exact compareNarrow_exact mach (hm.resolve_left hw) i hn

/-- With another result of the cast the largest integer is not less than 2 ^ 63. -/
theorem largest_not_less (hm : ¬mach.Exact) :
    ¬sqlite3IntFloatCompare mach LARGEST_INT64 (ofInt (2 ^ 63)) < 0 := by
  obtain ⟨hw, hcast⟩ := not_or.mp hm
  have hlow : lt (ofInt (2 ^ 63)) (ofInt (-2 ^ 63)) = false := by decide +kernel
  have hhigh : lt (ofInt (2 ^ 63)) (ofInt (2 ^ 63)) = false := by decide +kernel
  have hlargest : lt (ofInt LARGEST_INT64.toInt) (ofInt (2 ^ 63)) = false := by decide +kernel
  have hle : ¬LARGEST_INT64 < mach.cast (ofInt (2 ^ 63)) := by
    have hlt := (mach.cast (ofInt (2 ^ 63))).toInt_lt
    have hmax : LARGEST_INT64.toInt = 2 ^ 63 - 1 := by decide
    rw [Int64.lt_iff_toInt_lt]
    omega
  rw [sqlite3IntFloatCompare, if_neg hw, compareNarrow, hlow, hhigh, compareCast, if_neg hle]
  simp only [Bool.false_eq_true, if_false, hcast, false_and, hlargest]
  split
  · exact Int.one_pos.not_gt
  · split
    · exact Int.one_pos.not_gt
    · exact lt_irrefl 0

/-- The first bytes that differ decide, and then the lengths. -/
theorem binCollFunc_cons (a b : UInt8) (z1 z2 : Bytes) : binCollFunc (a :: z1) (b :: z2) =
    if a = b then binCollFunc z1 z2 else (a.toNat : ℤ) - b.toNat := by
  unfold binCollFunc
  rw [List.length_cons, List.length_cons, Nat.succ_min_succ, memcmp]
  split
  · rw [Nat.cast_succ, Nat.cast_succ, add_sub_add_right_eq_sub]
  · next h =>
    have hne : (a.toNat : ℤ) - b.toNat ≠ 0 := fun h0 => h (UInt8.toNat_inj.mp (by omega))
    rw [if_neg hne]

theorem binCollFunc_compares (z1 z2 : Bytes) :
    Compares (binCollFunc z1 z2) (z1.map UInt8.toNat) (z2.map UInt8.toNat) := by
  induction z1 generalizing z2 with
  | nil =>
    cases z2 with
    | nil => exact ⟨by simp [binCollFunc, memcmp], by simp [binCollFunc, memcmp]⟩
    | cons b z2 =>
      have hlt : binCollFunc [] (b :: z2) < 0 := by simp [binCollFunc, memcmp]; omega
      exact ⟨by simp [hlt], by simp [hlt.le]⟩
  | cons a z1 ih =>
    cases z2 with
    | nil =>
      have hgt : 0 < binCollFunc (a :: z1) [] := by simp [binCollFunc, memcmp]
      exact ⟨by simp [hgt.le], by simp [hgt]⟩
    | cons b z2 =>
      rw [binCollFunc_cons, List.map_cons, List.map_cons]
      split
      · next h =>
        subst h
        obtain ⟨hl, hg⟩ := ih z2
        exact ⟨by simp [hl], by simp [hg]⟩
      · next h =>
        have hne : a.toNat ≠ b.toNat := fun hn => h (UInt8.toNat_inj.mp hn)
        exact ⟨by simp [List.cons_lt_cons_iff, hne], by simp [List.cons_lt_cons_iff, hne.symm]⟩

theorem blobCompare_eq (z1 z2 : Bytes) : sqlite3BlobCompare z1 z2 = binCollFunc z1 z2 := by
  unfold sqlite3BlobCompare binCollFunc
  by_cases h : memcmp (min z1.length z2.length) z1 z2 = 0 <;> simp [h]

/-- Where a value has its place among all values: first the kinds, then the numbers as they are
and the bytes one by one. -/
def key : SqlValue → ℕ ×ₗ ℤ ×ₗ List ℕ
  | .null => toLex (0, toLex (0, []))
  | .integer i => toLex (1, toLex (i.toInt * 2 ^ 1074, []))
  | .real r => toLex (1, toLex (scaled r, []))
  | .text z => toLex (2, toLex (0, z.map UInt8.toNat))
  | .blob z => toLex (3, toLex (0, z.map UInt8.toNat))

theorem key_text {y z : Bytes} : key (.text y) = key (.text z) ↔ y = z := by
  simp only [key, toLex_inj, Prod.mk.injEq, true_and]
  exact (List.map_injective_iff.mpr fun _ _ => UInt8.toNat_inj.mp).eq_iff

theorem key_real {r : Double} {w : Int64} :
    key (.real r) = key (.integer w) ↔ scaled r = w.toInt * 2 ^ 1074 := by
  simp only [key, toLex_inj, Prod.mk.injEq, true_and, and_true]

theorem key_integer {v w : Int64} : key (.integer v) = key (.integer w) ↔ v = w := by
  have hpos : (0 : ℤ) < 2 ^ 1074 := pow_pos (by decide) _
  simp only [key, toLex_inj, Prod.mk.injEq, true_and, and_true]
  rw [← Int64.toInt_inj]
  exact ⟨mul_right_cancel₀ hpos.ne', congrArg (· * 2 ^ 1074)⟩

def NotNaN : SqlValue → Prop
  | .real r => isNaN r = false
  | _ => True

theorem key_lt {m n : ℕ} (h : m < n) (a b : ℤ ×ₗ List ℕ) : (toLex (m, a)) < toLex (n, b) :=
  Prod.Lex.toLex_lt_toLex.mpr (.inl h)

/-- An integer and a double. -/
def Mixed : SqlValue → SqlValue → Prop
  | .integer _, .real _ | .real _, .integer _ => True
  | _, _ => False

/-- All values are in one order, and two that are equal in it are the same value or the same
number. -/
theorem memCompare_key {v w : SqlValue} (hm : Mixed v w → mach.Exact) (hv : NotNaN v)
    (hw : NotNaN w) : Compares (sqlite3MemCompare mach v w) (key v) (key w) := by
  cases v with
  | null =>
    cases w with
    | null => exact ⟨by simp [sqlite3MemCompare], by simp [sqlite3MemCompare]⟩
    | _ => exact .of_lt (key_lt (by decide) _ _)
  | integer i =>
    cases w with
    | null => exact .of_gt (key_lt (by decide) _ _)
    | integer j =>
      have hpos : (0 : ℤ) < 2 ^ 1074 := pow_pos (by decide) _
      have hlt (a b : Int64) : a < b ↔ a.toInt * 2 ^ 1074 < b.toInt * 2 ^ 1074 :=
        Int64.lt_iff_toInt_lt.trans (mul_lt_mul_iff_left₀ hpos).symm
      exact ((Compares.of_if (hlt i j) (hlt j i)).fst []).snd 1
    | real r => exact ((intFloatCompare_exact mach (hm trivial) i hw).fst []).snd 1
    | _ => exact .of_lt (key_lt (by decide) _ _)
  | real r =>
    cases w with
    | null => exact .of_gt (key_lt (by decide) _ _)
    | integer i => exact ((intFloatCompare_exact mach (hm trivial) i hv).neg.fst []).snd 1
    | real s => exact ((Compares.of_if (lt_iff hv hw) (lt_iff hw hv)).fst []).snd 1
    | _ => exact .of_lt (key_lt (by decide) _ _)
  | text z =>
    cases w with
    | text z' => exact ((binCollFunc_compares z z').snd 0).snd 2
    | blob z' => exact .of_lt (key_lt (by decide) _ _)
    | _ => exact .of_gt (key_lt (by decide) _ _)
  | blob z =>
    cases w with
    | blob z' =>
      have h := blobCompare_eq z z' ▸ binCollFunc_compares z z'
      exact (h.snd 0).snd 3
    | _ => exact .of_gt (key_lt (by decide) _ _)

theorem largest_key : key (.integer LARGEST_INT64) < key (.real (ofInt (2 ^ 63))) := by
  have hscaled : LARGEST_INT64.toInt * 2 ^ 1074 < scaled (ofInt (2 ^ 63)) := by decide +kernel
  have hkeys := ((Compares.of_lt hscaled).fst ([] : List ℕ)).snd 1
  exact hkeys.less.mp (by decide)

/-- The values that a sort and an index see, with NaN left out, are compared by their places in
one linear order exactly when the machine has a wide `long double` or the cast that the source
counts on. -/
theorem memCompare_key_iff : (∀ v w, NotNaN v → NotNaN w →
    Compares (sqlite3MemCompare mach v w) (key v) (key w)) ↔ mach.Exact := by
  constructor
  · intro hall
    by_contra hm
    have hnan : isNaN (ofInt (2 ^ 63)) = false := by decide
    have hlargest := hall (.integer LARGEST_INT64) (.real (ofInt (2 ^ 63))) trivial hnan
    exact largest_not_less mach hm (hlargest.less.mpr largest_key)
  · exact fun hm v w hv hw => memCompare_key mach (fun _ => hm) hv hw

/-- A `long double` of eight bytes, and a cast that gives the smallest integer out of range. -/
def narrow : Machine where
  wide := false
  cast r := ((truncate r).filter fun n => -2 ^ 63 ≤ n ∧ n < 2 ^ 63).elim SMALLEST_INT64 Int64.ofInt
  inRange r n ht hl hu := by
    have hin : decide (-2 ^ 63 ≤ n ∧ n < 2 ^ 63) = true := decide_eq_true ⟨hl, hu⟩
    rw [ht, Option.filter_some, if_pos hin, Option.elim_some]

theorem narrow_exact : narrow.Exact := .inr (by decide +kernel)

/-- The largest integer is less than the double it is rounded to. -/
theorem largest_less :
    sqlite3MemCompare narrow (.integer LARGEST_INT64) (.real (ofInt (2 ^ 63))) < 0 := by
  have hnan : isNaN (ofInt (2 ^ 63)) = false := by decide
  have hlargest := (memCompare_key_iff narrow).mpr narrow_exact (.integer LARGEST_INT64)
    (.real (ofInt (2 ^ 63))) trivial hnan
  exact hlargest.less.mpr largest_key

/-- Two integers that an opcode compares itself are compared the same. -/
theorem opCompare_eq_zero {affinity : Affinity} {v w : SqlValue} (hv : v ≠ .null)
    (hw : w ≠ .null) : opCompare mach lib affinity v w = some 0 ↔
      sqlite3MemCompare mach (compared lib affinity v) (compared lib affinity w) = 0 := by
  rw [opCompare, if_neg (by simp [hv, hw])]
  generalize compared lib affinity v = v3
  generalize compared lib affinity w = v1
  split
  · next i3 i1 _ =>
    rw [Option.some.injEq, sqlite3MemCompare]
    by_cases he : i1 = i3
    · simp [he]
    · rcases Int64.lt_or_lt_of_ne he with h | h <;> simp [h, Int64.lt_asymm h]
  · exact Option.some_inj

/-- The rows of a search are those whose value has the place of the argument, once the affinity
is applied to both. -/
theorem whereEqual_iff (affinity : Affinity) (column : SqlValue) (z : Bytes) {v w : SqlValue}
    (hnull : column ≠ .null) (hcolumn : compared lib affinity column = v)
    (hz : compared lib affinity (.text z) = w) (hm : Mixed v w → mach.Exact) (hv : NotNaN v)
    (hw : NotNaN w) : whereEqual mach lib affinity column (.text z) = true ↔ key v = key w := by
  have haffinity : sqlite3CompareAffinity none (some affinity) = affinity := rfl
  rw [whereEqual, haffinity, decide_eq_true_iff, opCompare_eq_zero mach lib hnull (by simp),
    hcolumn, hz]
  exact (memCompare_key mach hm hv hw).eq_zero

end SqliteCompare
