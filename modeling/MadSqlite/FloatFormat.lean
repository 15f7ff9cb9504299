import Mathlib.Data.Nat.Log
import Mathlib.Tactic.Ring

/-! # Binary floating-point formats

The fields of a bit pattern and the number they stand for, counted in units of the smallest
subnormal one. Two conversions need no rounding: to the wider format, and the cast that cuts
off the fraction. -/
namespace FloatFormat

structure Format where
  exponentBits : ℕ
  fractionBits : ℕ

def binary32 : Format := ⟨8, 23⟩
def binary64 : Format := ⟨11, 52⟩

namespace Format

variable (F : Format)

def fraction (n : ℕ) : ℕ := n % 2 ^ F.fractionBits
def exponent (n : ℕ) : ℕ := n / 2 ^ F.fractionBits % 2 ^ F.exponentBits
def negative (n : ℕ) : Bool := n / 2 ^ F.fractionBits / 2 ^ F.exponentBits % 2 = 1

/-- Infinities and NaNs have the highest exponent. -/
def isFinite (n : ℕ) : Bool := F.exponent n ≠ 2 ^ F.exponentBits - 1

def magnitude (n : ℕ) : ℕ :=
  if F.exponent n = 0 then F.fraction n
  else (2 ^ F.fractionBits + F.fraction n) * 2 ^ (F.exponent n - 1)

def pack (negative : Bool) (exponent fraction : ℕ) : ℕ :=
  (negative.toNat * 2 ^ F.exponentBits + exponent) * 2 ^ F.fractionBits + fraction

theorem fraction_lt (n : ℕ) : F.fraction n < 2 ^ F.fractionBits :=
  Nat.mod_lt _ (Nat.two_pow_pos _)

theorem exponent_lt (n : ℕ) : F.exponent n < 2 ^ F.exponentBits :=
  Nat.mod_lt _ (Nat.two_pow_pos _)

variable {F} {s : Bool} {e m : ℕ}

theorem pack_fraction (hm : m < 2 ^ F.fractionBits) : F.fraction (F.pack s e m) = m :=
  Nat.mul_add_mod_of_lt hm

theorem pack_div (hm : m < 2 ^ F.fractionBits) :
    F.pack s e m / 2 ^ F.fractionBits = s.toNat * 2 ^ F.exponentBits + e := by
  rw [pack, Nat.mul_comm, Nat.mul_add_div (Nat.two_pow_pos _), Nat.div_eq_of_lt hm, Nat.add_zero]

theorem pack_exponent (he : e < 2 ^ F.exponentBits) (hm : m < 2 ^ F.fractionBits) :
    F.exponent (F.pack s e m) = e := by
  rw [exponent, pack_div hm, Nat.mul_add_mod_of_lt he]

theorem pack_negative (he : e < 2 ^ F.exponentBits) (hm : m < 2 ^ F.fractionBits) :
    F.negative (F.pack s e m) = s := by
  rw [negative, pack_div hm, Nat.mul_comm, Nat.mul_add_div (Nat.two_pow_pos _),
    Nat.div_eq_of_lt he]
  cases s <;> rfl

theorem pack_lt (he : e < 2 ^ F.exponentBits) (hm : m < 2 ^ F.fractionBits) :
    F.pack s e m < 2 ^ (1 + F.exponentBits + F.fractionBits) := by
  have hs : s.toNat * 2 ^ F.exponentBits + e < 2 ^ (1 + F.exponentBits) := by
    have := Bool.toNat_le s
    rw [Nat.pow_add]
    calc s.toNat * 2 ^ F.exponentBits + e
        ≤ 1 * 2 ^ F.exponentBits + e := by gcongr
      _ < 2 ^ 1 * 2 ^ F.exponentBits := by omega
  rw [Nat.pow_add, pack]
  calc (s.toNat * 2 ^ F.exponentBits + e) * 2 ^ F.fractionBits + m
      < (s.toNat * 2 ^ F.exponentBits + e) * 2 ^ F.fractionBits + 2 ^ F.fractionBits := by omega
    _ = (s.toNat * 2 ^ F.exponentBits + e + 1) * 2 ^ F.fractionBits := by ring
    _ ≤ 2 ^ (1 + F.exponentBits) * 2 ^ F.fractionBits := Nat.mul_le_mul_right _ hs

end Format

open Format

/-- The integer a double is cut off to; infinities and NaNs have none. -/
def truncate (d : UInt64) : Option ℤ :=
  if binary64.isFinite d.toNat then
    let n : ℕ := binary64.magnitude d.toNat / 2 ^ 1074
    some (if binary64.negative d.toNat then -(n : ℤ) else n)
  else none

/-- The exponent and fraction of a float in the wider format. A subnormal float is a normal
double, and a NaN becomes a quiet one. -/
def widenFields (e m : ℕ) : ℕ × ℕ :=
  if e = 255 then (2047, if m = 0 ∨ 2 ^ 22 ≤ m then m * 2 ^ 29 else (2 ^ 22 + m) * 2 ^ 29)
  else if e = 0 then
    if m = 0 then (0, 0) else (m.log2 + 874, (m - 2 ^ m.log2) * 2 ^ (52 - m.log2))
  else (e + 896, m * 2 ^ 29)

/-- The conversion of `float` to `double`. -/
def widen (f : UInt32) : UInt64 :=
  let r := widenFields (binary32.exponent f.toNat) (binary32.fraction f.toNat)
  UInt64.ofNat (binary64.pack (binary32.negative f.toNat) r.1 r.2)

theorem widenFields_lt {e m : ℕ} (he : e < 2 ^ 8) (hm : m < 2 ^ 23) :
    (widenFields e m).1 < 2 ^ 11 ∧ (widenFields e m).2 < 2 ^ 52 := by
  unfold widenFields
  split
  · refine ⟨by norm_num, ?_⟩
    dsimp only
    split <;> omega
  · split
    · split
      · simp
      · next hm0 =>
        have hk : m.log2 < 23 := (Nat.log2_lt hm0).mpr hm
        have hlt : m < 2 ^ (m.log2 + 1) := Nat.lt_log2_self
        have hle : 2 ^ m.log2 ≤ m := Nat.log2_self_le hm0
        refine ⟨by dsimp only; omega, ?_⟩
        dsimp only
        calc (m - 2 ^ m.log2) * 2 ^ (52 - m.log2)
            < 2 ^ m.log2 * 2 ^ (52 - m.log2) := by
              refine Nat.mul_lt_mul_of_pos_right ?_ (Nat.two_pow_pos _)
              rw [Nat.pow_succ] at hlt
              omega
          _ = 2 ^ 52 := by rw [← Nat.pow_add]; congr 1; omega
    · dsimp only
      omega

/-- The number is the same in both formats: the units differ by this factor. -/
theorem widenFields_magnitude {e m : ℕ} (he : e < 255) (hm : m < 2 ^ 23) (s : Bool) :
    binary64.magnitude (binary64.pack s (widenFields e m).1 (widenFields e m).2) =
      (if e = 0 then m else (2 ^ 23 + m) * 2 ^ (e - 1)) * 2 ^ 925 := by
  obtain ⟨he', hm'⟩ := widenFields_lt (he.trans (by norm_num)) hm
  rw [magnitude, pack_exponent he' hm', pack_fraction hm']
  unfold widenFields
  rw [if_neg he.ne]
  by_cases h0 : e = 0
  · rw [if_pos h0, if_pos h0]
    by_cases hm0 : m = 0
    · rw [if_pos hm0, if_pos rfl, hm0, Nat.zero_mul]
    · have hk : m.log2 < 23 := (Nat.log2_lt hm0).mpr hm
      have hle : 2 ^ m.log2 ≤ m := Nat.log2_self_le hm0
      have hfull : 2 ^ 52 + (m - 2 ^ m.log2) * 2 ^ (52 - m.log2) = m * 2 ^ (52 - m.log2) := by
        have hp : 2 ^ m.log2 * 2 ^ (52 - m.log2) = 2 ^ 52 := by
          rw [← Nat.pow_add]
          congr 1
          omega
        rw [← hp, ← Nat.add_mul, Nat.add_sub_cancel' hle]
      rw [if_neg hm0, if_neg (by omega), show binary64.fractionBits = 52 from rfl]
      dsimp only
      rw [hfull, Nat.mul_assoc, ← Nat.pow_add]
      exact congrArg (fun k => m * 2 ^ k) (by omega)
  · rw [if_neg h0, if_neg h0, if_neg (by omega), show binary64.fractionBits = 52 from rfl]
    dsimp only
    have hfull : 2 ^ 52 + m * 2 ^ 29 = (2 ^ 23 + m) * 2 ^ 29 := by ring
    rw [hfull, Nat.mul_assoc, Nat.mul_assoc, ← Nat.pow_add, ← Nat.pow_add,
      show 29 + (e + 896 - 1) = e - 1 + 925 by omega]

theorem widenFields_highest {e m : ℕ} (he : e < 2 ^ 8) (hm : m < 2 ^ 23) :
    (widenFields e m).1 = 2047 ↔ e = 255 := by
  unfold widenFields
  by_cases h255 : e = 255
  · simp [h255]
  · rw [if_neg h255]
    refine iff_of_false ?_ h255
    split
    · split
      · simp
      · next hm0 =>
        have hk : m.log2 < 23 := (Nat.log2_lt hm0).mpr hm
        dsimp only
        omega
    · dsimp only
      omega

theorem widen_toNat (f : UInt32) : (widen f).toNat =
    binary64.pack (binary32.negative f.toNat)
      (widenFields (binary32.exponent f.toNat) (binary32.fraction f.toNat)).1
      (widenFields (binary32.exponent f.toNat) (binary32.fraction f.toNat)).2 := by
  obtain ⟨he, hm⟩ :=
    widenFields_lt (binary32.exponent_lt f.toNat) (binary32.fraction_lt f.toNat)
  exact UInt64.toNat_ofNat_of_lt (pack_lt (F := binary64) he hm)

/-- A float keeps its sign and its value, and what has no value gets none. -/
theorem widen_spec (f : UInt32) :
    binary64.negative (widen f).toNat = binary32.negative f.toNat ∧
      binary64.isFinite (widen f).toNat = binary32.isFinite f.toNat ∧
      (binary32.isFinite f.toNat = true →
        binary64.magnitude (widen f).toNat = binary32.magnitude f.toNat * 2 ^ 925) := by
  have he : binary32.exponent f.toNat < 2 ^ 8 := binary32.exponent_lt f.toNat
  have hm : binary32.fraction f.toNat < 2 ^ 23 := binary32.fraction_lt f.toNat
  obtain ⟨he', hm'⟩ := widenFields_lt he hm
  rw [widen_toNat]
  refine ⟨pack_negative he' hm', ?_, fun hfin => ?_⟩
  · rw [isFinite, isFinite, pack_exponent he' hm', decide_eq_decide]
    exact not_congr (widenFields_highest he hm)
  · have hne : binary32.exponent f.toNat ≠ 255 := of_decide_eq_true hfin
    exact widenFields_magnitude (by omega) hm _

end FloatFormat
