import MadSqlite.FloatFormat
import Mathlib.Tactic.Linarith
import Mathlib.Tactic.NormNum

/-! # From integers to doubles

The conversion of an integer to a double, to the nearest one and of two nearest ones to the even
one, and the order of doubles. A number with a single bit more than the fraction holds is still
exact, so an integer that is the value of a double converts to that double. -/
namespace FloatRounding

open FloatFormat FloatFormat.Format

/-- `n / 2 ^ shift`, rounded to the nearest integer and to the even one of two. -/
def roundShift (n shift : ℕ) : ℕ :=
  let q := n / 2 ^ shift
  let r := n % 2 ^ shift
  if 2 ^ shift < 2 * r ∨ (2 * r = 2 ^ shift ∧ q % 2 = 1) then q + 1 else q

/-- The 53 bits of a positive number, the hidden one included; all of them and one more when
rounding carries. -/
def significand (n : ℕ) : ℕ :=
  if n.log2 ≤ 52 then n * 2 ^ (52 - n.log2) else roundShift n (n.log2 - 52)

/-- The pattern without the sign. The hidden bit counts one in the exponent. -/
def natBits (n : ℕ) : ℕ := if n = 0 then 0 else (n.log2 + 1022) * 2 ^ 52 + significand n

def ofInt (v : ℤ) : UInt64 :=
  UInt64.ofNat ((if v < 0 then 2 ^ 63 else 0) + natBits v.natAbs)

/-- The number that `natBits` stands for. -/
def rounded (n : ℕ) : ℕ :=
  if n.log2 ≤ 52 then n else roundShift n (n.log2 - 52) * 2 ^ (n.log2 - 52)

theorem roundShift_le (n shift : ℕ) : n / 2 ^ shift ≤ roundShift n shift ∧
    roundShift n shift ≤ n / 2 ^ shift + 1 := by
  unfold roundShift
  dsimp only
  split <;> omega

theorem roundShift_of_dvd {n shift : ℕ} (h : 2 ^ shift ∣ n) :
    roundShift n shift = n / 2 ^ shift := by
  have hr : n % 2 ^ shift = 0 := Nat.mod_eq_zero_of_dvd h
  have hp := Nat.two_pow_pos shift
  unfold roundShift
  dsimp only
  rw [hr, if_neg (by omega)]

theorem significand_bounds {n : ℕ} (hn : n ≠ 0) :
    2 ^ 52 ≤ significand n ∧ significand n ≤ 2 ^ 53 := by
  have hlow : 2 ^ n.log2 ≤ n := Nat.log2_self_le hn
  have hhigh : n < 2 ^ (n.log2 + 1) := Nat.lt_log2_self
  unfold significand
  split
  · next hk =>
    have hp : 2 ^ n.log2 * 2 ^ (52 - n.log2) = 2 ^ 52 := by
      rw [← Nat.pow_add]
      congr 1
      omega
    constructor
    · calc 2 ^ 52 = 2 ^ n.log2 * 2 ^ (52 - n.log2) := hp.symm
        _ ≤ n * 2 ^ (52 - n.log2) := Nat.mul_le_mul_right _ hlow
    · calc n * 2 ^ (52 - n.log2) ≤ 2 ^ (n.log2 + 1) * 2 ^ (52 - n.log2) :=
            Nat.mul_le_mul_right _ hhigh.le
        _ = 2 * (2 ^ n.log2 * 2 ^ (52 - n.log2)) := by ring
        _ = 2 ^ 53 := by rw [hp]; norm_num
  · next hk =>
    obtain ⟨hl, hu⟩ := roundShift_le n (n.log2 - 52)
    have hp : 2 ^ 52 * 2 ^ (n.log2 - 52) = 2 ^ n.log2 := by
      rw [← Nat.pow_add]
      congr 1
      omega
    have hge : 2 ^ 52 ≤ n / 2 ^ (n.log2 - 52) := by
      rw [Nat.le_div_iff_mul_le (Nat.two_pow_pos _), hp]
      exact hlow
    have hlt : n / 2 ^ (n.log2 - 52) < 2 ^ 53 := by
      rw [Nat.div_lt_iff_lt_mul (Nat.two_pow_pos _)]
      calc n < 2 ^ (n.log2 + 1) := hhigh
        _ = 2 * 2 ^ n.log2 := by ring
        _ = 2 ^ 53 * 2 ^ (n.log2 - 52) := by rw [← hp]; ring
    omega

/-- In units of the smallest subnormal double. -/
theorem significand_mul (n : ℕ) :
    significand n * 2 ^ (n.log2 + 1022) = rounded n * 2 ^ 1074 := by
  unfold significand rounded
  split
  · rw [Nat.mul_assoc, ← Nat.pow_add]
    exact congrArg (fun k => n * 2 ^ k) (by omega)
  · rw [Nat.mul_assoc, ← Nat.pow_add]
    exact congrArg (fun k => roundShift n (n.log2 - 52) * 2 ^ k) (by omega)

theorem rounded_of_dvd {n : ℕ} (h : n.log2 ≤ 52 ∨ 2 ^ (n.log2 - 52) ∣ n) : rounded n = n := by
  unfold rounded
  split
  · rfl
  · next hk =>
    have hd := h.resolve_left hk
    rw [roundShift_of_dvd hd, Nat.div_mul_cancel hd]

/-- Where rounding carries to the next power of two the fraction is zero. -/
theorem natBits_fields {n : ℕ} (hlt : n < 2 ^ 64) : ∃ e m, e < 2047 ∧ m < 2 ^ 52 ∧
    natBits n = e * 2 ^ 52 + m ∧
    (if e = 0 then m else (2 ^ 52 + m) * 2 ^ (e - 1)) = rounded n * 2 ^ 1074 := by
  by_cases hn : n = 0
  · refine ⟨0, 0, by norm_num, by norm_num, by simp [natBits, hn], ?_⟩
    rw [if_pos rfl, rounded_of_dvd (.inl (by simp [hn])), hn, Nat.zero_mul]
  obtain ⟨hl, hu⟩ := significand_bounds hn
  have hk : n.log2 < 64 := (Nat.log2_lt hn).mpr hlt
  rw [natBits, if_neg hn, ← significand_mul n]
  rcases hu.lt_or_eq with hs | hs
  · refine ⟨n.log2 + 1023, significand n - 2 ^ 52, by omega, by omega, by omega, ?_⟩
    rw [if_neg (by omega), Nat.add_sub_cancel' hl]
    rfl
  · have hcarry : ∀ j, (2 ^ 52 + 0) * 2 ^ (j + 1) = 2 ^ 53 * 2 ^ j := fun j => by ring
    refine ⟨n.log2 + 1024, 0, by omega, by norm_num, by omega, ?_⟩
    rw [if_neg (by omega), hs, ← hcarry]
    rfl

/-- The sign, and what is as far from zero as the number the integer is rounded to. -/
theorem ofInt_spec {v : ℤ} (hv : v.natAbs < 2 ^ 64) :
    binary64.negative (ofInt v).toNat = decide (v < 0) ∧
      binary64.isFinite (ofInt v).toNat = true ∧
      binary64.magnitude (ofInt v).toNat = rounded v.natAbs * 2 ^ 1074 := by
  obtain ⟨e, m, he, hm, hbits, hmag⟩ := natBits_fields hv
  have he' : e < 2 ^ binary64.exponentBits := he.trans (by decide)
  have hpack : (ofInt v).toNat = binary64.pack (decide (v < 0)) e m := by
    have hp : (if v < 0 then 2 ^ 63 else 0) + natBits v.natAbs =
        binary64.pack (decide (v < 0)) e m := by
      rw [hbits]
      by_cases h : v < 0 <;> simp only [h, pack, binary64, decide_true, decide_false, if_true,
        if_false, Bool.toNat_true, Bool.toNat_false] <;> omega
    rw [ofInt, hp]
    exact UInt64.toNat_ofNat_of_lt (pack_lt (F := binary64) he' hm)
  rw [hpack]
  refine ⟨pack_negative he' hm, ?_, ?_⟩
  · rw [isFinite, pack_exponent he' hm]
    exact decide_eq_true (by simpa [binary64] using he.ne)
  · rw [magnitude, pack_exponent he' hm, pack_fraction hm]
    exact hmag

/-- A double and its number, counted like `magnitude`. Infinities are beyond all others. -/
def scaled (d : UInt64) : ℤ :=
  if binary64.negative d.toNat then -(binary64.magnitude d.toNat : ℤ)
  else binary64.magnitude d.toNat

def isNaN (d : UInt64) : Bool :=
  !binary64.isFinite d.toNat && binary64.fraction d.toNat ≠ 0

/-- The comparisons of the language. The two zeros are equal. -/
def lt (a b : UInt64) : Bool := !isNaN a && !isNaN b && decide (scaled a < scaled b)
def le (a b : UInt64) : Bool := !isNaN a && !isNaN b && decide (scaled a ≤ scaled b)
def eq (a b : UInt64) : Bool := !isNaN a && !isNaN b && decide (scaled a = scaled b)

def roundedInt (v : ℤ) : ℤ := if v < 0 then -(rounded v.natAbs : ℤ) else rounded v.natAbs

theorem scaled_ofInt {v : ℤ} (hv : v.natAbs < 2 ^ 64) :
    scaled (ofInt v) = roundedInt v * 2 ^ 1074 ∧ isNaN (ofInt v) = false := by
  obtain ⟨hs, hf, hm⟩ := ofInt_spec hv
  refine ⟨?_, by simp [isNaN, hf]⟩
  rw [scaled, hs, hm, Nat.cast_mul, Nat.cast_pow, Nat.cast_ofNat, roundedInt]
  generalize (2 : ℤ) ^ 1074 = u
  by_cases h : v < 0 <;> simp [h]

theorem le_ofInt {v w : ℤ} (hv : v.natAbs < 2 ^ 64) (hw : w.natAbs < 2 ^ 64) :
    le (ofInt v) (ofInt w) = true ↔ roundedInt v ≤ roundedInt w := by
  obtain ⟨hs, hn⟩ := scaled_ofInt hv
  obtain ⟨hs', hn'⟩ := scaled_ofInt hw
  have hpos : (0 : ℤ) < 2 ^ 1074 := pow_pos (by omega) _
  rw [le, hn, hn', hs, hs']
  simp only [Bool.not_false, Bool.true_and, decide_eq_true_eq]
  exact mul_le_mul_iff_left₀ hpos

theorem truncate_ofInt {v : ℤ} (hv : v.natAbs < 2 ^ 64) :
    truncate (ofInt v) = some (roundedInt v) := by
  obtain ⟨hs, hf, hm⟩ := ofInt_spec hv
  rw [truncate, if_pos hf, hs, hm, Nat.mul_div_cancel _ (Nat.two_pow_pos _), roundedInt]
  simp only [decide_eq_true_eq]

theorem pack_fields {n : ℕ} (h : n < 2 ^ 64) :
    binary64.pack (binary64.negative n) (binary64.exponent n) (binary64.fraction n) = n := by
  simp only [pack, negative, exponent, fraction, binary64]
  by_cases hs : n / 2 ^ 52 / 2 ^ 11 % 2 = 1 <;>
    simp only [hs, decide_true, decide_false, Bool.toNat_true, Bool.toNat_false] <;> omega

/-- A larger exponent is a larger number, whatever the fractions are. -/
theorem magnitude_lt {a b : ℕ} (h : binary64.exponent a < binary64.exponent b) :
    binary64.magnitude a < binary64.magnitude b := by
  have ha : binary64.fraction a < 2 ^ 52 := binary64.fraction_lt a
  have hb : binary64.exponent b ≠ 0 := by omega
  rw [magnitude, magnitude, if_neg hb, show binary64.fractionBits = 52 from rfl]
  have hpow : 2 ^ 52 * 2 ^ (binary64.exponent b - 1) ≤
      (2 ^ 52 + binary64.fraction b) * 2 ^ (binary64.exponent b - 1) :=
    Nat.mul_le_mul_right _ (Nat.le_add_right _ _)
  split
  · have hone : 1 ≤ 2 ^ (binary64.exponent b - 1) := Nat.one_le_two_pow
    calc binary64.fraction a < 2 ^ 52 * 1 := by omega
      _ ≤ 2 ^ 52 * 2 ^ (binary64.exponent b - 1) := Nat.mul_le_mul_left _ hone
      _ ≤ _ := hpow
  · next h0 =>
    calc (2 ^ 52 + binary64.fraction a) * 2 ^ (binary64.exponent a - 1)
        < 2 ^ 53 * 2 ^ (binary64.exponent a - 1) :=
          Nat.mul_lt_mul_of_pos_right (by omega) (Nat.two_pow_pos _)
      _ = 2 ^ 52 * 2 ^ (binary64.exponent a - 1 + 1) := by ring
      _ ≤ 2 ^ 52 * 2 ^ (binary64.exponent b - 1) :=
          Nat.mul_le_mul_left _ (Nat.pow_le_pow_right (by omega) (by omega))
      _ ≤ _ := hpow

theorem magnitude_inj {a b : ℕ} (h : binary64.magnitude a = binary64.magnitude b) :
    binary64.exponent a = binary64.exponent b ∧ binary64.fraction a = binary64.fraction b := by
  have he : binary64.exponent a = binary64.exponent b := by
    rcases Nat.lt_trichotomy (binary64.exponent a) (binary64.exponent b) with hl | he | hl
    · exact absurd h (magnitude_lt hl).ne
    · exact he
    · exact absurd h (magnitude_lt hl).ne'
  refine ⟨he, ?_⟩
  rw [magnitude, magnitude, ← he] at h
  split at h
  · exact h
  · exact Nat.add_left_cancel (Nat.eq_of_mul_eq_mul_right (Nat.two_pow_pos _) h)

/-- Apart from the two zeros no two patterns stand for the same number. -/
theorem scaled_inj {a b : UInt64} (h : scaled a = scaled b) (h0 : scaled a ≠ 0) : a = b := by
  have hsign : binary64.negative a.toNat = binary64.negative b.toNat := by
    unfold scaled at h h0
    cases ha : binary64.negative a.toNat <;> cases hb : binary64.negative b.toNat <;>
      simp only [ha, hb, if_true, if_false, Bool.false_eq_true] at h h0 ⊢ <;> omega
  have hmag : binary64.magnitude a.toNat = binary64.magnitude b.toNat := by
    unfold scaled at h
    rw [hsign] at h
    split at h <;> omega
  obtain ⟨he, hm⟩ := magnitude_inj hmag
  have ha := pack_fields a.toNat_lt
  rw [hsign, he, hm, pack_fields b.toNat_lt] at ha
  exact UInt64.toNat_inj.mp ha.symm

/-- The zero with a sign. -/
def negativeZero : UInt64 := 0x8000000000000000

theorem scaled_eq_zero {d : UInt64} (h : scaled d = 0) : d = 0 ∨ d = negativeZero := by
  have hmag : binary64.magnitude d.toNat = binary64.magnitude 0 := by
    have h0 : binary64.magnitude 0 = 0 := rfl
    unfold scaled at h
    split at h <;> omega
  obtain ⟨he, hm⟩ := magnitude_inj hmag
  have hd := pack_fields d.toNat_lt
  rw [he, hm] at hd
  cases hs : binary64.negative d.toNat with
  | false =>
    rw [hs] at hd
    exact .inl (UInt64.toNat_inj.mp hd.symm)
  | true =>
    rw [hs] at hd
    exact .inr (UInt64.toNat_inj.mp hd.symm)

/-- A magnitude without its fraction. A small one has few bits, and a large one has no fraction
and ends in zeros. -/
theorem rounded_magnitude (d : ℕ) :
    rounded (binary64.magnitude d / 2 ^ 1074) = binary64.magnitude d / 2 ^ 1074 ∧
      (2 ^ 53 ≤ binary64.magnitude d / 2 ^ 1074 → 2 ^ 1074 ∣ binary64.magnitude d) := by
  have hf : binary64.fraction d < 2 ^ 52 := binary64.fraction_lt d
  have hmag : binary64.magnitude d ≤ (2 ^ 52 + binary64.fraction d) *
      2 ^ (binary64.exponent d - 1) := by
    unfold magnitude
    split
    · next h0 => simp [h0]
    · exact le_rfl
  by_cases he : binary64.exponent d < 1075
  · have hlt : binary64.magnitude d / 2 ^ 1074 < 2 ^ 53 := by
      rw [Nat.div_lt_iff_lt_mul (Nat.two_pow_pos _)]
      calc binary64.magnitude d ≤ (2 ^ 52 + binary64.fraction d) *
            2 ^ (binary64.exponent d - 1) := hmag
        _ < 2 ^ 53 * 2 ^ (binary64.exponent d - 1) :=
            Nat.mul_lt_mul_of_pos_right (by omega) (Nat.two_pow_pos _)
        _ ≤ 2 ^ 53 * 2 ^ 1074 := Nat.mul_le_mul_left _ (Nat.pow_le_pow_right (by decide) (by omega))
    refine ⟨rounded_of_dvd (.inl ?_), fun h => absurd h (by omega)⟩
    by_cases h0 : binary64.magnitude d / 2 ^ 1074 = 0
    · rw [h0]
      decide
    · exact Nat.lt_succ_iff.mp ((Nat.log2_lt h0).mpr hlt)
  · obtain ⟨k, hk⟩ : ∃ k, binary64.exponent d - 1 = k + 1074 :=
      ⟨binary64.exponent d - 1075, by omega⟩
    have hpow : binary64.magnitude d = (2 ^ 52 + binary64.fraction d) * 2 ^ k * 2 ^ 1074 := by
      rw [magnitude, if_neg (by omega), hk, Nat.pow_add, ← Nat.mul_assoc,
        show binary64.fractionBits = 52 from rfl]
    have hdiv : binary64.magnitude d / 2 ^ 1074 = (2 ^ 52 + binary64.fraction d) * 2 ^ k := by
      rw [hpow, Nat.mul_div_cancel _ (Nat.two_pow_pos _)]
    have hlog : ((2 ^ 52 + binary64.fraction d) * 2 ^ k).log2 = 52 + k := by
      have hne : (2 ^ 52 + binary64.fraction d) * 2 ^ k ≠ 0 :=
        Nat.mul_ne_zero (by omega) (Nat.two_pow_pos k).ne'
      rw [Nat.log2_eq_iff hne, Nat.pow_add, Nat.add_right_comm, Nat.pow_add]
      exact ⟨Nat.mul_le_mul_right _ (by omega),
        Nat.mul_lt_mul_of_pos_right (by omega) (Nat.two_pow_pos k)⟩
    refine ⟨?_, fun _ => hpow ▸ Nat.dvd_mul_left _ _⟩
    rw [hdiv]
    refine rounded_of_dvd (.inr ?_)
    rw [hlog, Nat.add_sub_cancel_left]
    exact Nat.dvd_mul_left _ _

theorem roundedInt_neg {q : ℕ} (h : rounded q = q) :
    roundedInt q = q ∧ roundedInt (-(q : ℤ)) = -(q : ℤ) := by
  unfold roundedInt
  rw [Int.natAbs_neg, Int.natAbs_natCast, h]
  refine ⟨by rw [if_neg (by omega)], ?_⟩
  split
  · rfl
  · omega

/-- The integer a double is cut off to is the value of a double, and less than one away. -/
theorem truncate_spec {d : UInt64} {n : ℤ} (h : truncate d = some n) : roundedInt n = n ∧
    (2 ^ 53 ≤ n.natAbs → scaled d = n * 2 ^ 1074) ∧
    (n - 1) * 2 ^ 1074 < scaled d ∧ scaled d < (n + 1) * 2 ^ 1074 := by
  obtain ⟨hround, hdvd⟩ := rounded_magnitude d.toNat
  have hunit : (2 : ℤ) ^ 1074 = ((2 ^ 1074 : ℕ) : ℤ) := (Nat.cast_pow 2 1074).symm
  have hdiv := Nat.div_add_mod (binary64.magnitude d.toNat) (2 ^ 1074)
  have hmod := Nat.mod_lt (binary64.magnitude d.toNat) (Nat.two_pow_pos 1074)
  have hexact : 2 ^ 53 ≤ binary64.magnitude d.toNat / 2 ^ 1074 →
      binary64.magnitude d.toNat % 2 ^ 1074 = 0 := fun hq => Nat.mod_eq_zero_of_dvd (hdvd hq)
  obtain ⟨hpos, hneg⟩ := roundedInt_neg hround
  rw [hunit]
  unfold truncate at h
  unfold scaled
  split at h
  · generalize binary64.magnitude d.toNat / 2 ^ 1074 = q at *
    generalize binary64.magnitude d.toNat % 2 ^ 1074 = r at *
    generalize 2 ^ 1074 = u at *
    have hm : (binary64.magnitude d.toNat : ℤ) = u * q + r := by exact_mod_cast hdiv.symm
    have h0 : (0 : ℤ) ≤ r := Int.natCast_nonneg r
    have hlt : (r : ℤ) < u := by exact_mod_cast hmod
    have hr : 2 ^ 53 ≤ q → (r : ℤ) = 0 := fun hq => by exact_mod_cast hexact hq
    rw [hm]
    cases hs : binary64.negative d.toNat with
    | false =>
      simp only [hs, Bool.false_eq_true, if_false, Option.some.injEq] at h ⊢
      subst h
      refine ⟨hpos, fun hn => ?_, by linarith only [h0, hlt], by linarith only [h0, hlt]⟩
      rw [hr (by omega)]
      ring
    | true =>
      simp only [hs, if_true, Option.some.injEq] at h ⊢
      subst h
      refine ⟨hneg, fun hn => ?_, by linarith only [h0, hlt], by linarith only [h0, hlt]⟩
      rw [hr (by omega)]
      ring
  · cases h

end FloatRounding
