import MadSqlite.DecimalText
import Mathlib.Tactic.Ring

/-! # sqlite3Atoi64

The conversion of a text to an integer, with its sum of 64 bits that wraps around and its
comparison of nineteen digits with a power of two. -/
namespace SqliteAtoi

open CppStrings DecimalText

abbrev LARGEST_INT64 : Int64 := Int64.maxValue
abbrev SMALLEST_INT64 : Int64 := Int64.minValue

/-- The last digit of the power is not in its text. -/
def pow63 : Bytes := ascii "922337203685477580"

/-- The loop of `compare2pow63` over the digits and those of the power that are left. -/
def compareFrom : Bytes → Bytes → ℤ
  | c :: zNum, p :: pow => if c = p then compareFrom zNum pow else ((c.toNat : ℤ) - p.toNat) * 10
  | c :: _, [] => (c.toNat : ℤ) - 56
  | [], _ => 0

def compare2pow63 (zNum : Bytes) : ℤ := compareFrom zNum pow63

def addDigit (u : UInt64) (c : UInt8) : UInt64 := u * 10 + c.toUInt64 - 48

/-- The end of the function: what it leaves in `*pNum` for the sum of the digits. -/
def signedValue (neg : Bool) (u : UInt64) : Int64 :=
  if LARGEST_INT64.toUInt64 < u then (if neg then SMALLEST_INT64 else LARGEST_INT64)
  else if neg then -u.toInt64
  else u.toInt64

/-- What it leaves in `*pNum`, and what it returns. -/
def sqlite3Atoi64 (zNum : Bytes) : Int64 × ℕ :=
  let zNum := zNum.dropWhile isspace
  let neg : Bool := zNum.head? = some 45
  let zStart := if zNum.head? = some 45 ∨ zNum.head? = some 43 then zNum.tail else zNum
  let zNum := zStart.dropWhile (· = 48)
  let digits := zNum.takeWhile isdigit
  let i := digits.length
  (signedValue neg (digits.foldl addDigit 0),
    if i < zNum.length ∨ (i = 0 ∧ zStart = zNum) ∨ 19 < i then 1
    else if i < 19 then 0
    else if compare2pow63 zNum < 0 then 0
    else if 0 < compare2pow63 zNum then 1
    else if neg then 0
    else 2)

theorem digit_le {c : UInt8} (hc : isdigit c = true) : 48 ≤ c.toNat ∧ c.toNat ≤ 57 := by
  simp only [isdigit, decide_eq_true_eq, UInt8.le_iff_toNat_le] at hc
  exact hc

theorem addDigit_toNat {u : UInt64} {c : UInt8} (hc : isdigit c = true) :
    (addDigit u c).toNat = (10 * u.toNat + (c.toNat - 48)) % 2 ^ 64 := by
  have hle := digit_le hc
  have h10 : UInt64.toNat 10 = 10 := rfl
  have h48 : UInt64.toNat 48 = 48 := rfl
  rw [addDigit, UInt64.toNat_sub, UInt64.toNat_add, UInt64.toNat_mul, UInt8.toNat_toUInt64, h10,
    h48]
  omega

/-- The sum of the loop is the number, up to the width of the type. -/
theorem foldl_addDigit {ds : Bytes} (hd : ∀ c ∈ ds, isdigit c = true) :
    (ds.foldl addDigit 0).toNat = decimal ds % 2 ^ 64 := by
  have hfold : ∀ (u : UInt64) (n : ℕ), u.toNat = n % 2 ^ 64 → (ds.foldl addDigit u).toNat =
      ds.foldl (fun n d => 10 * n + (d.toNat - 48)) n % 2 ^ 64 := by
    induction ds with
    | nil => exact fun u n hu => hu
    | cons c ds ih =>
      intro u n hu
      rw [List.forall_mem_cons] at hd
      refine ih hd.2 _ _ ?_
      rw [addDigit_toNat hd.1, hu]
      dsimp only
      omega
  exact hfold 0 0 rfl

theorem decimal_cons (c : UInt8) (ds : Bytes) :
    decimal (c :: ds) = (c.toNat - 48) * 10 ^ ds.length + decimal ds := by
  rw [decimal_eq_ofDigits, decimal_eq_ofDigits, List.map_cons, List.reverse_cons,
    Nat.ofDigits_append, Nat.ofDigits_singleton, List.length_reverse, List.length_map]
  ring

theorem decimal_lt {ds : Bytes} (hd : ∀ c ∈ ds, isdigit c = true) :
    decimal ds < 10 ^ ds.length := by
  induction ds with
  | nil => exact Nat.one_pos
  | cons c ds ih =>
    rw [List.forall_mem_cons] at hd
    have hlt := ih hd.2
    have hc := digit_le hd.1
    rw [decimal_cons, List.length_cons, Nat.pow_succ]
    calc (c.toNat - 48) * 10 ^ ds.length + decimal ds
        < (c.toNat - 48) * 10 ^ ds.length + 10 ^ ds.length := by omega
      _ = (c.toNat - 48 + 1) * 10 ^ ds.length := by ring
      _ ≤ 10 * 10 ^ ds.length := Nat.mul_le_mul_right _ (by omega)
      _ = 10 ^ ds.length * 10 := by ring

theorem le_decimal {c : UInt8} (hc : isdigit c = true) (h0 : c ≠ 48) (ds : Bytes) :
    10 ^ ds.length ≤ decimal (c :: ds) := by
  have hne : c.toNat ≠ 48 := fun h => h0 (UInt8.toNat_inj.mp h)
  have hle := digit_le hc
  rw [decimal_cons]
  calc 10 ^ ds.length = 1 * 10 ^ ds.length := (Nat.one_mul _).symm
    _ ≤ (c.toNat - 48) * 10 ^ ds.length := Nat.mul_le_mul_right _ (by omega)
    _ ≤ _ := Nat.le_add_right _ _

theorem decimal_zeros {zs ds : Bytes} (hz : ∀ c ∈ zs, c = 48) :
    decimal (zs ++ ds) = decimal ds := by
  induction zs with
  | nil => rfl
  | cons c zs ih =>
    rw [List.forall_mem_cons] at hz
    rw [List.cons_append, decimal_cons, ih hz.2, hz.1]
    simp

/-- The first digits that differ decide, the one after the text of the power included. -/
theorem compareFrom_spec {ds pow : Bytes} (hd : ∀ c ∈ ds, isdigit c = true)
    (hp : ∀ c ∈ pow, isdigit c = true) (hl : ds.length = pow.length + 1) :
    (compareFrom ds pow < 0 ↔ decimal ds < decimal (pow ++ [56])) ∧
      (0 < compareFrom ds pow ↔ decimal (pow ++ [56]) < decimal ds) := by
  induction pow generalizing ds with
  | nil =>
    obtain ⟨c, rfl⟩ := List.length_eq_one_iff.mp hl
    have hc := digit_le (hd c List.mem_cons_self)
    have h8 : decimal ([] ++ [56]) = 8 := rfl
    have hn : decimal [c] = c.toNat - 48 := by simp [decimal]
    rw [h8, hn, compareFrom]
    omega
  | cons p pow ih =>
    obtain ⟨c, ds, rfl⟩ := List.exists_cons_of_length_eq_add_one hl
    rw [List.forall_mem_cons] at hd hp
    have hlen : ds.length = pow.length + 1 := by simpa using hl
    have hlen' : (pow ++ [56]).length = ds.length := by simp [hlen]
    have hlt := decimal_lt hd.2
    have hlt' : decimal (pow ++ [56]) < 10 ^ ds.length := by
      rw [← hlen']
      refine decimal_lt fun c hc => ?_
      rcases List.mem_append.mp hc with hc | hc
      · exact hp.2 c hc
      · rw [List.mem_singleton.mp hc]
        rfl
    rw [compareFrom, List.cons_append, decimal_cons, decimal_cons, hlen']
    split
    · next he =>
      have hi := ih hd.2 hp.2 hlen
      rw [he]
      omega
    · next hne =>
      have hc := digit_le hd.1
      have hp' := digit_le hp.1
      have hne' : c.toNat ≠ p.toNat := fun h => hne (UInt8.toNat_inj.mp h)
      generalize 10 ^ ds.length = w at hlt hlt' ⊢
      rcases hne'.lt_or_gt with h | h
      · have hw : (c.toNat - 48) * w + w ≤ (p.toNat - 48) * w := by
          rw [← Nat.succ_mul]
          exact Nat.mul_le_mul_right _ (by omega)
        omega
      · have hw : (p.toNat - 48) * w + w ≤ (c.toNat - 48) * w := by
          rw [← Nat.succ_mul]
          exact Nat.mul_le_mul_right _ (by omega)
        omega

theorem compare2pow63_spec {ds : Bytes} (hd : ∀ c ∈ ds, isdigit c = true)
    (hl : ds.length = 19) : (compare2pow63 ds < 0 ↔ decimal ds < 2 ^ 63) ∧
      (0 < compare2pow63 ds ↔ 2 ^ 63 < decimal ds) :=
  compareFrom_spec hd (List.all_eq_true.mp (by decide : pow63.all isdigit = true)) hl

/-- The nearest number of 64 bits. -/
def clamp (n : ℤ) : Int64 := Int64.ofInt (max (-2 ^ 63) (min (2 ^ 63 - 1) n))

def signed (neg : Bool) (n : ℕ) : ℤ := if neg then -(n : ℤ) else n

theorem signedValue_eq (neg : Bool) (u : UInt64) :
    signedValue neg u = clamp (signed neg u.toNat) := by
  have hu := u.toNat_lt
  have hlargest : LARGEST_INT64.toUInt64.toNat = 2 ^ 63 - 1 := rfl
  unfold signedValue clamp signed
  split
  · next h =>
    rw [UInt64.lt_iff_toNat_lt, hlargest] at h
    cases neg with
    | true =>
      have hmax : max (-2 ^ 63 : ℤ) (min (2 ^ 63 - 1) (-(u.toNat : ℤ))) = -2 ^ 63 := by omega
      simp only [if_true, hmax]
      rfl
    | false =>
      have hmax : max (-2 ^ 63 : ℤ) (min (2 ^ 63 - 1) (u.toNat : ℤ)) = 2 ^ 63 - 1 := by omega
      simp only [Bool.false_eq_true, if_false, hmax]
      rfl
  · next h =>
    rw [UInt64.lt_iff_toNat_lt, hlargest] at h
    have htoInt : u.toInt64 = Int64.ofInt u.toNat := by
      rw [← Int64.toBitVec_inj, UInt64.toBitVec_toInt64, Int64.toBitVec_ofInt, BitVec.ofInt_natCast]
      exact (BitVec.ofNat_toNat 64 u.toBitVec).symm
    cases neg with
    | true =>
      have hmax : max (-2 ^ 63 : ℤ) (min (2 ^ 63 - 1) (-(u.toNat : ℤ))) = -u.toNat := by omega
      simp only [if_true, hmax, htoInt, Int64.ofInt_neg]
    | false =>
      have hmax : max (-2 ^ 63 : ℤ) (min (2 ^ 63 - 1) (u.toNat : ℤ)) = u.toNat := by omega
      simp only [Bool.false_eq_true, if_false, hmax, htoInt]

/-- The digits of a number after its leading zeros. -/
theorem dropWhile_zeros (x : Numeral) : ∃ ds, (∀ c ∈ ds, isdigit c = true) ∧
    (∀ c ∈ ds.head?, c ≠ 48) ∧ decimal ds = decimal x.digits ∧
    (x.digits ++ x.rest).dropWhile (· = 48) = ds ++ x.rest ∧
    (ds = [] → x.digits ++ x.rest ≠ ds ++ x.rest) := by
  have hsplit := List.takeWhile_append_dropWhile (p := (· = 48)) (l := x.digits)
  have hzeros : ∀ c ∈ x.digits.takeWhile (· = 48), c = 48 := fun c hc => by
    simpa using List.mem_takeWhile_imp hc
  have hhead : ∀ c ∈ (x.digits.dropWhile (· = 48)).head?, c ≠ 48 := fun c hc => by
    simpa using dropWhile_head (· = 48) x.digits c hc
  refine ⟨x.digits.dropWhile (· = 48),
    fun c hc => x.isDigits c ((List.dropWhile_sublist _).subset hc), hhead, ?_, ?_, ?_⟩
  · rw [← decimal_zeros hzeros, hsplit]
  · have hrun : ∀ c ∈ (x.digits.dropWhile (· = 48) ++ x.rest).head?, decide (c = 48) = false := by
      intro c hc
      rw [decide_eq_false_iff_not]
      rintro rfl
      cases hds : x.digits.dropWhile (· = 48) with
      | nil =>
        rw [hds, List.nil_append] at hc
        exact absurd (x.ends 48 hc) (by decide)
      | cons d ds =>
        rw [hds] at hc hhead
        exact hhead 48 hc rfl
    have hdrop := dropWhile_run (fun c hc => decide_eq_true (hzeros c hc)) hrun
    rwa [← List.append_assoc, hsplit] at hdrop
  · intro he h
    rw [he, List.nil_append] at h
    have hlen := congrArg List.length h
    rw [List.length_append] at hlen
    exact x.nonempty (List.length_eq_zero_iff.mp (by omega))

/-- What the source says it returns: 0 for a number of 64 bits, 2 for the first one after them,
1 for any other text. -/
def returnCode (x : Numeral) : ℕ :=
  if x.rest ≠ [] then 1
  else if -2 ^ 63 ≤ x.value ∧ x.value < 2 ^ 63 then 0
  else if x.value = 2 ^ 63 then 2
  else 1

/-- Fewer than nineteen digits fit, more do not, and nineteen are compared. -/
theorem digits_code {ds : Bytes} (hd : ∀ c ∈ ds, isdigit c = true)
    (hhead : ∀ c ∈ ds.head?, c ≠ 48) (neg : Bool) :
    (if 19 < ds.length then 1
      else if ds.length < 19 then 0
      else if compare2pow63 ds < 0 then 0
      else if 0 < compare2pow63 ds then 1
      else if neg then 0
      else 2) =
    if -2 ^ 63 ≤ signed neg (decimal ds) ∧ signed neg (decimal ds) < 2 ^ 63 then 0
    else if signed neg (decimal ds) = 2 ^ 63 then 2
    else 1 := by
  have hlt := decimal_lt hd
  rcases Nat.lt_trichotomy ds.length 19 with hl | hl | hl
  · have hpow : 10 ^ ds.length ≤ 10 ^ 18 := Nat.pow_le_pow_right (by omega) (by omega)
    rw [if_neg (by omega), if_pos hl, if_pos]
    cases neg <;> simp only [signed] <;> omega
  · obtain ⟨hless, hmore⟩ := compare2pow63_spec hd hl
    rw [if_neg (by omega), if_neg (by omega), if_congr hless rfl (if_congr hmore rfl rfl)]
    cases neg <;> simp only [signed, Bool.false_eq_true, if_true, if_false] <;> split_ifs <;> omega
  · have hge : 10 ^ 19 ≤ decimal ds := by
      cases ds with
      | nil => simp at hl
      | cons c ds =>
        rw [List.forall_mem_cons] at hd
        have hle := le_decimal hd.1 (hhead c rfl) ds
        have hpow : 10 ^ 19 ≤ 10 ^ ds.length :=
          Nat.pow_le_pow_right (by omega) (by simpa using Nat.le_of_lt_succ hl)
        omega
    rw [if_pos hl]
    cases neg <;> simp only [signed, Bool.false_eq_true, if_true, if_false] <;> split_ifs <;> omega

theorem value_eq (x : Numeral) : x.value = signed (x.sign = [45]) (decimal x.digits) := by
  simp [Numeral.value, signed]

theorem atoi_numeral (x : Numeral) : sqlite3Atoi64 x.text =
    (clamp (signed (x.sign = [45]) (decimal x.digits % 2 ^ 64)), returnCode x) := by
  obtain ⟨ds, hd, hhead, hdec, hdrop, hne⟩ := dropWhile_zeros x
  unfold sqlite3Atoi64
  dsimp only
  rw [x.dropWhile_text, x.tail_sign rfl, hdrop, takeWhile_run hd x.ends]
  simp only [x.head_minus, signedValue_eq, foldl_addDigit hd, hdec]
  refine Prod.ext rfl ?_
  dsimp only
  have hlen : (ds.length < (ds ++ x.rest).length ∨
      (ds.length = 0 ∧ x.digits ++ x.rest = ds ++ x.rest) ∨ 19 < ds.length) ↔
      x.rest ≠ [] ∨ 19 < ds.length := by
    rw [List.length_append, List.length_eq_zero_iff, ← List.length_pos_iff]
    have hno : ¬(ds = [] ∧ x.digits ++ x.rest = ds ++ x.rest) := fun h => hne h.1 h.2
    simp only [hno, false_or]
    omega
  rw [if_congr hlen rfl rfl, returnCode, value_eq, ← hdec]
  by_cases hr : x.rest = []
  · have hcode := digits_code hd hhead (x.sign = [45])
    simp only [hr, List.append_nil, ne_eq, not_true, false_or, if_false]
    simpa using hcode
  · simp only [ne_eq, hr, not_false_iff, true_or, if_true]

theorem atoi_no_number {zNum : Bytes} (h : scanInteger zNum = none) :
    sqlite3Atoi64 zNum = (0, 1) := by
  unfold scanInteger at h
  unfold sqlite3Atoi64
  dsimp only at h ⊢
  generalize (if (zNum.dropWhile isspace).head? = some 45 ∨ (zNum.dropWhile isspace).head? = some 43
    then (zNum.dropWhile isspace).tail else zNum.dropWhile isspace) = zStart at h ⊢
  have hnone : zStart.takeWhile isdigit = [] := by
    by_contra hne
    rw [if_neg hne] at h
    split at h <;> cases h
  have hzeros : zStart.dropWhile (· = 48) = zStart := by
    cases zStart with
    | nil => rfl
    | cons c zStart =>
      have hc : c ≠ 48 := by
        rintro rfl
        simp [isdigit] at hnone
      simp [hc]
  rw [hzeros, hnone, if_pos (.inr (.inl ⟨rfl, rfl⟩))]
  cases hneg : decide ((zNum.dropWhile isspace).head? = some 45) <;> rfl

/-- A text that starts with a number gives that number without its bits beyond 64, cut to the
range of the type, and the code that the documentation promises; any other text gives 0 and 1. -/
theorem atoi_spec (zNum : Bytes) :
    (∀ x : Numeral, x.text = zNum → sqlite3Atoi64 zNum =
      (clamp (signed (x.sign = [45]) (decimal x.digits % 2 ^ 64)), returnCode x)) ∧
    ((∀ x : Numeral, x.text ≠ zNum) → sqlite3Atoi64 zNum = (0, 1)) := by
  constructor
  · rintro x rfl
    exact atoi_numeral x
  · intro hno
    refine atoi_no_number (Option.eq_none_iff_forall_not_mem.mpr fun n hn => ?_)
    obtain ⟨x, hx, -⟩ := scanInteger_iff.mp hn
    exact hno x hx

/-- One more than the sum can count. -/
theorem wide_wraps : sqlite3Atoi64 (ascii "18446744073709551617") = (1, 1) :=
  ((atoi_spec _).1 (numeral 18446744073709551617) (by decide)).trans (by decide)

theorem clamp_toInt (v : Int64) : clamp v.toInt = v := by
  have hl := v.le_toInt
  have hu := v.toInt_lt
  have hmax : max (-2 ^ 63 : ℤ) (min (2 ^ 63 - 1) v.toInt) = v.toInt := by omega
  rw [clamp, hmax, Int64.ofInt_toInt]

/-- What is written as text for an integer is read as the integer. -/
theorem atoi_integerText (v : Int64) : sqlite3Atoi64 (integerText v.toInt) = (v, 0) := by
  have hl := v.le_toInt
  have hu := v.toInt_lt
  have hmod : signed ((numeral v.toInt).sign = [45]) (decimal (numeral v.toInt).digits % 2 ^ 64) =
      v.toInt := by
    rw [Nat.mod_eq_of_lt, ← value_eq, numeral_value]
    simp only [numeral, decimal_naturalText]
    omega
  rw [← numeral_text, atoi_numeral, hmod, clamp_toInt, returnCode, numeral_value]
  rw [if_neg (by simp [numeral]), if_pos (by omega)]

end SqliteAtoi
