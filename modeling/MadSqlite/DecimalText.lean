import MadSqlite.CppStrings

/-! # Decimal numbers in a text

What `strtol` and `operator>>` take for the number at the start of a text, and that they read
back what `to_string` and `operator<<` write. -/
namespace DecimalText

open CppStrings

/-- A text that starts with a number: white space, a sign, and a run of digits that goes as
far as there are digits. -/
structure Numeral where
  space : Bytes
  sign : Bytes
  digits : Bytes
  rest : Bytes
  isSpace : ∀ c ∈ space, isspace c = true
  isSign : sign = [] ∨ sign = [43] ∨ sign = [45]
  isDigits : ∀ c ∈ digits, isdigit c = true
  nonempty : digits ≠ []
  ends : ∀ c ∈ rest.head?, isdigit c = false

namespace Numeral

def text (x : Numeral) : Bytes := x.space ++ (x.sign ++ (x.digits ++ x.rest))
def value (x : Numeral) : ℤ := if x.sign = [45] then -(decimal x.digits : ℤ) else decimal x.digits

end Numeral

theorem isspace_digit {c : UInt8} (h : isdigit c = true) : isspace c = false := by
  simp only [isdigit, isspace, decide_eq_true_eq, decide_eq_false_iff_not, UInt8.le_iff_toNat_le,
    UInt8.toNat_ofNat, ← UInt8.toNat_inj] at h ⊢
  omega

theorem digit_ne_sign {c : UInt8} (h : isdigit c = true) : c ≠ 43 ∧ c ≠ 45 := by
  constructor <;> rintro rfl <;> cases h

theorem takeWhile_run {p : UInt8 → Bool} {l r : Bytes} (hl : ∀ c ∈ l, p c = true)
    (hr : ∀ c ∈ r.head?, p c = false) : (l ++ r).takeWhile p = l := by
  rw [List.takeWhile_append_of_pos hl]
  cases r with
  | nil => simp
  | cons c r => simp [hr c rfl]

theorem dropWhile_run {p : UInt8 → Bool} {l r : Bytes} (hl : ∀ c ∈ l, p c = true)
    (hr : ∀ c ∈ r.head?, p c = false) : (l ++ r).dropWhile p = r := by
  rw [List.dropWhile_append_of_pos hl]
  cases r with
  | nil => rfl
  | cons c r => simp [hr c rfl]

theorem dropWhile_head (p : UInt8 → Bool) (l : Bytes) :
    ∀ c ∈ (l.dropWhile p).head?, p c = false := by
  intro c hc
  have hne : l.dropWhile p ≠ [] := by
    rintro he
    simp [he] at hc
  rw [List.head?_eq_some_head hne] at hc
  cases hc
  simpa using List.head_dropWhile_not p hne

namespace Numeral

theorem exists_digit (x : Numeral) : ∃ d ds, x.digits = d :: ds ∧ isdigit d = true := by
  obtain ⟨d, ds, hx⟩ := List.exists_cons_of_ne_nil x.nonempty
  refine ⟨d, ds, hx, x.isDigits d ?_⟩
  rw [hx]
  exact List.mem_cons_self

theorem dropWhile_text (x : Numeral) :
    x.text.dropWhile isspace = x.sign ++ (x.digits ++ x.rest) := by
  obtain ⟨d, ds, hx, hd⟩ := x.exists_digit
  refine dropWhile_run x.isSpace fun c hc => ?_
  rcases x.isSign with hs | hs | hs
  · rw [hs, hx] at hc
    cases hc
    exact isspace_digit hd
  · rw [hs] at hc
    cases hc
    rfl
  · rw [hs] at hc
    cases hc
    rfl

theorem head_minus (x : Numeral) :
    (x.sign ++ (x.digits ++ x.rest)).head? = some 45 ↔ x.sign = [45] := by
  obtain ⟨d, ds, hx, hd⟩ := x.exists_digit
  rcases x.isSign with hs | hs | hs
  · simp [hs, hx, (digit_ne_sign hd).2]
  · simp [hs]
  · simp [hs]

theorem tail_sign (x : Numeral) {s : Bytes} (hs : x.sign ++ (x.digits ++ x.rest) = s) :
    (if s.head? = some 45 ∨ s.head? = some 43 then s.tail else s) = x.digits ++ x.rest := by
  subst hs
  obtain ⟨d, ds, hx, hd⟩ := x.exists_digit
  rcases x.isSign with hs | hs | hs
  · simp [hs, hx, (digit_ne_sign hd).1, (digit_ne_sign hd).2]
  · simp [hs]
  · simp [hs]

end Numeral

theorem scanInteger_text (x : Numeral) : scanInteger x.text = some x.value := by
  unfold scanInteger Numeral.value
  dsimp only
  rw [x.dropWhile_text, x.tail_sign rfl, takeWhile_run x.isDigits x.ends, if_neg x.nonempty]
  simp only [x.head_minus]
  split <;> rfl

theorem exists_sign (s : Bytes) : ∃ sign, (sign = [] ∨ sign = [43] ∨ sign = [45]) ∧
    s = sign ++ (if s.head? = some 45 ∨ s.head? = some 43 then s.tail else s) ∧
      (s.head? = some 45 ↔ sign = [45]) := by
  cases s with
  | nil => exact ⟨[], by simp⟩
  | cons c s =>
    by_cases hm : c = 45
    · subst hm
      exact ⟨[45], by simp⟩
    · by_cases hp : c = 43
      · subst hp
        exact ⟨[43], by simp⟩
      · exact ⟨[], by simp [hm, hp]⟩

theorem exists_numeral {text : Bytes} {n : ℤ} (h : scanInteger text = some n) :
    ∃ x : Numeral, x.text = text ∧ x.value = n := by
  obtain ⟨sign, hsign, hs, hminus⟩ := exists_sign (text.dropWhile isspace)
  unfold scanInteger at h
  dsimp only at h
  generalize (if (text.dropWhile isspace).head? = some 45 ∨ (text.dropWhile isspace).head? = some 43
    then (text.dropWhile isspace).tail else text.dropWhile isspace) = s at h hs
  simp only [hminus] at h
  by_cases hne : s.takeWhile isdigit = []
  · simp [hne] at h
  · rw [if_neg hne] at h
    refine ⟨⟨text.takeWhile isspace, sign, s.takeWhile isdigit, s.dropWhile isdigit,
      fun c hc => List.mem_takeWhile_imp hc, hsign, fun c hc => List.mem_takeWhile_imp hc, hne,
      dropWhile_head isdigit s⟩, ?_, ?_⟩
    · rw [Numeral.text, List.takeWhile_append_dropWhile, ← hs, List.takeWhile_append_dropWhile]
    · rw [Numeral.value]
      split at h
      · next hm => rw [if_pos hm]; exact Option.some.inj h
      · next hm => rw [if_neg hm]; exact Option.some.inj h

/-- The scan finds the number that the text starts with. -/
theorem scanInteger_iff {text : Bytes} {n : ℤ} :
    scanInteger text = some n ↔ ∃ x : Numeral, x.text = text ∧ x.value = n := by
  constructor
  · exact exists_numeral
  · rintro ⟨x, rfl, rfl⟩
    exact scanInteger_text x

theorem cStr_append {l r : Bytes} (hl : ∀ c ∈ l, c ≠ 0) : cStr (l ++ r) = l ++ cStr r :=
  List.takeWhile_append_of_pos fun c hc => decide_eq_true (hl c hc)

/-- A NUL ends the number, so nothing behind it is looked at. -/
theorem scanInteger_cStr (text : Bytes) : scanInteger (cStr text) = scanInteger text := by
  ext n
  rw [scanInteger_iff, scanInteger_iff]
  constructor
  · rintro ⟨x, hx, rfl⟩
    refine ⟨{ x with rest := x.rest ++ text.dropWhile (· ≠ 0), ends := ?_ }, ?_, rfl⟩
    · intro c hc
      rw [List.head?_append] at hc
      cases hr : x.rest.head? with
      | some d =>
        rw [hr, Option.some_or] at hc
        exact x.ends c (hr.trans hc)
      | none =>
        rw [hr, Option.none_or] at hc
        have hz := dropWhile_head _ _ c hc
        rw [decide_eq_false_iff_not, not_not] at hz
        rw [hz]
        rfl
    · have ht : x.text ++ text.dropWhile (· ≠ 0) = text := by
        rw [hx]
        exact List.takeWhile_append_dropWhile
      simpa [Numeral.text] using ht
  · rintro ⟨x, rfl, rfl⟩
    refine ⟨{ x with rest := cStr x.rest, ends := ?_ }, ?_, rfl⟩
    · intro c hc
      cases hr : x.rest with
      | nil => simp [hr, cStr] at hc
      | cons d r =>
        by_cases hd : d = 0
        · simp [hr, hd, cStr] at hc
        · refine x.ends c ?_
          simpa [hr, hd, cStr] using hc
    · have hspace : ∀ c ∈ x.space, c ≠ 0 := by
        rintro c hc rfl
        exact absurd (x.isSpace 0 hc) (by decide)
      have hsign : ∀ c ∈ x.sign, c ≠ 0 := by
        rintro c hc rfl
        rcases x.isSign with he | he | he <;> simp [he] at hc
      have hdigits : ∀ c ∈ x.digits, c ≠ 0 := by
        rintro c hc rfl
        exact absurd (x.isDigits 0 hc) (by decide)
      simp only [Numeral.text, cStr_append hspace, cStr_append hsign, cStr_append hdigits]

theorem decimal_eq_ofDigits (ds : Bytes) :
    decimal ds = Nat.ofDigits 10 (ds.map fun d => d.toNat - 48).reverse := by
  rw [Nat.ofDigits_eq_foldr, List.foldr_reverse, List.foldl_map, decimal]
  simp [Nat.add_comm]

theorem digit_ofNat {d : ℕ} (h : d < 10) : (48 + d).toUInt8.toNat = 48 + d := by
  rw [Nat.toUInt8_eq, UInt8.toNat_ofNat']
  exact Nat.mod_eq_of_lt (by omega)

theorem isdigit_naturalText (n : ℕ) : ∀ c ∈ naturalText n, isdigit c = true := by
  intro c hc
  unfold naturalText at hc
  split at hc
  · rw [List.mem_singleton.mp hc]
    rfl
  · obtain ⟨d, hd, rfl⟩ := List.mem_map.mp hc
    have hlt := Nat.digits_lt_base (by omega : 1 < 10) (List.mem_reverse.mp hd)
    have hn := digit_ofNat hlt
    simp only [isdigit, UInt8.le_iff_toNat_le, hn, decide_eq_true_eq]
    exact ⟨Nat.le_add_right 48 d, by simp; omega⟩

theorem naturalText_ne_nil (n : ℕ) : naturalText n ≠ [] := by
  unfold naturalText
  split
  · simp
  · next hn => simpa using Nat.digits_ne_nil_iff_ne_zero.mpr hn

theorem decimal_naturalText (n : ℕ) : decimal (naturalText n) = n := by
  unfold naturalText
  split
  · next hn => rw [hn]; rfl
  · rw [decimal_eq_ofDigits, List.map_map, ← List.map_reverse, List.reverse_reverse]
    rw [List.map_congr_left (g := id)]
    · rw [List.map_id, Nat.ofDigits_digits]
    · intro d hd
      have hlt := Nat.digits_lt_base (by omega : 1 < 10) hd
      simp only [Function.comp_apply, digit_ofNat hlt, Nat.add_sub_cancel_left, id]

/-- A number in decimal, as the text that stands for it. -/
def numeral (v : ℤ) : Numeral where
  space := []
  sign := if v < 0 then [45] else []
  digits := naturalText v.natAbs
  rest := []
  isSpace := by simp
  isSign := by split <;> simp
  isDigits := isdigit_naturalText v.natAbs
  nonempty := naturalText_ne_nil v.natAbs
  ends := by simp

theorem numeral_text (v : ℤ) : (numeral v).text = integerText v := by
  unfold Numeral.text numeral integerText
  split <;> simp

theorem numeral_value (v : ℤ) : (numeral v).value = v := by
  by_cases hv : v < 0
  · simp only [Numeral.value, numeral, hv, if_true, decimal_naturalText]
    omega
  · simp only [Numeral.value, numeral, hv, if_false, decimal_naturalText, List.nil_eq,
      List.cons_ne_nil]
    omega

/-- What is written is read back. -/
theorem scanInteger_integerText (v : ℤ) : scanInteger (integerText v) = some v := by
  rw [← numeral_text, scanInteger_text, numeral_value]

end DecimalText
