import MadSqlite.DecimalText
import Mathlib.Data.Rat.Defs
import Mathlib.Algebra.Order.Field.Rat

/-! # Floating-point numbers in a text

What `strtod` takes for the number at the start of a text, and when it is in the range of a
double. -/
namespace FloatText

open CppStrings DecimalText

def isxdigit (c : UInt8) : Bool := isdigit c ∨ (65 ≤ toupper c ∧ toupper c ≤ 70)

def xdigit (c : UInt8) : ℕ := if isdigit c then c.toNat - 48 else (toupper c).toNat - 55

def hexadecimal (ds : Bytes) : ℕ := ds.foldl (fun n d => 16 * n + xdigit d) 0

/-- The digits before and after a point, and what follows them. -/
def scanPoint (digit : UInt8 → Bool) (s : Bytes) : Bytes × Bytes × Bytes :=
  let rest := s.dropWhile digit
  if rest.head? = some 46 then
    (s.takeWhile digit, rest.tail.takeWhile digit, rest.tail.dropWhile digit)
  else (s.takeWhile digit, [], rest)

/-- The exponent behind its letter. Without digits there is none, which counts as zero. -/
def scanExponent (letter : UInt8) (s : Bytes) : ℤ :=
  if s.head?.map toupper = some letter then
    let s := s.tail
    let negative := s.head? = some 45
    let s := if s.head? = some 45 ∨ s.head? = some 43 then s.tail else s
    let ds := s.takeWhile isdigit
    if negative then -(decimal ds) else decimal ds
  else 0

inductive Scanned where
  | number (negative : Bool) (mantissa base : ℕ) (exponent : ℤ)
  | infinity (negative : Bool)
  | nan (negative : Bool)
  deriving DecidableEq

/-- After the sign: `0x` and hexadecimal digits, or decimal digits, each with a point and an
exponent where there are, or a word. -/
def scanUnsigned (negative : Bool) (s : Bytes) : Option Scanned :=
  let (xs, ys, rest) := scanPoint isxdigit (s.drop 2)
  if (s.take 2).map toupper = ascii "0X" ∧ xs ++ ys ≠ [] then
    some (.number negative (hexadecimal (xs ++ ys)) 2 (scanExponent 80 rest - 4 * ys.length))
  else
    let (xs, ys, rest) := scanPoint isdigit s
    if xs ++ ys ≠ [] then
      some (.number negative (decimal (xs ++ ys)) 10 (scanExponent 69 rest - ys.length))
    else if (s.take 3).map toupper = ascii "INF" then some (.infinity negative)
    else if (s.take 3).map toupper = ascii "NAN" then some (.nan negative)
    else none

def scanFloat (s : Bytes) : Option Scanned :=
  let s := s.dropWhile isspace
  scanUnsigned (s.head? = some 45) (if s.head? = some 45 ∨ s.head? = some 43 then s.tail else s)

/-- Rounded to nearest, this much and more is an infinity. -/
def overflow : ℚ := (2 ^ 54 - 1) * 2 ^ 970

/-- The smallest normal double. -/
def smallest : ℚ := 1 / 2 ^ 1022

/-- Whether `strtod` leaves `errno` alone. For a result below the normal ones the platform
decides. -/
def InRange (reportsUnderflow : ℚ → Bool) : Scanned → Prop
  | .number _ mantissa base exponent =>
    let x : ℚ := mantissa * (base : ℚ) ^ exponent
    x < overflow ∧ ¬(0 < x ∧ x < smallest ∧ reportsUnderflow x = true)
  | .infinity _ | .nan _ => True

instance (reportsUnderflow : ℚ → Bool) (x : Scanned) :
    Decidable (InRange reportsUnderflow x) := by
  cases x <;> unfold InRange <;> infer_instance

theorem scanPoint_nonempty {digit : UInt8 → Bool} {d : UInt8} (hd : digit d = true)
    (s : Bytes) : (scanPoint digit (d :: s)).1 ++ (scanPoint digit (d :: s)).2.1 ≠ [] := by
  unfold scanPoint
  dsimp only
  split <;> simp [hd]

theorem scanUnsigned_digit {d : UInt8} (hd : isdigit d = true) (negative : Bool) (s : Bytes) :
    ∃ mantissa base exponent,
      scanUnsigned negative (d :: s) = some (.number negative mantissa base exponent) := by
  unfold scanUnsigned
  dsimp only
  split
  · exact ⟨_, _, _, rfl⟩
  · rw [if_pos (scanPoint_nonempty hd s)]
    exact ⟨_, _, _, rfl⟩

/-- A text that starts with an integer starts with a floating-point number. -/
theorem scanFloat_text (x : Numeral) : ∃ mantissa base exponent,
    scanFloat x.text = some (.number (x.sign = [45]) mantissa base exponent) := by
  obtain ⟨d, ds, hx, hd⟩ := x.exists_digit
  unfold scanFloat
  dsimp only
  rw [x.dropWhile_text, x.tail_sign rfl, decide_eq_decide.mpr x.head_minus, hx]
  exact scanUnsigned_digit hd _ (ds ++ x.rest)

example : scanFloat (ascii " -12.5e3z") = some (.number true 125 10 2) := by decide

end FloatText
