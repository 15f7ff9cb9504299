import Mathlib.Data.List.TakeWhile
import Mathlib.Data.Nat.Digits.Defs

/-! # std::string as bytes

A string is its bytes; `c_str()` is what a callee that stops at the first NUL sees.
Letter case is the C locale's, which the program never changes. -/
namespace CppStrings

abbrev Bytes := List UInt8

instance : LawfulBEq Bytes := inferInstance

def ascii (s : String) : Bytes := s.toList.map fun c => c.toNat.toUInt8

def cStr (s : Bytes) : Bytes := s.takeWhile (· ≠ 0)

theorem cStr_eq_self {s : Bytes} (h : 0 ∉ s) : cStr s = s := by
  rw [cStr, List.takeWhile_eq_self_iff]
  intro c hm
  rw [decide_eq_true_iff]
  rintro rfl
  exact h hm

theorem cStr_eq_self_iff {s : Bytes} : cStr s = s ↔ 0 ∉ s := by
  refine ⟨fun h hm => ?_, cStr_eq_self⟩
  rw [← h] at hm
  simpa [cStr] using List.mem_takeWhile_imp hm

def toupper (c : UInt8) : UInt8 := if 97 ≤ c ∧ c ≤ 122 then c - 32 else c

/-- Both overloads of the source: the string one passes `c_str()` to the other. -/
def upperCaseString (str : Bytes) : Bytes := (cStr str).map toupper

def isspace (c : UInt8) : Bool := c = 32 ∨ (9 ≤ c ∧ c ≤ 13)
def isdigit (c : UInt8) : Bool := 48 ≤ c ∧ c ≤ 57

def decimal (ds : Bytes) : ℕ := ds.foldl (fun n d => 10 * n + (d.toNat - 48)) 0

/-- The number `strtol` and `operator>>` read in base ten: leading white space, a sign,
then the longest run of digits. None when there is no digit. -/
def scanInteger (s : Bytes) : Option ℤ :=
  let s := s.dropWhile isspace
  let negative := s.head? = some 45
  let s := if s.head? = some 45 ∨ s.head? = some 43 then s.tail else s
  let ds := s.takeWhile isdigit
  if ds = [] then none
  else if negative then some (-(decimal ds)) else some (decimal ds)

def naturalText (n : ℕ) : Bytes :=
  if n = 0 then [48] else (Nat.digits 10 n).reverse.map fun d => (48 + d).toUInt8

/-- `to_string` and `operator<<` on a signed integer. -/
def integerText (v : ℤ) : Bytes :=
  if v < 0 then 45 :: naturalText v.natAbs else naturalText v.natAbs

example : upperCaseString (ascii "Begin") = ascii "BEGIN" := by decide

end CppStrings
