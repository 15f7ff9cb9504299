import MadSqlite.ContentValues
import MadSqlite.FloatFormat
import MadSqlite.FloatText

/-! # The conversions of double

The language defines a cast to an integer type for the doubles whose integer part the type can
hold, and `stod` throws where `strtod` finds no number or sets `errno`. How numbers are rounded
and printed is left open. -/
namespace FloatConversions

open CppStrings ContentValues FloatFormat FloatText

/-- What a platform has of its own. It may give a cast that the language leaves undefined a
value; where it does not, there is none. -/
structure Conversions where
  round : Scanned → Double
  reportsUnderflow : ℚ → Bool
  outsideInt64 : Double → Option Int64
  outsideUInt16 : Double → Option UInt16
  ofInt64 : Int64 → Double
  ofUInt16 : UInt16 → Double
  toString : Double → Bytes
  streamOut : Double → Bytes
  streamIn : Bytes → Option Double

/-- The truncated value is one of these. -/
def Within (low high : ℤ) (d : Double) : Prop := ∃ n, truncate d = some n ∧ low ≤ n ∧ n < high

/-- A cast to an integer type that holds the numbers from `low` to below `high`. -/
def cast {α : Type} (low high : ℤ) (ofInt : ℤ → α) (outside : Double → Option α) (d : Double) :
    Except CppError α :=
  match (truncate d).filter fun n => low ≤ n ∧ n < high with
  | some n => .ok (ofInt n)
  | none =>
    match outside d with
    | some a => .ok a
    | none => .error .undefinedBehaviour

namespace Conversions

variable (f : Conversions)

def stod (str : Bytes) : Except CppError Double :=
  match scanFloat (cStr str) with
  | none => .error .invalidArgument
  | some x => if InRange f.reportsUnderflow x then .ok (f.round x) else .error .outOfRange

def library : FloatLibrary where
  toInt64 := cast (-2 ^ 63) (2 ^ 63) Int64.ofInt f.outsideInt64
  toUInt16 := cast 0 (2 ^ 16) (fun n => UInt16.ofNat n.toNat) f.outsideUInt16
  ofInt64 := f.ofInt64
  ofUInt16 := f.ofUInt16
  toString := f.toString
  streamOut := f.streamOut
  stod := f.stod
  streamIn := f.streamIn

end Conversions

theorem cast_ok_iff {α : Type} {low high : ℤ} {ofInt : ℤ → α} {outside : Double → Option α}
    {d : Double} : (∃ a, cast low high ofInt outside d = .ok a) ↔
      Within low high d ∨ outside d ≠ none := by
  unfold cast Within
  cases hn : (truncate d).filter fun n => low ≤ n ∧ n < high with
  | some n =>
    rw [Option.filter_eq_some_iff] at hn
    exact iff_of_true ⟨_, rfl⟩ (.inl ⟨n, hn.1, of_decide_eq_true hn.2⟩)
  | none =>
    rw [Option.filter_eq_none_iff] at hn
    have hno : ¬∃ n, truncate d = some n ∧ low ≤ n ∧ n < high := by
      rintro ⟨n, ht, hb⟩
      exact hn n ht (decide_eq_true hb)
    rw [or_iff_right hno]
    cases outside d with
    | some a => exact iff_of_true ⟨a, rfl⟩ (Option.some_ne_none a)
    | none => exact iff_of_false (fun ⟨_, h⟩ => nomatch h) (not_not.mpr rfl)

theorem stod_ok_iff {f : Conversions} {str : Bytes} : (∃ d, f.stod str = .ok d) ↔
    ∃ x, scanFloat (cStr str) = some x ∧ InRange f.reportsUnderflow x := by
  unfold Conversions.stod
  cases hs : scanFloat (cStr str) with
  | none => exact iff_of_false (fun ⟨_, h⟩ => nomatch h) fun ⟨_, h, _⟩ => nomatch h
  | some x =>
    dsimp only
    split
    · next hr => exact iff_of_true ⟨_, rfl⟩ ⟨x, rfl, hr⟩
    · next hr =>
      refine iff_of_false (fun ⟨_, h⟩ => nomatch h) ?_
      rintro ⟨y, hy, hr'⟩
      cases hy
      exact hr hr'

/-- A platform on which no conversion gives anything but zero. -/
def plain : Conversions where
  round _ := 0
  reportsUnderflow _ := true
  outsideInt64 _ := none
  outsideUInt16 _ := none
  ofInt64 _ := 0
  ofUInt16 _ := 0
  toString _ := []
  streamOut _ := []
  streamIn _ := none

end FloatConversions
