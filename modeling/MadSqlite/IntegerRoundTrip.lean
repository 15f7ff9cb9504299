import MadSqlite.ContentReads
import MadSqlite.FloatConversions

/-! # Integers as text

A 64-bit integer is written as text by `getAsText` and read from it by `getAsInteger`. On
Android a stream reads it, in the other build `stoi` does, which knows `int` only and throws
where there is no number or a larger one. -/
namespace IntegerRoundTrip

open CppStrings ContentValues ContentMap ContentReads DecimalText FloatConversions Runs

def FitsInt (n : ℤ) : Prop := -2 ^ 31 ≤ n ∧ n < 2 ^ 31

instance (n : ℤ) : Decidable (FitsInt n) := inferInstanceAs (Decidable (_ ∧ _))

/-- `putInteger`, `getAsText`, and `getAsInteger` after the text is put back. -/
def thereAndBack (lib : FloatLibrary) (build : Build) (cv : MadContentValues) (key : Bytes)
    (v : Int64) : Except CppError Int64 := do
  let cv := cv.putInteger key v
  let text ← getAsText lib build cv.impl key
  getAsInteger lib build (cv.putString key text).impl key

def readText (lib : FloatLibrary) (build : Build) (cv : MadContentValues) (key text : Bytes) :
    Except CppError Int64 :=
  getAsInteger lib build (cv.putString key text).impl key

def ComesBack (lib : FloatLibrary) (cv : MadContentValues) (key : Bytes) (v : Int64) : Prop :=
  ∀ build, thereAndBack lib build cv key v = .ok v

/-- The builds read the same number and neither throws. -/
def SameNumber (lib : FloatLibrary) (cv : MadContentValues) (key text : Bytes) : Prop :=
  ∃ n, ∀ build, readText lib build cv key text = .ok n

theorem stoi_eq_ok {str : Bytes} {v : Int64} : stoi str = .ok v ↔
    ∃ x : Numeral, x.text = str ∧ FitsInt x.value ∧ v = Int64.ofInt x.value := by
  unfold stoi
  rw [scanInteger_cStr]
  cases hs : scanInteger str with
  | none =>
    refine iff_of_false nofun ?_
    rintro ⟨x, rfl, -⟩
    simp [scanInteger_text x] at hs
  | some n =>
    obtain ⟨x, hx, rfl⟩ := scanInteger_iff.mp hs
    have huniq : ∀ y : Numeral, y.text = str → y.value = x.value := fun y hy =>
      Option.some.inj ((scanInteger_iff.mpr ⟨y, hy, rfl⟩).symm.trans hs)
    dsimp only
    split
    · next hf =>
      constructor
      · intro he
        exact ⟨x, hx, hf, (Except.ok.inj he).symm⟩
      · rintro ⟨y, hy, -, rfl⟩
        rw [huniq y hy]
    · next hf =>
      refine iff_of_false nofun ?_
      rintro ⟨y, hy, hy', -⟩
      exact hf (huniq y hy ▸ hy')

theorem fitsInt_toInt {n : ℤ} (h : FitsInt n) : (Int64.ofInt n).toInt = n := by
  obtain ⟨hl, hu⟩ := h
  exact Int64.toInt_ofInt_of_le (by omega) (by omega)

/-- A number of 64 bits is read from a stream as it is. -/
theorem stringToInt_eq {text : Bytes} {v : Int64} (hs : scanInteger text = some v.toInt) :
    stringToInt text = v := by
  rw [stringToInt, hs]
  simp

theorem stringToInt_integerText (v : Int64) : stringToInt (integerText v.toInt) = v :=
  stringToInt_eq (scanInteger_integerText v.toInt)

theorem stringToInt_text {x : Numeral} (hf : FitsInt x.value) :
    stringToInt x.text = Int64.ofInt x.value := by
  refine stringToInt_eq ?_
  rw [scanInteger_text, fitsInt_toInt hf]

section Reads

variable (lib : FloatLibrary) {cv : MadContentValues} {m : Contents} (h : Agrees cv.impl m)
  (key : Bytes)

include h

theorem readText_eq (build : Build) (text : Bytes) :
    readText lib build cv key text = integerOf lib build (.text text) := by
  have hput : Agrees (cv.putString key text).impl (m.insert key (.text text)) :=
    next_agrees h (.putString key text)
  rw [readText, getAsInteger_eq lib build hput, Finmap.lookup_insert]
  rfl

theorem readText_android (text : Bytes) :
    readText lib .android cv key text = .ok (stringToInt text) :=
  readText_eq lib h key .android text

theorem readText_other (text : Bytes) : readText lib .other cv key text = stoi text :=
  readText_eq lib h key .other text

theorem thereAndBack_eq (build : Build) (v : Int64) : thereAndBack lib build cv key v =
    readText lib build cv key (integerText v.toInt) := by
  have hput : Agrees (cv.putInteger key v).impl (m.insert key (.int v)) :=
    next_agrees h (.putInteger key v)
  have ht : getAsText lib build (cv.putInteger key v).impl key = .ok (integerText v.toInt) := by
    rw [getAsText_eq lib build hput, Finmap.lookup_insert]
    rfl
  rw [readText_eq lib h, ← readText_eq lib hput, thereAndBack, ht]
  rfl

/-- On Android every integer comes back. -/
theorem comesBack_android (v : Int64) : thereAndBack lib .android cv key v = .ok v := by
  rw [thereAndBack_eq lib h, readText_android lib h, stringToInt_integerText]

theorem comesBack_other (v : Int64) :
    thereAndBack lib .other cv key v = .ok v ↔ FitsInt v.toInt := by
  rw [thereAndBack_eq lib h, readText_other lib h, stoi_eq_ok]
  constructor
  · rintro ⟨x, hx, hf, rfl⟩
    rwa [fitsInt_toInt hf]
  · intro hf
    refine ⟨numeral v.toInt, numeral_text _, ?_, ?_⟩
    · rwa [numeral_value]
    · rw [numeral_value, Int64.ofInt_toInt]

theorem sameNumber_iff (text : Bytes) : SameNumber lib cv key text ↔
    ∃ x : Numeral, x.text = text ∧ FitsInt x.value := by
  constructor
  · rintro ⟨n, hn⟩
    have ho := hn .other
    rw [readText_other lib h, stoi_eq_ok] at ho
    obtain ⟨x, hx, hf, -⟩ := ho
    exact ⟨x, hx, hf⟩
  · rintro ⟨x, rfl, hf⟩
    refine ⟨Int64.ofInt x.value, fun build => ?_⟩
    cases build with
    | android => rw [readText_android lib h, stringToInt_text hf]
    | other => rw [readText_other lib h, stoi_eq_ok.mpr ⟨x, rfl, hf, rfl⟩]

end Reads

/-- An integer comes back as it was on both builds exactly when it is in the range of `int`,
and a text reads as the same number on both exactly when it starts with a number in that
range. -/
theorem integer_text_iff (lib : FloatLibrary) (calls : List Call) (key : Bytes) :
    (∀ v : Int64, ComesBack lib (run next .new calls) key v ↔ FitsInt v.toInt) ∧
      ∀ text, SameNumber lib (run next .new calls) key text ↔
        ∃ x : Numeral, x.text = text ∧ FitsInt x.value := by
  have h : Agrees (run next .new calls).impl (run apply ∅ calls) := run_agrees empty_agrees calls
  refine ⟨fun v => ⟨fun hb => (comesBack_other lib h key v).mp (hb .other), fun hf build => ?_⟩,
    sameNumber_iff lib h key⟩
  cases build with
  | android => exact comesBack_android lib h key v
  | other => exact (comesBack_other lib h key v).mpr hf

theorem wide_throws : ¬ComesBack plain.library .new (ascii "k") 2147483648 := fun h =>
  absurd ((comesBack_other plain.library empty_agrees (ascii "k") 2147483648).mp (h .other))
    (by decide)

end IntegerRoundTrip
