import MadSqlite.IntegerRoundTrip

/-! # Reading what has been put

The accessors convert without asking whether the value can be converted: a text goes to `stoi`
and `stod`, which throw, and a blob is read as eight bytes from its start, however many it has.
So what a container can be asked for depends on what was put into it. -/
namespace ContentSafety

open CppStrings ContentValues ContentMap ContentReads DecimalText FloatText FloatConversions
open IntegerRoundTrip Runs

variable (f : Conversions) (build : Build)

/-- No accessor throws, reads outside of what is stored, or casts what cannot be cast. -/
structure EndsNormally (cv : MadContentValues) (key : Bytes) : Prop where
  integer : ∃ v, getAsInteger f.library build cv.impl key = .ok v
  real : ∃ v, getAsReal f.library build cv.impl key = .ok v
  text : ∃ v, getAsText f.library build cv.impl key = .ok v
  blob : ∃ v, getAsBlob cv.impl key = .ok v

/-- The first eight bytes of a blob, the lowest one first. -/
def littleEndian (b : Bytes) : UInt64 := (b.take 8).foldr (fun b w => w <<< 8 ||| b.toUInt64) 0

/-- A real has its integer part in 64 bits; a text of the build without streams starts with
an `int`, and with a double that is in range; a blob has eight bytes, which make a double
with its integer part in 16 bits. -/
def Readable : Value → Prop
  | .int _ => True
  | .real d => Within (-2 ^ 63) (2 ^ 63) d ∨ f.outsideInt64 d ≠ none
  | .text s => build = .android ∨ ∃ x : Numeral, x.text = s ∧ FitsInt x.value ∧
      ∀ y, scanFloat (cStr s) = some y → InRange f.reportsUnderflow y
  | .blob b => 8 ≤ b.length ∧
      (Within 0 (2 ^ 16) (littleEndian b) ∨ f.outsideUInt16 (littleEndian b) ≠ none)

theorem firstWord_long {b : Bytes} (h : 8 ≤ b.length) : firstWord b = .ok (littleEndian b) :=
  if_neg (not_lt.mpr h)

theorem firstWord_short {b : Bytes} (h : ¬8 ≤ b.length) :
    firstWord b = .error .undefinedBehaviour :=
  if_pos (not_le.mp h)

theorem stoi_stod_iff (s : Bytes) :
    ((∃ v, stoi s = .ok v) ∧ ∃ v, f.stod s = .ok v) ↔
      ∃ x : Numeral, x.text = s ∧ FitsInt x.value ∧
        ∀ y, scanFloat (cStr s) = some y → InRange f.reportsUnderflow y := by
  rw [stod_ok_iff]
  constructor
  · rintro ⟨⟨v, hv⟩, y, hy, hr⟩
    obtain ⟨x, hx, hf, -⟩ := stoi_eq_ok.mp hv
    refine ⟨x, hx, hf, fun y' hy' => ?_⟩
    cases hy.symm.trans hy'
    exact hr
  · rintro ⟨x, hx, hf, hr⟩
    refine ⟨⟨_, stoi_eq_ok.mpr ⟨x, hx, hf, rfl⟩⟩, ?_⟩
    have hs : scanInteger (cStr s) = some x.value := by
      rw [scanInteger_cStr, ← hx, scanInteger_text]
    obtain ⟨x', hx', -⟩ := scanInteger_iff.mp hs
    obtain ⟨m, b, e, hy⟩ := scanFloat_text x'
    rw [hx'] at hy
    exact ⟨_, hy, hr _ hy⟩

theorem map_ok_iff {α β : Type} {x : Except CppError α} {g : α → β} :
    (∃ b, x.map g = .ok b) ↔ ∃ a, x = .ok a := by
  cases x with
  | error e => exact iff_of_false (fun ⟨_, h⟩ => nomatch h) fun ⟨_, h⟩ => nomatch h
  | ok a => exact iff_of_true ⟨g a, rfl⟩ ⟨a, rfl⟩

theorem blob_iff (b : Bytes) :
    ((∃ n, integerOf f.library build (.blob b) = .ok n) ∧
        ∃ d, realOf f.library build (.blob b) = .ok d) ↔ Readable f build (.blob b) := by
  rw [Readable, integerOf, realOf]
  by_cases hl : 8 ≤ b.length
  · rw [and_iff_right hl, firstWord_long hl, and_iff_right ⟨_, rfl⟩]
    exact map_ok_iff.trans cast_ok_iff
  · rw [firstWord_short hl]
    refine iff_of_false ?_ fun h => hl h.1
    rintro ⟨⟨n, hn⟩, -⟩
    cases hn

theorem integerOf_realOf_iff (v : Value) :
    ((∃ n, integerOf f.library build v = .ok n) ∧ ∃ d, realOf f.library build v = .ok d) ↔
      Readable f build v := by
  cases v with
  | int n => exact iff_of_true ⟨⟨_, rfl⟩, _, rfl⟩ trivial
  | real d =>
    rw [and_iff_left ⟨d, rfl⟩]
    exact cast_ok_iff
  | text s =>
    cases build with
    | android => exact iff_of_true ⟨⟨_, rfl⟩, _, rfl⟩ (.inl rfl)
    | other =>
      rw [Readable, or_iff_right (by simp)]
      exact stoi_stod_iff f s
  | blob b => exact blob_iff f build b

/-- A key that is absent is read as zero or as nothing, any other one by its value. -/
theorem endsNormally_iff {cv : MadContentValues} {m : Contents} (h : Agrees cv.impl m)
    (key : Bytes) : EndsNormally f build cv key ↔
      ∀ v, m.lookup key = some v → Readable f build v := by
  have htext : ∃ v, getAsText f.library build cv.impl key = .ok v := ⟨_, getAsText_eq _ _ h key⟩
  have hblob : ∃ v, getAsBlob cv.impl key = .ok v := ⟨_, getAsBlob_eq h key⟩
  have hboth : EndsNormally f build cv key ↔
      (∃ v, getAsInteger f.library build cv.impl key = .ok v) ∧
        ∃ v, getAsReal f.library build cv.impl key = .ok v :=
    ⟨fun hn => ⟨hn.integer, hn.real⟩, fun ⟨hi, hr⟩ => ⟨hi, hr, htext, hblob⟩⟩
  rw [hboth, getAsInteger_eq _ _ h, getAsReal_eq _ _ h]
  cases hv : m.lookup key with
  | none => exact iff_of_true ⟨⟨_, rfl⟩, _, rfl⟩ nofun
  | some v =>
    refine (integerOf_realOf_iff f build v).trans ?_
    constructor
    · rintro hr v' ⟨⟩
      exact hr
    · exact fun hr => hr v rfl

/-- The value a call puts, and its key. -/
def put : Call → Option (Bytes × Value)
  | .clear => none
  | .putInteger key value => some (key, .int value)
  | .putReal key value => some (key, .real value)
  | .putString key value => some (key, .text value)
  | .putBlob key value => some (key, .blob value)
  | .putBlobRange key blob sz => some (key, .blob (List.ofFn fun i : Fin sz => blob i))

theorem apply_eq (m : Contents) (call : Call) :
    apply m call = ((put call).map fun q => m.insert q.1 q.2).getD ∅ := by
  cases call <;> rfl

def PutsReadable (call : Call) : Prop := ∀ key v, put call = some (key, v) → Readable f build v

theorem readable_apply {m : Contents} (call : Call)
    (hm : ∀ key v, m.lookup key = some v → Readable f build v) :
    (∀ key v, (apply m call).lookup key = some v → Readable f build v) ↔
      PutsReadable f build call := by
  rw [apply_eq, PutsReadable]
  cases put call with
  | none =>
    refine iff_of_true (fun key v hv => ?_) fun key v hv => nomatch hv
    cases hv
  | some q =>
    dsimp only [Option.map_some, Option.getD_some]
    constructor
    · rintro hall key v ⟨⟩
      exact hall key v (Finmap.lookup_insert m)
    · intro hq key v hv
      by_cases he : key = q.1
      · subst he
        rw [Finmap.lookup_insert] at hv
        exact hq q.1 v (by rw [← Option.some.inj hv])
      · rw [Finmap.lookup_insert_of_ne m he] at hv
        exact hm key v hv

/-- In every run all accessors end normally for all keys in each state exactly when only
readable values are put; and in each state a key reads normally exactly when the value it
has is readable. -/
theorem ends_normally_iff (calls : List Call) :
    (AllStates next (fun cv => ∀ key, EndsNormally f build cv key) .new calls ↔
        ∀ call ∈ calls, PutsReadable f build call) ∧
      ∀ key, EndsNormally f build (run next .new calls) key ↔
        ∀ v, (run apply ∅ calls).lookup key = some v → Readable f build v := by
  have hcalls : Agrees (run next .new calls).impl (run apply ∅ calls) :=
    run_agrees empty_agrees calls
  refine ⟨?_, endsNormally_iff f build hcalls⟩
  have hstep : ∀ cv call, (∃ m, Agrees (MadContentValues.impl cv) m) →
      (∀ key, EndsNormally f build cv key) →
        ((∀ key, EndsNormally f build (next cv call) key) ↔ PutsReadable f build call) := by
    rintro cv call ⟨m, ha⟩ hn
    rw [← readable_apply f build call fun key => (endsNormally_iff f build ha key).mp (hn key)]
    exact forall_congr' (endsNormally_iff f build (next_agrees ha call))
  have hnew : ∀ key, EndsNormally f build .new key := by
    intro key
    rw [endsNormally_iff f build empty_agrees]
    intro v hv
    cases hv
  rw [allStates_iff_allSteps (fun cv call ⟨m, ha⟩ => ⟨apply m call, next_agrees ha call⟩) hstep
    ⟨∅, empty_agrees⟩ hnew]
  exact allSteps_const

/-- Reading an empty blob as a number reads eight bytes that are not there. -/
theorem emptyBlob_outside : ¬AllStates next (fun cv => ∀ key, EndsNormally plain .android cv key)
    .new [.putBlob (ascii "k") []] := by
  intro h
  have ha : Agrees (next .new (.putBlob (ascii "k") [])).impl
      (Finmap.insert (ascii "k") (.blob []) ∅) := next_agrees empty_agrees _
  have hn := (endsNormally_iff plain .android ha (ascii "k")).mp (h.last (ascii "k"))
  exact absurd (hn (.blob []) (Finmap.lookup_insert ∅)).1 (by decide)

end ContentSafety
