import MadSqlite.ContentValues
import MadSqlite.Runs
import Mathlib.Data.Finmap

/-! # The container is a finite map

What the three containers of `MadContentValues::Impl` stand for: a finite map from keys
to typed values, on which a put replaces and a clear empties. -/
namespace ContentMap

open CppStrings ContentValues Runs

inductive Value where
  | int (v : Int64)
  | real (v : Double)
  | text (v : Bytes)
  | blob (v : Bytes)
  deriving DecidableEq

def Value.type : Value → SqlDataType
  | .int _ => .int
  | .real _ => .real
  | .text _ => .text
  | .blob _ => .blob

abbrev Contents := Finmap fun _ : Bytes => Value

inductive Call where
  | clear
  | putInteger (key : Bytes) (value : Int64)
  | putReal (key : Bytes) (value : Double)
  | putString (key value : Bytes)
  | putBlob (key value : Bytes)
  | putBlobRange (key : Bytes) (blob : ℕ → UInt8) (sz : ℕ)

/-- The abstract container. -/
def apply (m : Contents) : Call → Contents
  | .clear => ∅
  | .putInteger key value => m.insert key (.int value)
  | .putReal key value => m.insert key (.real value)
  | .putString key value => m.insert key (.text value)
  | .putBlob key value => m.insert key (.blob value)
  | .putBlobRange key blob sz => m.insert key (.blob (List.ofFn fun i : Fin sz => blob i))

def next (cv : MadContentValues) : Call → MadContentValues
  | .clear => cv.clear
  | .putInteger key value => cv.putInteger key value
  | .putReal key value => cv.putReal key value
  | .putString key value => cv.putString key value
  | .putBlob key value => cv.putBlob key value
  | .putBlobRange key blob sz => cv.putBlobRange key blob sz

/-- The same calls on the containers themselves, where a lookup may throw. -/
def step (cv : Impl) : Call → Except CppError Impl
  | .clear => .ok (ContentValues.clear cv)
  | .putInteger key value => putData cv key (.ofInt value)
  | .putReal key value => putData cv key (.ofReal value)
  | .putString key value => putData cv key (.ofText value)
  | .putBlob key value => putData cv key (.ofBlob value)
  | .putBlobRange key blob sz => putData cv key (.ofBlob (blobRange blob sz))

def Call.key : Call → Option Bytes
  | .clear => none
  | .putInteger key _ | .putReal key _ | .putString key _ | .putBlob key _
  | .putBlobRange key _ _ => some key

/-- The accessor of a value's own type returns it. -/
def Value.ReadBack (lib : FloatLibrary) (build : Build) (cv : Impl) (key : Bytes) :
    Value → Prop
  | .int v => getAsInteger lib build cv key = .ok v
  | .real v => getAsReal lib build cv key = .ok v
  | .text v => getAsText lib build cv key = .ok v
  | .blob v => getAsBlob cv key = .ok v

structure Represents (cv : Impl) (m : Contents) : Prop where
  wellFormed : WellFormed cv
  keys : ∀ o, (keys o cv).Nodup ∧ ∀ key, key ∈ keys o cv ↔ key ∈ m
  isEmpty : isEmpty cv = true ↔ m = ∅
  containsKey : ∀ key, containsKey cv key = true ↔ key ∈ m
  typeForKey : ∀ key, typeForKey cv key = .ok (((m.lookup key).map Value.type).getD .none)
  value : ∀ lib build key v, m.lookup key = some v → v.ReadBack lib build cv key

def Value.data : Value → Data
  | .int v => .ofInt v
  | .real v => .ofReal v
  | .text v => .ofText v
  | .blob v => .ofBlob v

/-- Every lookup in the containers has the outcome of the lookup in the map. -/
structure Agrees (cv : Impl) (m : Contents) : Prop where
  wellFormed : WellFormed cv
  getData : ∀ key, getData cv key =
    match m.lookup key with
    | some v => .ok v.data
    | none => .error .outOfRange

theorem empty_agrees : Agrees .empty ∅ := ⟨empty_wellFormed, fun _ => rfl⟩

theorem Agrees.mem {cv : Impl} {m : Contents} (h : Agrees cv m) (key : Bytes) :
    key ∈ cv._keys ↔ key ∈ m := by
  have hg := h.getData key
  constructor
  · intro hk
    obtain ⟨i, d, -, -, hd⟩ := getData_ok h.wellFormed hk
    rw [Finmap.mem_iff]
    cases hm : m.lookup key with
    | some v => exact ⟨v, rfl⟩
    | none => simp [hd, hm] at hg
  · intro hk
    obtain ⟨v, hv⟩ := Finmap.mem_iff.mp hk
    by_contra hn
    simp [hv, getData_absent h.wellFormed hn] at hg

theorem Agrees.put {cv cv' : Impl} {m : Contents} (h : Agrees cv m) {key : Bytes} (v : Value)
    (hp : putData cv key v.data = .ok cv') : Agrees cv' (m.insert key v) := by
  refine ⟨putData_wellFormed h.wellFormed hp, fun key' => ?_⟩
  rw [getData_putData h.wellFormed hp]
  split
  · next he => subst he; simp
  · next hne => rw [h.getData, Finmap.lookup_insert_of_ne m hne]

/-- No call throws, and the class does what the containers do. -/
theorem step_next (cv : MadContentValues) (call : Call) :
    step cv.impl call = .ok (next cv call).impl := by
  cases call with
  | clear => rfl
  | putInteger key value => exact cv.putData_spec key _
  | putReal key value => exact cv.putData_spec key _
  | putString key value => exact cv.putData_spec key _
  | putBlob key value => exact cv.putData_spec key _
  | putBlobRange key blob sz => exact cv.putData_spec key _

theorem blobRange_eq (blob : ℕ → UInt8) (sz : ℕ) :
    blobRange blob sz = List.ofFn fun i : Fin sz => blob i :=
  List.ext_getElem (by simp [blobRange]) (by simp [blobRange])

theorem next_agrees {cv : MadContentValues} {m : Contents} (h : Agrees cv.impl m)
    (call : Call) : Agrees (next cv call).impl (apply m call) := by
  have hs := step_next cv call
  cases call with
  | clear => exact empty_agrees
  | putInteger key value => exact h.put (.int value) hs
  | putReal key value => exact h.put (.real value) hs
  | putString key value => exact h.put (.text value) hs
  | putBlob key value => exact h.put (.blob value) hs
  | putBlobRange key blob sz =>
    rw [step, blobRange_eq] at hs
    exact h.put (.blob _) hs

theorem run_agrees {cv : MadContentValues} {m : Contents} (h : Agrees cv.impl m)
    (calls : List Call) : Agrees (run next cv calls).impl (run apply m calls) := by
  induction calls generalizing cv m with
  | nil => exact h
  | cons call calls ih => exact ih (next_agrees h call)

theorem foldlM_step (cv : MadContentValues) (calls : List Call) :
    calls.foldlM step cv.impl = .ok (run next cv calls).impl := by
  induction calls generalizing cv with
  | nil => rfl
  | cons call calls ih =>
    rw [List.foldlM_cons, step_next]
    exact ih (next cv call)

theorem eq_empty_iff {m : Contents} : m = ∅ ↔ ∀ key, key ∉ m := by
  constructor
  · rintro rfl key
    exact Finmap.notMem_empty
  · intro hn
    apply Finmap.ext_lookup
    intro key
    rw [Finmap.lookup_eq_none.mpr (hn key), Finmap.lookup_empty]

theorem Agrees.readBack {cv : Impl} {m : Contents} (h : Agrees cv m) (lib : FloatLibrary)
    (build : Build) {key : Bytes} {v : Value} (hv : m.lookup key = some v) :
    v.ReadBack lib build cv key := by
  have hk := (h.mem key).mpr (Finmap.mem_of_lookup_eq_some hv)
  have hc : containsKey cv key = true := by simpa [containsKey] using hk
  have hg := h.getData key
  rw [hv] at hg
  cases v with
  | int v => simp [Value.ReadBack, getAsInteger, hc, hg, Value.data, Data.ofInt, bind, Except.bind]
  | real v => simp [Value.ReadBack, getAsReal, hc, hg, Value.data, Data.ofReal, bind, Except.bind]
  | text v => simp [Value.ReadBack, getAsText, hc, hg, Value.data, Data.ofText, bind, Except.bind]
  | blob v => simp [Value.ReadBack, getAsBlob, hc, hg, Value.data, Data.ofBlob, Except.map]

theorem Agrees.represents {cv : Impl} {m : Contents} (h : Agrees cv m) : Represents cv m := by
  have hmem := h.mem
  constructor
  · exact h.wellFormed
  · exact fun o => ⟨(o.perm cv._keys).nodup_iff.mpr h.wellFormed.nodup,
      fun key => mem_keys.trans (hmem key)⟩
  · have hempty : isEmpty cv = true ↔ ∀ key, key ∉ cv._keys := by
      simp [isEmpty, List.eq_nil_iff_forall_not_mem]
    rw [hempty, eq_empty_iff]
    exact forall_congr' fun key => not_congr (hmem key)
  · intro key
    rw [← hmem, containsKey, decide_eq_true_iff]
  · intro key
    cases hv : m.lookup key with
    | none =>
      have hn : key ∉ cv._keys := fun hk => Finmap.lookup_eq_none.mp hv ((hmem key).mp hk)
      simp [typeForKey, containsKey, hn]
    | some v =>
      have hk := (hmem key).mpr (Finmap.mem_of_lookup_eq_some hv)
      have hg := h.getData key
      rw [hv] at hg
      cases v <;> simp [typeForKey, containsKey, hk, hg, Value.data, Value.type, Except.map,
        Data.ofInt, Data.ofReal, Data.ofText, Data.ofBlob]
  · exact fun lib build key v hv => h.readBack lib build hv

theorem next_of_ne {cv : MadContentValues} {call : Call} {key key' : Bytes}
    (hk : call.key = some key) (hne : key' ≠ key) :
    getData (next cv call).impl key' = getData cv.impl key' := by
  have hs := step_next cv call
  cases call with
  | clear => cases hk
  | putInteger k value | putReal k value | putString k value | putBlob k value
  | putBlobRange k blob sz =>
    cases hk
    rw [getData_putData cv.wellFormed hs, if_neg hne]

/-- After any calls the container is the finite map of these calls. None of them throws,
and a further put leaves what the other keys hold as it is. -/
theorem represents_calls (calls : List Call) :
    calls.foldlM step .empty = .ok (run next .new calls).impl ∧
      Represents (run next .new calls).impl (run apply ∅ calls) ∧
      ∀ call key key', call.key = some key → key' ≠ key →
        getData (next (run next .new calls) call).impl key' =
          getData (run next .new calls).impl key' :=
  ⟨foldlM_step .new calls, (run_agrees empty_agrees calls).represents,
    fun _ _ _ hk hne => next_of_ne hk hne⟩

end ContentMap
