import MadSqlite.CppStrings
import Mathlib.Logic.Function.Basic
import Mathlib.Data.List.Perm.Basic

/-! # The key-value container of an insert

`_keys`, `_values` and `_dataMap` as the source has them: a set of keys, a vector of
data and a map from keys to positions in the vector. A map lookup that throws and an
index outside a vector are errors of the model, so that their absence can be proved. -/
namespace ContentValues

open CppStrings

abbrev Double := UInt64

inductive CppError where
  | outOfRange
  | invalidArgument
  | undefinedBehaviour
  deriving DecidableEq, Repr

/-- The conversions of `double` that the language and its library provide. A cast is
undefined when the integer type cannot hold the truncated value. -/
structure FloatLibrary where
  toInt64 : Double → Except CppError Int64
  toUInt16 : Double → Except CppError UInt16
  ofInt64 : Int64 → Double
  ofUInt16 : UInt16 → Double
  toString : Double → Bytes
  streamOut : Double → Bytes
  stod : Bytes → Except CppError Double
  streamIn : Bytes → Option Double

inductive Build where
  | android
  | other
  deriving DecidableEq, Repr

inductive SqlDataType where
  | none | int | real | text | blob
  deriving DecidableEq, Repr

/-- Each constructor sets its own member and the type. The numbers it leaves
uninitialised are zero here; no accessor reads them. -/
structure Data where
  dataType : SqlDataType
  dataBlob : Bytes := []
  dataReal : Double := 0
  dataInt : Int64 := 0
  dataText : Bytes := []
  deriving DecidableEq

def Data.ofInt (v : Int64) : Data := { dataType := .int, dataInt := v }
def Data.ofReal (v : Double) : Data := { dataType := .real, dataReal := v }
def Data.ofText (v : Bytes) : Data := { dataType := .text, dataText := v }
def Data.ofBlob (v : Bytes) : Data := { dataType := .blob, dataBlob := v }

structure Impl where
  _keys : List Bytes
  _values : List Data
  _dataMap : Bytes → Option ℕ

def Impl.empty : Impl := ⟨[], [], fun _ => none⟩

/-- An order in which `unordered_set` may enumerate what was inserted since the last
clear. It may depend on the history, so every call of an insert has an order of its own. -/
structure HashOrder where
  enum : List Bytes → List Bytes
  perm : ∀ l, (enum l).Perm l

def HashOrder.insertion : HashOrder := ⟨id, fun _ => List.Perm.refl _⟩

def keys (o : HashOrder) (cv : Impl) : List Bytes := o.enum cv._keys

def isEmpty (cv : Impl) : Bool := cv._keys.length ≤ 0

def containsKey (cv : Impl) (key : Bytes) : Bool := key ∈ cv._keys

def getData (cv : Impl) (key : Bytes) : Except CppError Data :=
  match cv._dataMap key with
  | none => .error .outOfRange
  | some i =>
    match cv._values[i]? with
    | none => .error .undefinedBehaviour
    | some d => .ok d

def typeForKey (cv : Impl) (key : Bytes) : Except CppError SqlDataType :=
  if containsKey cv key then (getData cv key).map Data.dataType else .ok .none

def clear (_ : Impl) : Impl := .empty

/-- `emplace` on the key set and on the map does not replace an existing entry. -/
def putData (cv : Impl) (key : Bytes) (data : Data) : Except CppError Impl :=
  if containsKey cv key then
    match cv._dataMap key with
    | none => .error .outOfRange
    | some i =>
      if i < cv._values.length then .ok { cv with _values := cv._values.set i data }
      else .error .undefinedBehaviour
  else
    .ok { _keys := cv._keys ++ [key]
          _values := cv._values ++ [data]
          _dataMap := if (cv._dataMap key).isSome then cv._dataMap
            else Function.update cv._dataMap key (some cv._values.length) }

def stringToInt (str : Bytes) : Int64 :=
  match scanInteger str with
  | none => 0
  | some v => if v = (Int64.ofInt v).toInt then Int64.ofInt v else 0

def stoi (str : Bytes) : Except CppError Int64 :=
  match scanInteger (cStr str) with
  | none => .error .invalidArgument
  | some v => if -2 ^ 31 ≤ v ∧ v < 2 ^ 31 then .ok (Int64.ofInt v) else .error .outOfRange

def stringToDouble (lib : FloatLibrary) (str : Bytes) : Double :=
  (lib.streamIn str).getD 0

def ntohs (v : UInt16) : UInt16 := v <<< 8 ||| v >>> 8

/-- The eight bytes at `&dataBlob[0]` as a little-endian word. -/
def firstWord (blob : Bytes) : Except CppError UInt64 :=
  if blob.length < 8 then .error .undefinedBehaviour
  else .ok ((blob.take 8).foldr (fun b w => w <<< 8 ||| b.toUInt64) 0)

def getAsInteger (lib : FloatLibrary) (build : Build) (cv : Impl) (key : Bytes) :
    Except CppError Int64 :=
  if containsKey cv key then do
    let data ← getData cv key
    match data.dataType with
    | .int => .ok data.dataInt
    | .real => lib.toInt64 data.dataReal
    | .text =>
      match build with
      | .android => .ok (stringToInt data.dataText)
      | .other => stoi data.dataText
    | .blob => do
      let w ← firstWord data.dataBlob
      .ok (Int64.ofInt (ntohs w.toUInt16).toNat)
    | .none => .ok 0
  else .ok 0

def getAsReal (lib : FloatLibrary) (build : Build) (cv : Impl) (key : Bytes) :
    Except CppError Double :=
  if containsKey cv key then do
    let data ← getData cv key
    match data.dataType with
    | .int => .ok (lib.ofInt64 data.dataInt)
    | .real => .ok data.dataReal
    | .text =>
      match build with
      | .android => .ok (stringToDouble lib data.dataText)
      | .other => lib.stod data.dataText
    | .blob => do
      let w ← firstWord data.dataBlob
      let v ← lib.toUInt16 w
      .ok (lib.ofUInt16 (ntohs v))
    | .none => .ok 0
  else .ok 0

def getAsText (lib : FloatLibrary) (build : Build) (cv : Impl) (key : Bytes) :
    Except CppError Bytes :=
  if containsKey cv key then do
    let data ← getData cv key
    match data.dataType with
    | .int => .ok (integerText data.dataInt.toInt)
    | .real =>
      match build with
      | .android => .ok (lib.streamOut data.dataReal)
      | .other => .ok (lib.toString data.dataReal)
    | .text => .ok data.dataText
    | .blob => .ok data.dataBlob
    | .none => .ok []
  else .ok []

def getAsBlob (cv : Impl) (key : Bytes) : Except CppError Bytes :=
  if containsKey cv key then (getData cv key).map Data.dataBlob else .ok []

/-- The map is a bijection between the keys and the positions of the vector. -/
structure WellFormed (cv : Impl) : Prop where
  nodup : cv._keys.Nodup
  domain : ∀ k, k ∈ cv._keys ↔ ∃ i, cv._dataMap k = some i
  bound : ∀ k i, cv._dataMap k = some i → i < cv._values.length
  injective : ∀ k l i, cv._dataMap k = some i → cv._dataMap l = some i → k = l
  surjective : ∀ i, i < cv._values.length → ∃ k, cv._dataMap k = some i

theorem empty_wellFormed : WellFormed .empty := by
  constructor <;> simp [Impl.empty]

theorem getData_ok {cv : Impl} (h : WellFormed cv) {key : Bytes} (hk : key ∈ cv._keys) :
    ∃ i d, cv._dataMap key = some i ∧ cv._values[i]? = some d ∧ getData cv key = .ok d := by
  obtain ⟨i, hi⟩ := (h.domain key).mp hk
  have hd := List.getElem?_eq_getElem (h.bound key i hi)
  exact ⟨i, _, hi, hd, by simp [getData, hi, hd]⟩

theorem putData_present {cv : Impl} (h : WellFormed cv) {key : Bytes} (data : Data)
    (hk : key ∈ cv._keys) :
    ∃ i, cv._dataMap key = some i ∧
      putData cv key data = .ok { cv with _values := cv._values.set i data } := by
  obtain ⟨i, hi⟩ := (h.domain key).mp hk
  exact ⟨i, hi, by simp [putData, containsKey, hk, hi, h.bound key i hi]⟩

theorem putData_absent {cv : Impl} (h : WellFormed cv) {key : Bytes} (data : Data)
    (hk : key ∉ cv._keys) :
    putData cv key data = .ok ⟨cv._keys ++ [key], cv._values ++ [data],
      Function.update cv._dataMap key (some cv._values.length)⟩ := by
  have hn : cv._dataMap key = none := by
    rw [← Option.not_isSome_iff_eq_none, Option.isSome_iff_exists, ← h.domain]
    exact hk
  simp [putData, containsKey, hk, hn]

theorem set_wellFormed {cv : Impl} (h : WellFormed cv) (i : ℕ) (data : Data) :
    WellFormed { cv with _values := cv._values.set i data } := by
  rcases h with ⟨hn, hd, hb, hi, hs⟩
  exact ⟨hn, hd, by simpa using hb, hi, by simpa using hs⟩

theorem append_wellFormed {cv : Impl} (h : WellFormed cv) {key : Bytes} (data : Data)
    (hk : key ∉ cv._keys) :
    WellFormed ⟨cv._keys ++ [key], cv._values ++ [data],
      Function.update cv._dataMap key (some cv._values.length)⟩ := by
  constructor
  · simpa [List.nodup_append, h.nodup] using fun k hm (he : k = key) => hk (he ▸ hm)
  · intro k
    by_cases he : k = key
    · subst he; simp
    · simp [he, h.domain k]
  · intro k i hi
    by_cases he : k = key
    · subst he; simp at hi; simp [hi]
    · have := h.bound k i (by simpa [he] using hi)
      simp; omega
  · intro k l i hk hl
    by_cases he : k = key <;> by_cases hf : l = key
    · rw [he, hf]
    · subst he
      simp only [Function.update_self, Option.some.injEq] at hk
      have := h.bound l i (by simpa [hf] using hl)
      omega
    · subst hf
      simp only [Function.update_self, Option.some.injEq] at hl
      have := h.bound k i (by simpa [he] using hk)
      omega
    · exact h.injective k l i (by simpa [he] using hk) (by simpa [hf] using hl)
  · intro i hi
    simp only [List.length_append, List.length_singleton] at hi
    rcases Nat.lt_succ_iff_lt_or_eq.mp hi with hlt | rfl
    · obtain ⟨k, hm⟩ := h.surjective i hlt
      have he : k ≠ key := fun he => hk ((h.domain key).mpr ⟨i, he ▸ hm⟩)
      exact ⟨k, by simpa [he] using hm⟩
    · exact ⟨key, by simp⟩

theorem putData_wellFormed {cv cv' : Impl} (h : WellFormed cv) {key : Bytes} {data : Data}
    (hp : putData cv key data = .ok cv') : WellFormed cv' := by
  by_cases hk : key ∈ cv._keys
  · obtain ⟨i, -, he⟩ := putData_present h data hk
    cases he.symm.trans hp
    exact set_wellFormed h i data
  · cases (putData_absent h data hk).symm.trans hp
    exact append_wellFormed h data hk

theorem putData_total {cv : Impl} (h : WellFormed cv) (key : Bytes) (data : Data) :
    ∃ cv', putData cv key data = .ok cv' := by
  by_cases hk : key ∈ cv._keys
  · obtain ⟨i, -, he⟩ := putData_present h data hk
    exact ⟨_, he⟩
  · exact ⟨_, putData_absent h data hk⟩

theorem getData_absent {cv : Impl} (h : WellFormed cv) {key : Bytes} (hk : key ∉ cv._keys) :
    getData cv key = .error .outOfRange := by
  have hn : cv._dataMap key = none := by
    rw [← Option.not_isSome_iff_eq_none, Option.isSome_iff_exists, ← h.domain]
    exact hk
  simp [getData, hn]

/-- A put is seen at its key and nowhere else. -/
theorem getData_putData {cv cv' : Impl} (h : WellFormed cv) {key : Bytes} {data : Data}
    (hp : putData cv key data = .ok cv') (key' : Bytes) :
    getData cv' key' = if key' = key then .ok data else getData cv key' := by
  by_cases hk : key ∈ cv._keys
  · obtain ⟨i, hi, he⟩ := putData_present h data hk
    cases he.symm.trans hp
    split
    · next heq => subst heq; simp [getData, hi, h.bound key' i hi]
    · next hne =>
      cases hm : cv._dataMap key' with
      | none => simp [getData, hm]
      | some j =>
        have hij : i ≠ j := fun hij => hne (h.injective key' key j hm (hij ▸ hi))
        simp [getData, hm, List.getElem?_set_ne hij]
  · cases (putData_absent h data hk).symm.trans hp
    split
    · next heq => subst heq; simp [getData]
    · next hne =>
      cases hm : cv._dataMap key' with
      | none => simp [getData, hm, hne]
      | some j =>
        have hj := h.bound key' j hm
        simp [getData, hm, hne, List.getElem?_append_left hj]

/-- The bytes `[charBuf, charBuf + sz)` behind the pointer of the other `putBlob`. -/
def blobRange (charBuf : ℕ → UInt8) (sz : ℕ) : Bytes := (List.range sz).map charBuf

/-- A container as its user can have it: no operation of the class breaks the map. -/
structure MadContentValues where
  impl : Impl
  wellFormed : WellFormed impl

namespace MadContentValues

def new : MadContentValues := ⟨.empty, empty_wellFormed⟩

def clear (cv : MadContentValues) : MadContentValues :=
  ⟨ContentValues.clear cv.impl, empty_wellFormed⟩

def putData (cv : MadContentValues) (key : Bytes) (data : Data) : MadContentValues :=
  match hp : ContentValues.putData cv.impl key data with
  | .ok impl => ⟨impl, putData_wellFormed cv.wellFormed hp⟩
  | .error _ => cv

def putInteger (cv : MadContentValues) (key : Bytes) (value : Int64) : MadContentValues :=
  cv.putData key (.ofInt value)
def putReal (cv : MadContentValues) (key : Bytes) (value : Double) : MadContentValues :=
  cv.putData key (.ofReal value)
def putString (cv : MadContentValues) (key value : Bytes) : MadContentValues :=
  cv.putData key (.ofText value)
def putBlob (cv : MadContentValues) (key value : Bytes) : MadContentValues :=
  cv.putData key (.ofBlob value)
def putBlobRange (cv : MadContentValues) (key : Bytes) (blob : ℕ → UInt8) (sz : ℕ) :
    MadContentValues :=
  cv.putData key (.ofBlob (blobRange blob sz))

/-- The error branch of `putData` is dead: the class never throws on a put. -/
theorem putData_spec (cv : MadContentValues) (key : Bytes) (data : Data) :
    ContentValues.putData cv.impl key data = .ok (cv.putData key data).impl := by
  obtain ⟨cv', hp⟩ := putData_total cv.wellFormed key data
  unfold putData
  split
  · assumption
  · next e he => cases hp.symm.trans he

end MadContentValues

theorem mem_keys {o : HashOrder} {cv : Impl} {key : Bytes} :
    key ∈ keys o cv ↔ key ∈ cv._keys := (o.perm cv._keys).mem_iff

end ContentValues
