import MadSqlite.ContentMap

/-! # The accessors of the container

What an accessor answers is a function of the value that the map has for the key; a key
that is absent reads as zero or as nothing. -/
namespace ContentReads

open CppStrings ContentValues ContentMap

variable (lib : FloatLibrary) (build : Build)

def integerOf : Value → Except CppError Int64
  | .int v => .ok v
  | .real v => lib.toInt64 v
  | .text s =>
    match build with
    | .android => .ok (stringToInt s)
    | .other => stoi s
  | .blob b => (firstWord b).bind fun w => .ok (Int64.ofInt (ntohs w.toUInt16).toNat)

def realOf : Value → Except CppError Double
  | .int v => .ok (lib.ofInt64 v)
  | .real v => .ok v
  | .text s =>
    match build with
    | .android => .ok (stringToDouble lib s)
    | .other => lib.stod s
  | .blob b => (firstWord b).bind fun w => (lib.toUInt16 w).map fun v => lib.ofUInt16 (ntohs v)

def textOf : Value → Bytes
  | .int v => integerText v.toInt
  | .real v =>
    match build with
    | .android => lib.streamOut v
    | .other => lib.toString v
  | .text s => s
  | .blob b => b

def blobOf : Value → Bytes
  | .blob b => b
  | _ => []

section Accessors

variable {cv : Impl} {m : Contents} (h : Agrees cv m) (key : Bytes)

include h

theorem lookup_cases : (containsKey cv key = false ∧ m.lookup key = none) ∨
    ∃ v, containsKey cv key = true ∧ m.lookup key = some v ∧ getData cv key = .ok v.data := by
  have hg := h.getData key
  cases hv : m.lookup key with
  | none =>
    have hn : key ∉ cv._keys := fun hk => Finmap.lookup_eq_none.mp hv ((h.mem key).mp hk)
    exact .inl ⟨decide_eq_false hn, rfl⟩
  | some v =>
    have hk := (h.mem key).mpr (Finmap.mem_of_lookup_eq_some hv)
    rw [hv] at hg
    exact .inr ⟨v, decide_eq_true hk, rfl, hg⟩

theorem getAsInteger_eq : getAsInteger lib build cv key =
    ((m.lookup key).map (integerOf lib build)).getD (.ok 0) := by
  unfold getAsInteger
  rcases lookup_cases h key with ⟨hc, hv⟩ | ⟨v, hc, hv, hg⟩
  · simp [hc, hv]
  · rw [if_pos hc, hg, hv]
    cases v <;> rfl

theorem getAsReal_eq : getAsReal lib build cv key =
    ((m.lookup key).map (realOf lib build)).getD (.ok 0) := by
  unfold getAsReal
  rcases lookup_cases h key with ⟨hc, hv⟩ | ⟨v, hc, hv, hg⟩
  · simp [hc, hv]
  · rw [if_pos hc, hg, hv]
    cases v <;> rfl

theorem getAsText_eq : getAsText lib build cv key =
    .ok (((m.lookup key).map (textOf lib build)).getD []) := by
  unfold getAsText
  rcases lookup_cases h key with ⟨hc, hv⟩ | ⟨v, hc, hv, hg⟩
  · simp [hc, hv]
  · rw [if_pos hc, hg, hv]
    cases v with
    | real v => cases build <;> rfl
    | _ => rfl

theorem getAsBlob_eq : getAsBlob cv key = .ok (((m.lookup key).map blobOf).getD []) := by
  unfold getAsBlob
  rcases lookup_cases h key with ⟨hc, hv⟩ | ⟨v, hc, hv, hg⟩
  · simp [hc, hv]
  · rw [if_pos hc, hg, hv]
    cases v <;> rfl

end Accessors

end ContentReads
