import MadSqlite.CppStrings
import Mathlib.Logic.Function.Basic

/-! # Strings of Java as bytes

`GetStringUTFChars` gives the UTF-16 units of a string one by one, and the unit zero as two
bytes, so a NUL ends the bytes and is never among them. -/
namespace ModifiedUtf8

open CppStrings

abbrev JString := List UInt16

def encodeUnit (u : UInt16) : Bytes :=
  let n := u.toNat
  if 0 < n ∧ n < 0x80 then [n.toUInt8]
  else if n < 0x800 then [(0xC0 + n / 64).toUInt8, (0x80 + n % 64).toUInt8]
  else [(0xE0 + n / 4096).toUInt8, (0x80 + n / 64 % 64).toUInt8, (0x80 + n % 64).toUInt8]

def encode (s : JString) : Bytes := s.flatMap encodeUnit

/-- The first unit and the bytes that follow it. -/
def decodeUnit : Bytes → Option (UInt16 × Bytes)
  | [] => none
  | a :: s =>
    if a.toNat < 0x80 then some (a.toNat.toUInt16, s)
    else
      match s with
      | [] => none
      | b :: s =>
        let n := (a.toNat - 0xC0) * 64 + (b.toNat - 0x80)
        if a.toNat < 0xE0 then some (n.toUInt16, s)
        else
          match s with
          | [] => none
          | c :: s =>
            let n := (a.toNat - 0xE0) * 4096 + (b.toNat - 0x80) * 64 + (c.toNat - 0x80)
            some (n.toUInt16, s)

theorem toUInt8_toNat {n : ℕ} (h : n < 256) : n.toUInt8.toNat = n := by
  rw [Nat.toUInt8_eq, UInt8.toNat_ofNat']
  exact Nat.mod_eq_of_lt h

theorem decodeUnit_encodeUnit (u : UInt16) (s : Bytes) :
    decodeUnit (encodeUnit u ++ s) = some (u, s) := by
  have hu := u.toNat_lt
  have hback {n : ℕ} (hn : n = u.toNat) : some (n.toUInt16, s) = some (u, s) := by
    rw [hn]
    simp
  unfold encodeUnit
  dsimp only
  split
  · next h =>
    have ha := toUInt8_toNat (show u.toNat < 256 by omega)
    simp only [List.cons_append, List.nil_append, decodeUnit, ha, if_pos h.2]
    exact hback rfl
  · split
    · have ha := toUInt8_toNat (show 0xC0 + u.toNat / 64 < 256 by omega)
      have hb := toUInt8_toNat (show 0x80 + u.toNat % 64 < 256 by omega)
      simp only [List.cons_append, List.nil_append, decodeUnit, ha, hb]
      rw [if_neg (by omega), if_pos (by omega)]
      exact hback (by omega)
    · have ha := toUInt8_toNat (show 0xE0 + u.toNat / 4096 < 256 by omega)
      have hb := toUInt8_toNat (show 0x80 + u.toNat / 64 % 64 < 256 by omega)
      have hc := toUInt8_toNat (show 0x80 + u.toNat % 64 < 256 by omega)
      simp only [List.cons_append, List.nil_append, decodeUnit, ha, hb, hc]
      rw [if_neg (by omega), if_neg (by omega)]
      exact hback (by omega)

theorem encodeUnit_ne_nil (u : UInt16) : encodeUnit u ≠ [] := by
  unfold encodeUnit
  dsimp only
  split
  · simp
  · split <;> simp

/-- Strings with the same bytes are the same. -/
theorem encode_injective : Function.Injective encode := by
  intro s t h
  induction s generalizing t with
  | nil =>
    cases t with
    | nil => rfl
    | cons v t => simp [encode, encodeUnit_ne_nil] at h
  | cons u s ih =>
    cases t with
    | nil => simp [encode, encodeUnit_ne_nil] at h
    | cons v t =>
      have hd := congrArg decodeUnit h
      rw [encode, encode, List.flatMap_cons, List.flatMap_cons, decodeUnit_encodeUnit,
        decodeUnit_encodeUnit] at hd
      obtain ⟨rfl, hs⟩ := Prod.mk.inj (Option.some.inj hd)
      rw [ih hs]

theorem zero_notMem_encodeUnit (u : UInt16) : 0 ∉ encodeUnit u := by
  intro hm
  have hu := u.toNat_lt
  have hpos {n : ℕ} (h0 : 0 < n) (hn : n < 256) : (0 : UInt8) ≠ n.toUInt8 := by
    intro he
    have hz := congrArg UInt8.toNat he
    rw [toUInt8_toNat hn] at hz
    exact h0.ne hz
  unfold encodeUnit at hm
  dsimp only at hm
  split at hm
  · next h => exact hpos h.1 (by omega) (List.mem_singleton.mp hm)
  · split at hm
    · simp only [List.mem_cons, List.not_mem_nil, or_false] at hm
      rcases hm with hm | hm
      · exact hpos (by omega) (by omega) hm
      · exact hpos (by omega) (by omega) hm
    · simp only [List.mem_cons, List.not_mem_nil, or_false] at hm
      rcases hm with hm | hm | hm
      · exact hpos (by omega) (by omega) hm
      · exact hpos (by omega) (by omega) hm
      · exact hpos (by omega) (by omega) hm

theorem zero_notMem_encode (s : JString) : 0 ∉ encode s := by
  rw [encode, List.mem_flatMap]
  rintro ⟨u, -, hm⟩
  exact zero_notMem_encodeUnit u hm

/-- What `std::string` takes from the pointer is all of it. -/
@[simp] theorem cStr_encode (s : JString) : cStr (encode s) = encode s :=
  cStr_eq_self (zero_notMem_encode s)

def decodeFrom : ℕ → Bytes → JString
  | 0, _ => []
  | fuel + 1, s =>
    match decodeUnit s with
    | none => []
    | some (u, rest) => u :: decodeFrom fuel rest

/-- `NewStringUTF`, of bytes that are the encoding of a string; others are not defined. -/
def newStringUTF (bytes : Bytes) : Option JString :=
  let s := decodeFrom bytes.length bytes
  if encode s = bytes then some s else none

theorem decodeFrom_encode (s : JString) {fuel : ℕ} (h : s.length ≤ fuel) :
    decodeFrom fuel (encode s) = s := by
  induction s generalizing fuel with
  | nil => cases fuel <;> rfl
  | cons u s ih =>
    obtain ⟨fuel, rfl⟩ := Nat.exists_eq_add_one_of_ne_zero (Nat.ne_of_gt (Nat.lt_of_lt_of_le
      (Nat.succ_pos _) h))
    rw [encode, List.flatMap_cons, decodeFrom, decodeUnit_encodeUnit]
    exact congrArg (u :: ·) (ih (Nat.le_of_succ_le_succ h))

theorem length_le_encode (s : JString) : s.length ≤ (encode s).length := by
  induction s with
  | nil => exact le_rfl
  | cons u s ih =>
    have hpos := List.length_pos_iff.mpr (encodeUnit_ne_nil u)
    rw [encode, List.flatMap_cons, List.length_append, List.length_cons]
    exact Nat.add_comm _ 1 ▸ Nat.add_le_add hpos ih

/-- A string comes back from its bytes. -/
@[simp] theorem newStringUTF_encode (s : JString) : newStringUTF (encode s) = some s := by
  have hd := decodeFrom_encode s (length_le_encode s)
  simp only [newStringUTF, hd, if_true]

end ModifiedUtf8
