import Mathlib.Data.List.Nodup

/-! # Tables of resources with fresh handles

A resource gets a handle that was never used before and keeps it until it is removed.
The two invariants are fields, so that a table with a reused handle cannot be built. -/
namespace HandleTable

@[ext] structure Table (α : Type*) where
  next : ℕ
  entries : List (ℕ × α)
  fresh : ∀ e ∈ entries, e.1 < next
  nodup : (entries.map Prod.fst).Nodup

variable {α : Type*}

namespace Table

def empty : Table α := ⟨0, [], by simp, by simp⟩

def ids (t : Table α) : List ℕ := t.entries.map Prod.fst
def size (t : Table α) : ℕ := t.entries.length
def count (p : α → Bool) (t : Table α) : ℕ := t.entries.countP fun e => p e.2

def find? (t : Table α) (i : ℕ) : Option α := (t.entries.find? fun e => e.1 = i).map Prod.snd

def add (t : Table α) (a : α) : Table α where
  next := t.next + 1
  entries := t.entries ++ [(t.next, a)]
  fresh := by
    intro e he
    rcases List.mem_append.mp he with h | h
    · have := t.fresh e h; omega
    · simp only [List.mem_singleton] at h; subst h; simp
  nodup := by
    rw [List.map_append, List.nodup_append]
    refine ⟨t.nodup, by simp, ?_⟩
    intro i hi j hj he
    obtain ⟨e, hm, rfl⟩ := List.mem_map.mp hi
    have := t.fresh e hm
    simp only [List.map_cons, List.map_nil, List.mem_singleton] at hj
    omega

private def updateEntry (i : ℕ) (f : α → α) (e : ℕ × α) : ℕ × α :=
  if e.1 = i then (e.1, f e.2) else e

private theorem updateEntry_fst (i : ℕ) (f : α → α) (e : ℕ × α) :
    (updateEntry i f e).1 = e.1 := by
  unfold updateEntry
  split <;> rfl

private theorem map_updateEntry (i : ℕ) (f : α → α) (l : List (ℕ × α)) :
    (l.map (updateEntry i f)).map Prod.fst = l.map Prod.fst := by
  rw [List.map_map]
  exact List.map_congr_left fun e _ => updateEntry_fst i f e

def update (t : Table α) (i : ℕ) (f : α → α) : Table α where
  next := t.next
  entries := t.entries.map (updateEntry i f)
  fresh := by
    intro e he
    obtain ⟨d, hd, rfl⟩ := List.mem_map.mp he
    rw [updateEntry_fst]
    exact t.fresh d hd
  nodup := by rw [map_updateEntry]; exact t.nodup

def remove (t : Table α) (i : ℕ) : Table α where
  next := t.next
  entries := t.entries.filter fun e => e.1 ≠ i
  fresh := fun e he => t.fresh e (List.mem_of_mem_filter he)
  nodup := t.nodup.sublist (List.filter_sublist.map Prod.fst)

@[simp] theorem ids_empty : (empty : Table α).ids = [] := rfl

@[simp] theorem ids_add (t : Table α) (a : α) : (t.add a).ids = t.ids ++ [t.next] := by
  simp [ids, add]
@[simp] theorem count_add (p : α → Bool) (t : Table α) (a : α) :
    (t.add a).count p = t.count p + if p a then 1 else 0 := by
  simp [count, add, List.countP_append, List.countP_cons]

@[simp] theorem ids_update (t : Table α) (i : ℕ) (f : α → α) : (t.update i f).ids = t.ids :=
  map_updateEntry i f t.entries

theorem count_update {p : α → Bool} {f : α → α} (h : ∀ a, p (f a) = p a) (t : Table α) (i : ℕ) :
    (t.update i f).count p = t.count p := by
  simp only [count, update, List.countP_map]
  congr 1
  funext e
  simp only [Function.comp_apply, updateEntry]
  split
  · exact h e.2
  · rfl

@[simp] theorem ids_remove (t : Table α) (i : ℕ) : (t.remove i).ids = t.ids.filter (· ≠ i) := by
  simp [ids, remove, List.filter_map, Function.comp_def]

theorem mem_entries_add {t : Table α} {a : α} {e : ℕ × α} :
    e ∈ (t.add a).entries ↔ e ∈ t.entries ∨ e = (t.next, a) := by
  simp [add]

theorem mem_entries_remove {t : Table α} {i : ℕ} {e : ℕ × α} :
    e ∈ (t.remove i).entries ↔ e ∈ t.entries ∧ e.1 ≠ i := by
  simp [remove]

theorem entry_unique {t : Table α} {i : ℕ} {a b : α} (ha : (i, a) ∈ t.entries)
    (hb : (i, b) ∈ t.entries) : a = b :=
  congrArg Prod.snd (List.inj_on_of_nodup_map t.nodup ha hb rfl)

theorem mem_ids {t : Table α} {i : ℕ} : i ∈ t.ids ↔ ∃ a, (i, a) ∈ t.entries := by
  simp [ids]

theorem mem_of_find? {t : Table α} {i : ℕ} {a : α} (h : t.find? i = some a) :
    (i, a) ∈ t.entries := by
  unfold find? at h
  obtain ⟨e, he, rfl⟩ := Option.map_eq_some_iff.mp h
  have hi : e.1 = i := by simpa using List.find?_some he
  exact hi ▸ List.mem_of_find?_eq_some he

theorem find?_eq_none {t : Table α} {i : ℕ} : t.find? i = none ↔ i ∉ t.ids := by
  simp only [find?, ids, Option.map_eq_none_iff, List.find?_eq_none, List.mem_map,
    decide_eq_true_eq, not_exists, not_and]

theorem ids_remove_of_notMem {t : Table α} {i : ℕ} (h : i ∉ t.ids) :
    (t.remove i).ids = t.ids := by
  rw [ids_remove, List.filter_eq_self]
  intro j hj
  exact decide_eq_true fun he => h (he ▸ hj)

theorem count_le_size (p : α → Bool) (t : Table α) : t.count p ≤ t.size :=
  List.countP_le_length

theorem size_eq_ids (t : Table α) : t.size = t.ids.length := by simp [size, ids]

theorem next_not_mem (t : Table α) : t.next ∉ t.ids := by
  intro h
  obtain ⟨e, hm, he⟩ := List.mem_map.mp h
  have := t.fresh e hm
  omega

theorem lt_next {t : Table α} {i : ℕ} (h : i ∈ t.ids) : i < t.next := by
  obtain ⟨e, hm, rfl⟩ := List.mem_map.mp h
  exact t.fresh e hm

private theorem map_updateEntry_of_notMem {f : α → α} {i : ℕ} {l : List (ℕ × α)}
    (h : i ∉ l.map Prod.fst) : l.map (updateEntry i f) = l := by
  refine (List.map_congr_left fun e he => ?_).trans l.map_id
  have hne : e.1 ≠ i := fun hi => h (List.mem_map.mpr ⟨e, he, hi⟩)
  simp [updateEntry, hne]

theorem update_add (t : Table α) (a : α) (f : α → α) :
    (t.add a).update t.next f = t.add (f a) := by
  have hm : t.entries.map (updateEntry t.next f) = t.entries :=
    map_updateEntry_of_notMem t.next_not_mem
  ext1
  · rfl
  · simp only [update, add, List.map_append, hm]
    simp [updateEntry]

theorem find?_add (t : Table α) (a : α) : (t.add a).find? t.next = some a := by
  have h : t.entries.find? (fun e => e.1 = t.next) = none := by
    rw [List.find?_eq_none]
    intro e he hn
    have := t.fresh e he
    simp only [decide_eq_true_eq] at hn
    omega
  simp [find?, add, List.find?_append, h]

private theorem find?_map_updateEntry (i : ℕ) (f : α → α) (l : List (ℕ × α)) :
    ((l.map (updateEntry i f)).find? fun e => e.1 = i).map Prod.snd =
      ((l.find? fun e => e.1 = i).map Prod.snd).map f := by
  induction l with
  | nil => rfl
  | cons e l ih =>
    by_cases he : e.1 = i
    · simp [updateEntry, he]
    · have hu : updateEntry i f e = e := by simp [updateEntry, he]
      rw [List.map_cons, hu, List.find?_cons_of_neg (by simpa using he),
        List.find?_cons_of_neg (by simpa using he)]
      exact ih

@[simp] theorem find?_update_self (t : Table α) (i : ℕ) (f : α → α) :
    (t.update i f).find? i = (t.find? i).map f :=
  find?_map_updateEntry i f t.entries

theorem find?_next (t : Table α) : t.find? t.next = none :=
  find?_eq_none.mpr t.next_not_mem

theorem find?_add_of_ne {t : Table α} {i : ℕ} (a : α) (h : i ≠ t.next) :
    (t.add a).find? i = t.find? i := by
  simp [find?, add, List.find?_append, h.symm]

theorem find?_update_of_ne {t : Table α} {i j : ℕ} (f : α → α) (h : j ≠ i) :
    (t.update i f).find? j = t.find? j := by
  have hp : (fun e : ℕ × α => decide (e.1 = j)) ∘ updateEntry i f = fun e => decide (e.1 = j) :=
    funext fun e => by simp [updateEntry_fst]
  unfold find? update
  rw [List.find?_map, hp, Option.map_map]
  refine Option.map_congr fun e he => ?_
  have hj : e.1 = j := by simpa using List.find?_some he
  have hne : e.1 ≠ i := hj ▸ h
  simp [updateEntry, hne]

@[simp] theorem find?_remove_self (t : Table α) (i : ℕ) : (t.remove i).find? i = none :=
  find?_eq_none.mpr (by simp)

theorem find?_remove_of_ne {t : Table α} {i j : ℕ} (h : j ≠ i) :
    (t.remove i).find? j = t.find? j := by
  unfold find? remove
  rw [List.find?_filter]
  congr 2
  funext e
  by_cases he : e.1 = j
  · simp [he, h]
  · simp [he]

theorem size_eq_zero_iff (t : Table α) : t.size = 0 ↔ t.ids = [] := by
  rw [size_eq_ids, List.length_eq_zero_iff]

end Table

end HandleTable
