import MadSqlite.JniDatabases
import Mathlib.Data.Finset.Basic

/-! # In-memory databases of the Java side

Without a path the bridge makes a database that no other opening can find. The one entry of its
pointer in `dbPtrs` keeps it until that pointer is closed. -/
namespace InMemoryPointers

open CppStrings HandleTable MadDatabase DatabaseSet JniDatabases Runs
open DatabaseRegistry (Registered drop openNew openNew_eq)

variable {σ : Type*} (d : Directory)

/-- The pointers that came from an opening without a path and were not closed since. -/
structure Tracked (σ : Type*) where
  base : JniDatabases.State σ
  inMemory : Finset ℕ

def initial (files : Bytes → Bool) : Tracked σ := ⟨JniDatabases.initial files, ∅⟩

def next (s : Tracked σ) (e : JniDatabases.Event σ) : Tracked σ where
  base := JniDatabases.next d s.base e
  inMemory :=
    match e with
    | .openDatabase none env a => insert (openDatabase d s.base none env a).1 s.inMemory
    | .closeDatabase p => s.inMemory.erase p
    | _ => s.inMemory

/-- The pointer is to this database and to it alone, which has one reference and no path. -/
structure Owns (s : JniDatabases.State σ) (p h : ℕ) : Prop where
  listed : s.dbPtrs.count (some h) = 1
  address : s.address h = p
  hidden : ∀ absPath, s.registry.databaseSet.lookup absPath ≠ some h

/-- The database of the pointer is what it was. -/
def Keeps (s s' : JniDatabases.State σ) (p : ℕ) : Prop :=
  ∃ h, database s p = some h ∧ database s' p = some h ∧ useCount s'.registry h = 1 ∧
    s'.registry.objects.find? h = s.registry.objects.find? h

/-- What an event may do to the in-memory databases: no opening returns a pointer of one, only
closing its pointer changes one, and that closes it. -/
def Isolated (s : Tracked σ) (e : JniDatabases.Event σ) : Prop :=
  (∀ absPath env a, e = .openDatabase absPath env a →
    (openDatabase d s.base absPath env a).1 ∉ s.inMemory) ∧
  (∀ p ∈ s.inMemory, e ≠ .closeDatabase p → Keeps s.base (next d s e).base p) ∧
  ∀ p ∈ s.inMemory, e = .closeDatabase p → ∃ h, database s.base p = some h ∧
    (next d s e).base.registry.objects.find? h = none

structure Owned (s : Tracked σ) : Prop where
  base : JniDatabases.Invariant s.base
  owned : ∀ p ∈ s.inMemory, ∃ h, Owns s.base p h

theorem emplace_lookup {r : DatabaseSet.State σ} {path absPath : Bytes} {n h : ℕ}
    (hl : (emplace r path n).databaseSet.lookup absPath = some h) :
    r.databaseSet.lookup absPath = some h ∨ h = n := by
  unfold emplace at hl
  split at hl
  · by_cases hp : absPath = path
    · rw [hp, AList.lookup_insert] at hl
      exact .inr (Option.some.inj hl).symm
    · rw [AList.lookup_insert_ne hp] at hl
      exact .inl hl
  · exact .inl hl

theorem openNew_lookup {r : DatabaseSet.State σ} {path absPath : Bytes} {env : OpenEnv σ} {h : ℕ}
    (hl : (openNew d r path env).2.databaseSet.lookup absPath = some h) :
    r.databaseSet.lookup absPath = some h ∨ h = r.objects.next := by
  rw [openNew_eq] at hl
  unfold publish at hl
  dsimp only at hl
  split at hl
  · have hr := emplace_lookup hl
    exact hr
  · exact .inl hl

/-- What an opening finds it has found in the set; anything else that it returns is new. -/
theorem openHandle_found {r : DatabaseSet.State σ} (hr : Registered r) (absPath : Option Bytes)
    (env : OpenEnv σ) :
    (∃ path h, r.databaseSet.lookup path = some h ∧
      openHandle d r absPath env = (some h, retain r h)) ∨
    ∃ o r', o.useCount = 1 ∧ openHandle d r absPath env = (some r.objects.next, r') ∧
      r'.objects = r.objects.add o ∧ ∀ path h, r'.databaseSet.lookup path = some h →
        r.databaseSet.lookup path = some h ∨ (absPath ≠ none ∧ h = r.objects.next) := by
  cases absPath with
  | none => exact .inr ⟨_, _, rfl, rfl, rfl, fun _ _ hl => .inl hl⟩
  | some path =>
    rcases DatabaseRegistry.openDatabase_cases d hr (cStr path) env with ⟨h, -, hl, ho⟩ | ⟨-, ho⟩
    · exact .inl ⟨_, h, hl, ho⟩
    · refine .inr ⟨_, _, rfl, ho, publish_objects d _ _ _ _, fun _ _ hl => ?_⟩
      exact (openNew_lookup d hl).imp_right fun hn => ⟨Option.some_ne_none _, hn⟩

section Steps

variable {s : JniDatabases.State σ} {p h : ℕ}

theorem Owns.mem (ho : Owns s p h) : some h ∈ s.dbPtrs :=
  List.count_pos_iff.mp (by rw [ho.listed]; exact Nat.one_pos)

theorem Owns.database_eq (ho : Owns s p h) (hs : JniDatabases.Invariant s) :
    database s p = some h :=
  ho.address ▸ JniDatabases.database_eq hs ho.mem

theorem Owns.useCount_eq (ho : Owns s p h) (hs : JniDatabases.Invariant s) :
    useCount s.registry h = 1 := (hs.counted h).trans ho.listed

theorem Owns.live (ho : Owns s p h) (hs : JniDatabases.Invariant s) :
    h ∈ s.registry.objects.ids := live_of_count (hs.live ho.mem)

/-- An opening gives another pointer and leaves the database alone. -/
theorem Owns.opens (ho : Owns s p h) (hs : Invariant s) (absPath : Option Bytes)
    (env : OpenEnv σ) (a : Allocator) :
    (openDatabase d s absPath env a).1 ≠ p ∧ Owns (openDatabase d s absPath env a).2 p h ∧
      (openDatabase d s absPath env a).2.registry.objects.find? h =
        s.registry.objects.find? h := by
  have hids := ho.live hs
  have hne : h ≠ s.registry.objects.next :=
    ne_of_mem_of_not_mem hids s.registry.objects.next_not_mem
  rcases openHandle_found d hs.registered absPath env with
    ⟨path, h', hl, hopen⟩ | ⟨o, r', -, hopen, hadd, hset⟩
  · have hu : 0 < useCount s.registry h' := hs.registered path h' hl
    have hne' : h' ≠ h := fun he => ho.hidden path (he ▸ hl)
    have hnext : (some h' : Option ℕ) ≠ some s.registry.objects.next := by
      rintro he
      cases he
      simp at hu
    simp only [openDatabase, hopen, if_neg hnext, get_some]
    refine ⟨fun he => ?_, ⟨?_, ho.address, ho.hidden⟩, Table.find?_update_of_ne _ hne'.symm⟩
    · exact hne' (hs.apart h' (live_of_count hu) h hids (he.trans ho.address.symm))
    · rw [List.count_append, ho.listed, List.count_singleton]
      simp [hne']
  · simp only [openDatabase, hopen, if_true, get_some, Function.update_self]
    refine ⟨fun he => ?_, ⟨?_, ?_, fun path hl => ?_⟩, ?_⟩
    · have hfresh := a.fresh (used s)
      rw [he, ← ho.address] at hfresh
      exact hfresh (List.mem_cons_of_mem 0 (List.mem_map_of_mem hids))
    · rw [List.count_append, ho.listed, List.count_singleton]
      simp [hne.symm]
    · exact (Function.update_of_ne hne _ _).trans ho.address
    · rcases hset path h hl with hl | ⟨-, he⟩
      · exact ho.hidden path hl
      · exact hne he
    · rw [hadd, Table.find?_add_of_ne _ hne]

/-- Closing another pointer leaves the database alone. -/
theorem Owns.closes (ho : Owns s p h) (hs : Invariant s) {q : ℕ} (hq : q ≠ p) :
    Owns (closeDatabase s q) p h ∧
      (closeDatabase s q).registry.objects.find? h = s.registry.objects.find? h := by
  have haddress : s.address h ≠ q := ho.address ▸ hq.symm
  have hn : some h ∉ s.dbPtrs.filter fun i => get s.address i = q := fun hm =>
    haddress (of_decide_eq_true (List.mem_filter.mp hm).2)
  refine ⟨⟨?_, ho.address, fun path hl => ?_⟩, drops_find? hn⟩
  · rw [count_kept, if_neg haddress, ho.listed]
  · exact ho.hidden path ((drops_lookup hs.registered hn path).mp hl)

theorem drop_last {r : DatabaseSet.State σ} (hu : useCount r h = 1) :
    (drop r h).objects.find? h = none := by
  have hx : expired r h = false := expired_eq_false.mpr (hu ▸ Nat.one_pos)
  have hz : expired (release r h) h = true := by simp [expired, useCount_release, hu]
  rw [drop, if_neg (by simp [hx]), if_pos hz, sweep_objects, close, Table.find?_remove_self]

/-- Closing its pointer closes it. -/
theorem Owns.closed (ho : Owns s p h) (hs : Invariant s) :
    (closeDatabase s p).registry.objects.find? h = none := by
  have hentries : (s.dbPtrs.filter fun i => get s.address i = p) = [some h] := by
    have hall : ∀ i ∈ s.dbPtrs.filter fun i => get s.address i = p, i = some h := by
      intro i hi
      obtain ⟨hm, hp⟩ := List.mem_filter.mp hi
      cases i with
      | none => exact absurd hm hs.notNull
      | some h' =>
        have hp' : s.address h' = p := of_decide_eq_true hp
        rw [hs.apart h' (live_of_count (hs.live hm)) h (ho.live hs) (hp'.trans ho.address.symm)]
    have hcount := count_closed s p h
    rw [if_pos ho.address, ho.listed, List.eq_replicate_of_mem hall, List.count_replicate_self]
      at hcount
    rw [List.eq_replicate_of_mem hall, hcount]
    rfl
  rw [closeDatabase, hentries]
  exact drop_last (ho.useCount_eq hs)

/-- An opening without a path makes a database of its own. -/
theorem owns_new (hs : Invariant s) (env : OpenEnv σ) (a : Allocator) :
    Owns (openDatabase d s none env a).2 (openDatabase d s none env a).1
      s.registry.objects.next := by
  have hn : some s.registry.objects.next ∉ s.dbPtrs := fun hm =>
    s.registry.objects.next_not_mem (live_of_count (hs.live hm))
  have hdbPtrs : (openDatabase d s none env a).2.dbPtrs =
      s.dbPtrs ++ [some s.registry.objects.next] := rfl
  refine ⟨?_, rfl, fun path hl => ?_⟩
  · rw [hdbPtrs, List.count_append, List.count_eq_zero.mpr hn, List.count_singleton_self]
  · exact hs.registered.ne_next hl rfl

end Steps

variable {s : Tracked σ}

theorem initial_owned (files : Bytes → Bool) : Owned (initial files : Tracked σ) :=
  ⟨initial_invariant files, by simp [initial]⟩

/-- The pointers that stay open keep their databases. -/
theorem owned_next (hs : Owned s) (e : Event σ) {p : ℕ} (hp : p ∈ s.inMemory)
    (he : e ≠ .closeDatabase p) : ∃ h, Owns s.base p h ∧ Owns (next d s e).base p h ∧
      (next d s e).base.registry.objects.find? h = s.base.registry.objects.find? h := by
  obtain ⟨h, ho⟩ := hs.owned p hp
  refine ⟨h, ho, ?_⟩
  cases e with
  | openDatabase absPath env a =>
    obtain ⟨-, ho', hf⟩ := ho.opens d hs.base absPath env a
    exact ⟨⟨ho'.listed, ho'.address, ho'.hidden⟩, hf⟩
  | closeDatabase q =>
    obtain ⟨ho', hf⟩ := ho.closes hs.base fun hq : q = p => he (hq ▸ rfl)
    exact ⟨⟨ho'.listed, ho'.address, ho'.hidden⟩, hf⟩
  | setFile absolute present => exact ⟨⟨ho.listed, ho.address, ho.hidden⟩, rfl⟩

theorem next_owned (s : Tracked σ) (e : Event σ) (hs : Owned s) : Owned (next d s e) := by
  refine ⟨next_invariant d s.base e hs.base, fun p hp => ?_⟩
  have hold (hm : p ∈ s.inMemory) (he : e ≠ .closeDatabase p) :
      ∃ h, Owns (next d s e).base p h := by
    obtain ⟨h, -, ho, -⟩ := owned_next d hs e hm he
    exact ⟨h, ho⟩
  cases e with
  | openDatabase absPath env a =>
    cases absPath with
    | none =>
      rcases Finset.mem_insert.mp hp with rfl | hm
      · have ho := owns_new d hs.base env a
        exact ⟨_, ho.listed, ho.address, ho.hidden⟩
      · exact hold hm nofun
    | some path => exact hold hp nofun
  | closeDatabase q =>
    obtain ⟨hne, hm⟩ := Finset.mem_erase.mp hp
    exact hold hm fun he => hne (Event.closeDatabase.inj he).symm
  | setFile absolute present => exact hold hp nofun

theorem isolated (hs : Owned s) (e : Event σ) : Isolated d s e := by
  have hs' := next_owned d s e hs
  refine ⟨fun absPath env a he hp => ?_, fun p hp he => ?_, fun p hp he => ?_⟩
  · obtain ⟨h, ho⟩ := hs.owned _ hp
    exact (ho.opens d hs.base absPath env a).1 rfl
  · obtain ⟨h, ho, ho', hf⟩ := owned_next d hs e hp he
    exact ⟨h, ho.database_eq hs.base, ho'.database_eq hs'.base, ho'.useCount_eq hs'.base, hf⟩
  · obtain ⟨h, ho⟩ := hs.owned p hp
    subst he
    exact ⟨h, ho.database_eq hs.base, ho.closed hs.base⟩

/-- In every run an in-memory database belongs to its pointer alone: nothing but closing the
pointer ends or changes it, and no other opening gets the pointer before. -/
theorem always_isolated (files : Bytes → Bool) (es : List (Event σ)) :
    AllSteps (next d) (Isolated d) (initial files) es :=
  allSteps_of_invariant (next_owned d) (fun _ e hs => isolated d hs e) (initial_owned files) es

end InMemoryPointers
