import MadSqlite.DatabaseRegistry

/-! # Database pointers of the Java side

The bridge keeps one reference in `dbPtrs` for each opening, and openers of one path get
one pointer. Closing it takes out every entry with that pointer, not one of them. -/
namespace JniDatabases

open CppStrings HandleTable MadDatabase DatabaseSet DatabaseRegistry Runs

variable {σ : Type*} (d : Directory)

/-- New memory is where none is in use. -/
structure Allocator where
  address : List ℕ → ℕ
  fresh : ∀ used, address used ∉ used

/-- `outstanding` counts the openings that returned a pointer and were not closed since. -/
structure State (σ : Type*) where
  registry : DatabaseSet.State σ
  address : ℕ → ℕ
  dbPtrs : List (Option ℕ)
  outstanding : ℕ → ℕ

def initial (files : Bytes → Bool) : State σ :=
  ⟨DatabaseSet.initial files, fun _ => 0, [], fun _ => 0⟩

/-- The address in a `shared_ptr`; the null pointer's is 0. -/
def get (address : ℕ → ℕ) (ptr : Option ℕ) : ℕ := (ptr.map address).getD 0

def used (s : State σ) : List ℕ := 0 :: s.registry.objects.ids.map s.address

def openInMemoryDatabase (r : DatabaseSet.State σ) (env : OpenEnv σ) :
    Option ℕ × DatabaseSet.State σ :=
  (some r.objects.next, { r with objects := r.objects.add ⟨ascii ":memory:", .new env, 1⟩ })

def openHandle (r : DatabaseSet.State σ) (absPath : Option Bytes) (env : OpenEnv σ) :
    Option ℕ × DatabaseSet.State σ :=
  match absPath with
  | some path => DatabaseRegistry.openDatabase d r (cStr path) env
  | none => openInMemoryDatabase r env

/-- The local reference goes at the end, and its copy in `dbPtrs` stays. -/
def openDatabase (s : State σ) (absPath : Option Bytes) (env : OpenEnv σ) (a : Allocator) :
    ℕ × State σ :=
  let (sPtr, registry) := openHandle d s.registry absPath env
  let address :=
    if sPtr = some s.registry.objects.next then
      Function.update s.address s.registry.objects.next (a.address (used s))
    else s.address
  (get address sPtr,
    { s with registry := registry, address := address, dbPtrs := s.dbPtrs ++ [sPtr] })

def dropPtr (r : DatabaseSet.State σ) : Option ℕ → DatabaseSet.State σ
  | some h => drop r h
  | none => r

def closeDatabase (s : State σ) (nativePtr : ℕ) : State σ :=
  { s with
    registry := (s.dbPtrs.filter fun i => get s.address i = nativePtr).foldl dropPtr s.registry
    dbPtrs := s.dbPtrs.filter fun i => get s.address i ≠ nativePtr }

inductive Event (σ : Type*) where
  | openDatabase (absPath : Option Bytes) (env : OpenEnv σ) (a : Allocator)
  | closeDatabase (nativePtr : ℕ)
  | setFile (absolute : Bytes) (present : Bool)

def next (s : State σ) : Event σ → State σ
  | .openDatabase absPath env a =>
    let (p, s) := openDatabase d s absPath env a
    { s with outstanding := Function.update s.outstanding p (s.outstanding p + 1) }
  | .closeDatabase p =>
    { closeDatabase s p with
      outstanding := Function.update s.outstanding p (s.outstanding p - 1) }
  | .setFile absolute present => { s with registry := setFile s.registry absolute present }

/-- A pointer stays valid as long as it was opened more often than closed. -/
def KeptAlive (s : State σ) : Prop :=
  ∀ p, 0 < s.outstanding p →
    ∃ h, some h ∈ s.dbPtrs ∧ s.address h = p ∧ 0 < useCount s.registry h

/-- The database that a pointer stands for. -/
def database (s : State σ) (p : ℕ) : Option ℕ :=
  (s.dbPtrs.find? fun i => get s.address i = p).join

structure Untouched (s s' : State σ) (h : ℕ) : Prop where
  object : s'.registry.objects.find? h = s.registry.objects.find? h
  references : s'.dbPtrs.count (some h) = s.dbPtrs.count (some h)
  entries : ∀ absPath, s'.registry.databaseSet.lookup absPath = some h ↔
    s.registry.databaseSet.lookup absPath = some h

def ClosesOne (s : State σ) : Event σ → Prop
  | .closeDatabase p => ∀ h, some h ≠ database s p → Untouched s (closeDatabase s p) h
  | _ => True

def ClosesLast (s : State σ) : Event σ → Prop
  | .closeDatabase p => s.outstanding p ≤ 1
  | _ => True

instance (s : State σ) (e : Event σ) : Decidable (ClosesLast s e) := by
  unfold ClosesLast
  split <;> infer_instance

/-- Every reference is one entry of `dbPtrs`, and two databases have two addresses. -/
structure Invariant (s : State σ) : Prop where
  registered : Registered s.registry
  counted : ∀ h, useCount s.registry h = s.dbPtrs.count (some h)
  notNull : none ∉ s.dbPtrs
  apart : ∀ h ∈ s.registry.objects.ids, ∀ h' ∈ s.registry.objects.ids,
    s.address h = s.address h' → h = h'

section Drop

variable {r : DatabaseSet.State σ}

theorem live_of_count {h : ℕ} (hu : 0 < useCount r h) : h ∈ r.objects.ids := by
  by_contra hn
  simp [useCount, Table.find?_eq_none.mpr hn] at hu

theorem useCount_drop (h h' : ℕ) :
    useCount (drop r h) h' = if h' = h then useCount r h - 1 else useCount r h' := by
  unfold drop
  split
  · next hx =>
    have hz : useCount r h = 0 := by simpa [expired] using hx
    split
    · next he => rw [he, hz]
    · rfl
  · split
    · next hx =>
      have hz : useCount r h - 1 = 0 := by simpa [expired, useCount_release] using hx
      rw [useCount_sweep, useCount_close, useCount_release, hz]
      split <;> rfl
    · rw [useCount_release]

theorem drop_find? {h h' : ℕ} (hne : h' ≠ h) :
    (drop r h).objects.find? h' = r.objects.find? h' := by
  have hr : (release r h).objects.find? h' = r.objects.find? h' :=
    Table.find?_update_of_ne _ hne
  unfold drop
  split
  · rfl
  · split
    · rw [sweep_objects, close, Table.find?_remove_of_ne hne, hr]
    · exact hr

theorem drop_ids (h : ℕ) : (drop r h).objects.ids ⊆ r.objects.ids := by
  intro i hi
  unfold drop at hi
  split at hi
  · exact hi
  · split at hi
    · rw [sweep_objects, close, Table.ids_remove] at hi
      simpa [release, setCount] using List.mem_of_mem_filter hi
    · simpa [release, setCount] using hi

theorem drop_lookup (hr : Registered r) {h h' : ℕ} (hne : h' ≠ h) (absPath : Bytes) :
    (drop r h).databaseSet.lookup absPath = some h' ↔
      r.databaseSet.lookup absPath = some h' := by
  unfold drop
  split
  · rfl
  · split
    · rw [sweep_lookup]
      constructor
      · exact And.left
      · intro hk
        have hl : 0 < useCount r h' := hr absPath h' hk
        refine ⟨hk, ?_⟩
        rw [expired_eq_false, useCount_close, useCount_release, if_neg hne, if_neg hne]
        exact hl
    · rfl

theorem drops_registered {ptrs : List (Option ℕ)} (hr : Registered r) :
    Registered (ptrs.foldl dropPtr r) := by
  induction ptrs generalizing r with
  | nil => exact hr
  | cons ptr ptrs ih =>
    cases ptr with
    | none => exact ih hr
    | some h => exact ih (drop_registers hr h)

theorem useCount_drops (ptrs : List (Option ℕ)) (h : ℕ) :
    useCount (ptrs.foldl dropPtr r) h = useCount r h - ptrs.count (some h) := by
  induction ptrs generalizing r with
  | nil => simp
  | cons ptr ptrs ih =>
    rw [List.foldl_cons, ih]
    cases ptr with
    | none => simp [dropPtr]
    | some h' =>
      rw [dropPtr, useCount_drop, List.count_cons]
      by_cases he : h = h'
      · subst he
        simp only [if_true, beq_self_eq_true]
        omega
      · have hne : h' ≠ h := fun hh => he hh.symm
        simp [he, hne]

theorem drops_ids (ptrs : List (Option ℕ)) :
    (ptrs.foldl dropPtr r).objects.ids ⊆ r.objects.ids := by
  induction ptrs generalizing r with
  | nil => exact fun _ hi => hi
  | cons ptr ptrs ih =>
    cases ptr with
    | none => exact ih
    | some h => exact fun i hi => drop_ids h (ih hi)

theorem drops_find? {ptrs : List (Option ℕ)} {h : ℕ} (hn : some h ∉ ptrs) :
    (ptrs.foldl dropPtr r).objects.find? h = r.objects.find? h := by
  induction ptrs generalizing r with
  | nil => rfl
  | cons ptr ptrs ih =>
    obtain ⟨hp, hn⟩ := List.ne_and_not_mem_of_not_mem_cons hn
    rw [List.foldl_cons, ih hn]
    cases ptr with
    | none => rfl
    | some h' => exact drop_find? fun he => hp (congrArg some he)

theorem drops_lookup (hr : Registered r) {ptrs : List (Option ℕ)} {h : ℕ}
    (hn : some h ∉ ptrs) (absPath : Bytes) :
    (ptrs.foldl dropPtr r).databaseSet.lookup absPath = some h ↔
      r.databaseSet.lookup absPath = some h := by
  induction ptrs generalizing r with
  | nil => rfl
  | cons ptr ptrs ih =>
    obtain ⟨hp, hn'⟩ := List.ne_and_not_mem_of_not_mem_cons hn
    cases ptr with
    | none => exact ih hr hn'
    | some h' =>
      exact (ih (drop_registers hr h') hn').trans
        (drop_lookup hr (fun he => hp (congrArg some he)) absPath)

end Drop

/-- An opening hands out a live database once more, or a new one in unused memory. -/
theorem openHandle_cases {r : DatabaseSet.State σ} (hr : Registered r)
    (absPath : Option Bytes) (env : OpenEnv σ) :
    (∃ h, 0 < useCount r h ∧ openHandle d r absPath env = (some h, retain r h)) ∨
    ∃ o r', o.useCount = 1 ∧ openHandle d r absPath env = (some r.objects.next, r') ∧
      r'.objects = r.objects.add o ∧ Registered r' := by
  cases absPath with
  | none =>
    refine .inr ⟨_, _, rfl, rfl, rfl, fun absPath h hk => ?_⟩
    have hu := hr absPath h hk
    rwa [useCount, Table.find?_add_of_ne _ (hr.ne_next hk)]
  | some path =>
    rcases openDatabase_cases d hr (cStr path) env with ⟨h, -, hk, ho⟩ | ⟨-, ho⟩
    · exact .inl ⟨h, hr _ _ hk, ho⟩
    · have hreg := openDatabase_registers d hr (cStr path) env
      rw [ho] at hreg
      exact .inr ⟨_, _, rfl, ho, publish_objects d _ _ _ _, hreg⟩

theorem initial_invariant (files : Bytes → Bool) :
    Invariant (initial files : State σ) := by
  refine ⟨by simp [Registered, initial, DatabaseSet.initial], fun h => rfl, ?_, ?_⟩
  · simp [initial]
  · simp [initial, DatabaseSet.initial]

theorem get_some (address : ℕ → ℕ) (h : ℕ) : get address (some h) = address h := rfl

theorem apart_update {ids : List ℕ} {address : ℕ → ℕ} {n v : ℕ} (hn : n ∉ ids)
    (hv : v ∉ ids.map address)
    (ha : ∀ h ∈ ids, ∀ h' ∈ ids, address h = address h' → h = h') :
    ∀ h ∈ ids ++ [n], ∀ h' ∈ ids ++ [n],
      Function.update address n v h = Function.update address n v h' → h = h' := by
  have hold : ∀ i ∈ ids, Function.update address n v i = address i := fun i hi =>
    Function.update_of_ne (ne_of_mem_of_not_mem hi hn) v address
  have hfresh : ∀ i ∈ ids, address i ≠ v := fun i hi he =>
    hv (he ▸ List.mem_map_of_mem hi)
  intro h hm h' hm' he
  rcases List.mem_append.mp hm with hi | hi <;> rcases List.mem_append.mp hm' with hi' | hi'
  · rw [hold h hi, hold h' hi'] at he
    exact ha h hi h' hi' he
  · rw [hold h hi, List.mem_singleton.mp hi', Function.update_self] at he
    exact absurd he (hfresh h hi)
  · rw [hold h' hi', List.mem_singleton.mp hi, Function.update_self] at he
    exact absurd he.symm (hfresh h' hi')
  · rw [List.mem_singleton.mp hi, List.mem_singleton.mp hi']

section Steps

variable {s : State σ}

/-- Entries are of live databases, so those with one address are of one database. -/
theorem Invariant.live (hs : Invariant s) {h : ℕ} (hm : some h ∈ s.dbPtrs) :
    0 < useCount s.registry h := by
  rw [hs.counted]
  exact List.count_pos_iff.mpr hm

theorem openDatabase_cases (hs : Invariant s) (absPath : Option Bytes) (env : OpenEnv σ)
    (a : Allocator) :
    (∃ h, 0 < useCount s.registry h ∧ openDatabase d s absPath env a = (s.address h,
      { s with registry := retain s.registry h, dbPtrs := s.dbPtrs ++ [some h] })) ∨
    ∃ o r address, o.useCount = 1 ∧ r.objects = s.registry.objects.add o ∧ Registered r ∧
      address = Function.update s.address s.registry.objects.next (a.address (used s)) ∧
      openDatabase d s absPath env a = (address s.registry.objects.next,
        { s with
          registry := r
          address := address
          dbPtrs := s.dbPtrs ++ [some s.registry.objects.next] }) := by
  rcases openHandle_cases d hs.registered absPath env with ⟨h, hu, ho⟩ | ⟨o, r, h1, ho, hadd, hr⟩
  · have hne : (some h : Option ℕ) ≠ some s.registry.objects.next := by
      rintro he
      cases he
      simp at hu
    refine .inl ⟨h, hu, ?_⟩
    simp only [openDatabase, ho, if_neg hne, get_some]
  · refine .inr ⟨o, r, _, h1, hadd, hr, rfl, ?_⟩
    simp only [openDatabase, ho, if_true, get_some]

/-- One more entry for a live database. -/
theorem retain_invariant (hs : Invariant s) {h : ℕ} (hu : 0 < useCount s.registry h) :
    Invariant { s with registry := retain s.registry h, dbPtrs := s.dbPtrs ++ [some h] } := by
  refine ⟨?_, fun h' => ?_, by simpa using hs.notNull, ?_⟩
  · intro absPath' h' hk
    have hl : 0 < useCount s.registry h' := hs.registered absPath' h' hk
    rw [useCount_retain _ _ _ hu]
    split <;> omega
  · have hc := hs.counted h'
    rw [useCount_retain _ _ _ hu, List.count_append, List.count_singleton]
    by_cases he : h' = h
    · subst he
      simp [hc]
    · have hne : h ≠ h' := fun hh => he hh.symm
      simp [he, hne, hc]
  · simpa [retain, setCount] using hs.apart

/-- A first entry for a new database, at an address that no other one has. -/
theorem add_invariant (hs : Invariant s) {r : DatabaseSet.State σ} {o : Object σ}
    (h1 : o.useCount = 1) (hadd : r.objects = s.registry.objects.add o) (hr : Registered r)
    {v : ℕ} (hv : v ∉ s.registry.objects.ids.map s.address) :
    Invariant { s with
      registry := r
      address := Function.update s.address s.registry.objects.next v
      dbPtrs := s.dbPtrs ++ [some s.registry.objects.next] } := by
  refine ⟨hr, fun h' => ?_, by simpa using hs.notNull, ?_⟩
  · have hc := hs.counted h'
    rw [List.count_append, List.count_singleton]
    by_cases he : h' = s.registry.objects.next
    · subst he
      have hz : s.dbPtrs.count (some s.registry.objects.next) = 0 := by simpa using hc.symm
      rw [hz]
      simp [useCount, hadd, Table.find?_add, h1]
    · have hne : s.registry.objects.next ≠ h' := fun hh => he hh.symm
      rw [useCount, hadd, Table.find?_add_of_ne _ he]
      simp only [useCount] at hc
      simp [hne, hc]
  · dsimp only
    rw [hadd, Table.ids_add]
    exact apart_update s.registry.objects.next_not_mem hv hs.apart

theorem openDatabase_invariant (hs : Invariant s) (absPath : Option Bytes) (env : OpenEnv σ)
    (a : Allocator) : Invariant (openDatabase d s absPath env a).2 := by
  rcases openDatabase_cases d hs absPath env a with
    ⟨h, hu, ho⟩ | ⟨o, r, address, h1, hadd, hr, rfl, ho⟩
  · rw [ho]
    exact retain_invariant hs hu
  · rw [ho]
    have hv : a.address (used s) ∉ s.registry.objects.ids.map s.address := fun hm =>
      a.fresh (used s) (List.mem_cons_of_mem 0 hm)
    exact add_invariant hs h1 hadd hr hv

theorem count_kept (s : State σ) (p h : ℕ) :
    (closeDatabase s p).dbPtrs.count (some h) =
      if s.address h = p then 0 else s.dbPtrs.count (some h) := by
  unfold closeDatabase
  split
  · next he => simp [List.count_eq_zero, get_some, he]
  · next he => exact List.count_filter (by simp [get_some, he])

theorem count_closed (s : State σ) (p h : ℕ) :
    (s.dbPtrs.filter fun i => get s.address i = p).count (some h) =
      if s.address h = p then s.dbPtrs.count (some h) else 0 := by
  split
  · next he => exact List.count_filter (by simp [get_some, he])
  · next he => simp [List.count_eq_zero, get_some, he]

theorem closeDatabase_invariant (hs : Invariant s) (p : ℕ) :
    Invariant (closeDatabase s p) := by
  refine ⟨drops_registered hs.registered, fun h => ?_,
    fun hm => hs.notNull (List.mem_of_mem_filter hm), ?_⟩
  · rw [count_kept, closeDatabase, useCount_drops, count_closed, hs.counted]
    split <;> simp
  · intro h hm h' hm' he
    exact hs.apart h (drops_ids _ hm) h' (drops_ids _ hm') he

theorem next_invariant (s : State σ) (e : Event σ) (hs : Invariant s) :
    Invariant (next d s e) := by
  cases e with
  | openDatabase absPath env a =>
    have ho := openDatabase_invariant d hs absPath env a
    exact ⟨ho.registered, ho.counted, ho.notNull, ho.apart⟩
  | closeDatabase p =>
    have hc := closeDatabase_invariant hs p
    exact ⟨hc.registered, hc.counted, hc.notNull, hc.apart⟩
  | setFile absolute present => exact ⟨hs.registered, hs.counted, hs.notNull, hs.apart⟩

theorem database_eq (hs : Invariant s) {h : ℕ} (hm : some h ∈ s.dbPtrs) :
    database s (s.address h) = some h := by
  unfold database
  cases hf : s.dbPtrs.find? fun i => get s.address i = s.address h with
  | none =>
    rw [List.find?_eq_none] at hf
    exact absurd (decide_eq_true rfl) (hf (some h) hm)
  | some ptr =>
    have hm' := List.mem_of_find?_eq_some hf
    have hp : get s.address ptr = s.address h := by simpa using List.find?_some hf
    cases ptr with
    | none => exact absurd hm' hs.notNull
    | some h' =>
      have hids := live_of_count (hs.live hm)
      have hids' := live_of_count (hs.live hm')
      rw [Option.join_some, hs.apart h' hids' h hids hp]

theorem closes_one (hs : Invariant s) (e : Event σ) : ClosesOne s e := by
  cases e with
  | openDatabase absPath env a => trivial
  | setFile absolute present => trivial
  | closeDatabase p =>
    intro h hd
    have hn : some h ∉ s.dbPtrs.filter fun i => get s.address i = p := by
      intro hf
      obtain ⟨hm, hp⟩ := List.mem_filter.mp hf
      obtain rfl : s.address h = p := of_decide_eq_true hp
      exact hd (database_eq hs hm).symm
    refine ⟨drops_find? hn, ?_, drops_lookup hs.registered hn⟩
    rw [count_kept]
    split
    · next he =>
      symm
      rw [List.count_eq_zero]
      intro hm
      exact hn (List.mem_filter.mpr ⟨hm, by simp [get_some, he]⟩)
    · rfl

/-- What was there keeps its place, and the pointer returned is to an entry. -/
theorem openDatabase_keeps (hs : Invariant s) (absPath : Option Bytes) (env : OpenEnv σ)
    (a : Allocator) :
    let r := openDatabase d s absPath env a
    (∀ h, some h ∈ s.dbPtrs → some h ∈ r.2.dbPtrs ∧ r.2.address h = s.address h) ∧
      (∃ h, some h ∈ r.2.dbPtrs ∧ r.2.address h = r.1) ∧ r.2.outstanding = s.outstanding := by
  rcases openDatabase_cases d hs absPath env a with
    ⟨h, -, ho⟩ | ⟨o, r, address, -, -, -, rfl, ho⟩
  · rw [ho]
    exact ⟨fun h' hm => ⟨List.mem_append_left _ hm, rfl⟩, ⟨h, by simp, rfl⟩, rfl⟩
  · rw [ho]
    refine ⟨fun h' hm => ⟨List.mem_append_left _ hm, ?_⟩, ⟨_, by simp, rfl⟩, rfl⟩
    have hids := live_of_count (hs.live hm)
    have hne := ne_of_mem_of_not_mem hids s.registry.objects.next_not_mem
    exact Function.update_of_ne hne _ s.address

theorem keptAlive_iff (hs : Invariant s) : KeptAlive s ↔
    ∀ p, 0 < s.outstanding p → ∃ h, some h ∈ s.dbPtrs ∧ s.address h = p := by
  refine forall₂_congr fun p _ => exists_congr fun h => ?_
  constructor
  · rintro ⟨hm, hp, -⟩
    exact ⟨hm, hp⟩
  · rintro ⟨hm, hp⟩
    exact ⟨hm, hp, hs.live hm⟩

theorem keptAlive_step (hs : Invariant s) (hk : KeptAlive s) (e : Event σ) :
    KeptAlive (next d s e) ↔ ClosesLast s e := by
  rw [keptAlive_iff (next_invariant d s e hs)]
  rw [keptAlive_iff hs] at hk
  cases e with
  | setFile absolute present => exact iff_of_true hk trivial
  | openDatabase absPath env a =>
    obtain ⟨hold, hret, hout⟩ := openDatabase_keeps d hs absPath env a
    refine iff_of_true (fun p hp => ?_) trivial
    simp only [next, hout] at hp
    by_cases he : p = (openDatabase d s absPath env a).1
    · rw [he]
      exact hret
    · rw [Function.update_of_ne he] at hp
      obtain ⟨h, hm, rfl⟩ := hk p hp
      exact ⟨h, hold h hm⟩
  | closeDatabase p =>
    constructor
    · intro hk'
      by_contra hc
      rw [ClosesLast, not_le] at hc
      have hp : 0 < (next d s (.closeDatabase p)).outstanding p := by
        simp only [next, Function.update_self]
        omega
      obtain ⟨h, hm, ha⟩ := hk' p hp
      obtain ⟨-, hne⟩ := List.mem_filter.mp hm
      exact of_decide_eq_true hne ha
    · intro hc p' hp'
      have hne : p' ≠ p := by
        rintro rfl
        simp only [next, Function.update_self] at hp'
        rw [ClosesLast] at hc
        omega
      simp only [next, Function.update_of_ne hne] at hp'
      obtain ⟨h, hm, rfl⟩ := hk p' hp'
      exact ⟨h, List.mem_filter.mpr ⟨hm, decide_eq_true hne⟩, rfl⟩

end Steps

/-- In every run, pointers stay valid while they are open more often than closed, and a
closing touches one database at most, exactly when no closing leaves another one due. -/
theorem kept_alive_iff (files : Bytes → Bool) (es : List (Event σ)) :
    (AllStates (next d) KeptAlive (initial files) es ∧
      AllSteps (next d) ClosesOne (initial files) es) ↔
      AllSteps (next d) ClosesLast (initial files) es := by
  have hi := initial_invariant (σ := σ) files
  have hone : AllSteps (next d) ClosesOne (initial files) es :=
    allSteps_of_invariant (next_invariant d) (fun _ e hs => closes_one hs e) hi es
  have hk : KeptAlive (initial files : State σ) := fun p hp => absurd hp (Nat.lt_irrefl 0)
  rw [and_iff_left hone]
  exact allStates_iff_allSteps (next_invariant d) (fun _ e hs hk => keptAlive_step d hs hk e) hi hk

/-- The address after the highest one in use. -/
def above : Allocator where
  address used := used.max?.getD 0 + 1
  fresh _ hm := Nat.not_succ_le_self _ (List.le_max?_getD_of_mem hm)

def openedTwice : List (Event (List ℕ)) :=
  [.openDatabase (some (ascii "a")) created above, .openDatabase (some (ascii "a")) created above,
    .closeDatabase 1]

theorem openedTwice_dangles :
    ¬AllStates (next flatDirectory) KeptAlive (initial fun _ => false) openedTwice := by
  intro h
  obtain ⟨i, hm, -⟩ := h.last 1 (by decide)
  have hnone : (run (next flatDirectory) (initial fun _ => false) openedTwice).dbPtrs = [] := by
    decide
  rw [hnone] at hm
  cases hm

end JniDatabases
