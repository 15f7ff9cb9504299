import MadSqlite.RegistryThreads

/-! # What holds between the steps of the threads

Who is in the locked part holds the mutex, the map speaks of handles opened without error
under their own paths, and every expired entry has a destructor that is going to remove it.
A file stays where a successful opening has left it. -/
namespace RegistryInvariant

open CppStrings HandleTable MadDatabase DatabaseSet RegistryThreads Runs

variable {τ σ : Type*} (d : Directory)

def Critical : Phase → Bool
  | .idle | .lockToOpen _ | .lockToDestroy _ => false
  | _ => true

/-- The thread that holds the mutex is the one in the locked part. -/
def Locked (s : State τ σ) : Prop := ∀ t, Critical (s.threads t).phase = true ↔ s.mutex = some t

/-- The name a handle was opened by and the error of its opening; none when it is closed. -/
def opening (r : DatabaseSet.State σ) (h : ℕ) : Option (Bytes × Bytes) :=
  (r.objects.find? h).map fun o => (o.name, getError o.impl)

/-- The handle has a connection, which was opened without error, on the path. -/
def Opened (r : DatabaseSet.State σ) (h : ℕ) (absPath : Bytes) : Prop :=
  ∃ name, opening r h = some (name, []) ∧ d.absolute name = absPath

def PhaseFacts (r : DatabaseSet.State σ) : Phase → Prop
  | .testExpired dbPath absPath h =>
    absPath = d.absolute (cStr dbPath) ∧ r.databaseSet.lookup absPath = some h
  | .upgrade h => ∃ absPath, r.databaseSet.lookup absPath = some h
  | .makeHandle dbPath => r.databaseSet.lookup (d.absolute (cStr dbPath)) = none
  | .register dbPath err ptr =>
    r.databaseSet.lookup (d.absolute (cStr dbPath)) = none ∧
      opening r ptr = some (cStr dbPath, err) ∧ 0 < useCount r ptr ∧
      (err = [] → r.files (d.absolute (cStr dbPath)) = true)
  | _ => True

def Registers (h : ℕ) : Phase → Prop
  | .register _ _ ptr => ptr = h
  | _ => False

/-- A destructor that has not closed its handle yet. -/
def Closes (h : ℕ) : Phase → Prop
  | .lockToDestroy h' | .closeConnection h' => h' = h
  | _ => False

/-- A destructor whose loop is still to come to the entry. -/
def Removes (absPath : Bytes) (h : ℕ) : Phase → Prop
  | .sweepEntries keys => absPath ∈ keys
  | phase => Closes h phase

/-- Neither on the way to register a handle nor to remove one. -/
def Plain : Phase → Prop
  | .register _ _ _ | .lockToDestroy _ | .closeConnection _ | .sweepEntries _ => False
  | _ => True

structure Facts (s : State τ σ) : Prop where
  phase : ∀ t, PhaseFacts d s.registry (s.threads t).phase
  file : ∀ absPath h, s.registry.databaseSet.lookup absPath = some h →
    s.registry.files absPath = true
  known : ∀ absPath h, s.registry.databaseSet.lookup absPath = some h →
    h < s.registry.objects.next
  entry : ∀ absPath h, s.registry.databaseSet.lookup absPath = some h →
    opening s.registry h ≠ none → Opened d s.registry h absPath
  registered : ∀ absPath h, Opened d s.registry h absPath → 0 < useCount s.registry h →
    s.registry.databaseSet.lookup absPath = some h ∨ ∃ t, Registers h (s.threads t).phase
  unshared : ∀ t h, Registers h (s.threads t).phase → ∀ t', h ∉ (s.threads t').held
  removal : ∀ absPath h, s.registry.databaseSet.lookup absPath = some h →
    useCount s.registry h = 0 → ∃ t, Removes absPath h (s.threads t).phase
  pending : ∀ h, opening s.registry h ≠ none → useCount s.registry h = 0 →
    ∃ t, Closes h (s.threads t).phase

section Opening

variable (r : DatabaseSet.State σ) (h h' : ℕ)

theorem opening_of_objects {r r' : DatabaseSet.State σ} (ho : r'.objects = r.objects) :
    opening r' h = opening r h := by rw [opening, ho, opening]

@[simp] theorem opening_setCount (f : ℕ → ℕ) : opening (setCount r h f) h' = opening r h' := by
  unfold opening setCount
  by_cases he : h' = h
  · subst he
    cases hf : r.objects.find? h' <;> simp [hf]
  · simp [Table.find?_update_of_ne _ he]

theorem opening_construct (dbPath : Bytes) (env : OpenEnv σ) :
    opening (construct d r dbPath env).2 h =
      if h = r.objects.next then some (cStr dbPath, openError env) else opening r h := by
  unfold opening construct
  by_cases he : h = r.objects.next
  · simp [he, Table.find?_add, openError]
  · simp [he, Table.find?_add_of_ne _ he]

theorem opening_close : opening (close r h) h' = if h' = h then none else opening r h' := by
  unfold opening close
  by_cases he : h' = h
  · simp [he]
  · simp [he, Table.find?_remove_of_ne he]

theorem opening_next : opening r r.objects.next = none := by
  simp [opening, Table.find?_next]

theorem opening_ne_none {r : DatabaseSet.State σ} {h : ℕ} (hl : 0 < useCount r h) :
    opening r h ≠ none := by
  intro ho
  have hf : r.objects.find? h = none := Option.map_eq_none_iff.mp ho
  simp [useCount, hf] at hl

end Opening

variable [DecidableEq τ]

namespace Locked

variable {s : State τ σ} {t : τ} {th : Thread}

omit [DecidableEq τ] in
theorem others {t' : τ} (hl : Locked s) (hc : Critical (s.threads t).phase = true)
    (ht : t' ≠ t) : Critical (s.threads t').phase = false := by
  have hm := (hl t).mp hc
  rw [← Bool.not_eq_true, hl t', hm]
  exact fun he => ht (Option.some.inj he).symm

theorem moveTo (hl : Locked s) (r : DatabaseSet.State σ) {m : Option τ}
    (hm : Critical th.phase = true ↔ m = some t)
    (ho : ∀ t', t' ≠ t → (m = some t' ↔ s.mutex = some t')) :
    Locked ⟨r, m, Function.update s.threads t th⟩ := by
  intro t'
  by_cases ht : t' = t
  · subst ht
    simpa using hm
  · simpa [Function.update_of_ne ht, ho t' ht] using hl t'

theorem same (hl : Locked s) (r : DatabaseSet.State σ)
    (hc : Critical th.phase = Critical (s.threads t).phase) :
    Locked ⟨r, s.mutex, Function.update s.threads t th⟩ :=
  hl.moveTo r (hc ▸ hl t) fun _ _ => Iff.rfl

theorem acquire (hl : Locked s) (r : DatabaseSet.State σ) (hm : s.mutex = none)
    (hc : Critical th.phase = true) :
    Locked ⟨r, some t, Function.update s.threads t th⟩ :=
  hl.moveTo r (iff_of_true hc rfl) fun _ ht => by simp [hm, ht.symm]

theorem release (hl : Locked s) (r : DatabaseSet.State σ)
    (hp : Critical (s.threads t).phase = true) (hc : Critical th.phase = false) :
    Locked ⟨r, none, Function.update s.threads t th⟩ :=
  hl.moveTo r (by simp [hc]) fun _ ht => by simp [(hl t).mp hp, ht.symm]

end Locked

theorem step_locked {s : State τ σ} (hl : Locked s) (t : τ) (env : OpenEnv σ) (visit : Bytes) :
    Locked (step d s t env visit) := by
  unfold step
  cases hph : (s.threads t).phase with
  | idle => exact hl
  | lockToOpen dbPath =>
    dsimp only
    split
    · next hm => exact hl.acquire _ hm rfl
    · exact hl
  | findEntry dbPath =>
    dsimp only
    split
    · split <;> exact hl.same _ (by rw [hph]; rfl)
    · exact hl.same _ (by rw [hph]; rfl)
  | testExpired dbPath absPath h =>
    dsimp only
    split <;> exact hl.same _ (by rw [hph]; rfl)
  | upgrade h => exact hl.same _ (by rw [hph]; rfl)
  | makeHandle dbPath => exact hl.same _ (by rw [hph]; rfl)
  | register dbPath err ptr => exact hl.same _ (by rw [hph]; rfl)
  | unlockAndReturn result => exact hl.release _ (by rw [hph]; rfl) rfl
  | lockToDestroy h =>
    dsimp only
    split
    · next hm => exact hl.acquire _ hm rfl
    · exact hl
  | closeConnection h => exact hl.same _ (by rw [hph]; rfl)
  | sweepEntries keys =>
    dsimp only
    split
    · exact hl.same _ (by rw [hph]; rfl)
    · split
      · exact hl.same _ (by rw [hph]; rfl)
      · exact hl
  | unlockDestroyed => exact hl.release _ (by rw [hph]; rfl) rfl

theorem next_locked (s : State τ σ) (e : Event τ σ) (hl : Locked s) : Locked (next d s e) := by
  cases e with
  | openDatabase t dbPath =>
    unfold next
    dsimp only
    split
    · next hp => exact hl.same _ (by rw [hp]; rfl)
    · exact hl
  | step t env visit => exact step_locked d hl t env visit
  | drop t h =>
    unfold next drop
    dsimp only
    split
    · next hp =>
      apply hl.same
      rw [hp.1]
      dsimp only
      split <;> rfl
    · exact hl

section Threads

variable {s : State τ σ} {t : τ} {th : Thread} {P : Phase → Prop}

theorem exists_kept (h : ∃ t', P (s.threads t').phase) (hk : P (s.threads t).phase → P th.phase) :
    ∃ t', P (Function.update s.threads t th t').phase := by
  obtain ⟨t', ht'⟩ := h
  by_cases ht : t' = t
  · exact ⟨t, by rw [Function.update_self]; exact hk (ht ▸ ht')⟩
  · exact ⟨t', by rwa [Function.update_of_ne ht]⟩

theorem forall_kept (h : ∀ t', t' ≠ t → P (s.threads t').phase) (hk : P th.phase) :
    ∀ t', P (Function.update s.threads t th t').phase := by
  intro t'
  by_cases ht : t' = t
  · rw [ht, Function.update_self]
    exact hk
  · rw [Function.update_of_ne ht]
    exact h t' ht

end Threads

theorem PhaseFacts.of_not_critical {r : DatabaseSet.State σ} {phase : Phase}
    (h : Critical phase = false) : PhaseFacts d r phase := by
  cases phase <;> trivial

theorem Registers.phase_eq {h : ℕ} {phase : Phase} (hr : Registers h phase) :
    ∃ dbPath err, phase = .register dbPath err h := by
  cases phase with
  | register dbPath err ptr =>
    obtain rfl : ptr = h := hr
    exact ⟨dbPath, err, rfl⟩
  | _ => exact hr.elim

theorem Registers.critical {h : ℕ} {phase : Phase} (hr : Registers h phase) :
    Critical phase = true := by
  obtain ⟨dbPath, err, rfl⟩ := hr.phase_eq
  rfl

namespace Plain

variable {phase : Phase}

theorem not_registers (hp : Plain phase) (h : ℕ) : ¬Registers h phase := by
  cases phase <;> first | exact hp.elim | exact id

theorem not_closes (hp : Plain phase) (h : ℕ) : ¬Closes h phase := by
  cases phase <;> first | exact hp.elim | exact id

theorem not_removes (hp : Plain phase) (absPath : Bytes) (h : ℕ) : ¬Removes absPath h phase := by
  cases phase <;> first | exact hp.elim | exact id

end Plain

namespace Facts

variable {s : State τ σ} {t : τ} {th : Thread} {r : DatabaseSet.State σ} {m : Option τ}

/-- A step that leaves the registry alone and has nothing to do with a new handle. -/
theorem same (hf : Facts d s) (hp : PhaseFacts d s.registry th.phase)
    (hr : ∀ h, ¬Registers h (s.threads t).phase) (hr' : ∀ h, ¬Registers h th.phase)
    (hh : ∀ h ∈ th.held, h ∈ (s.threads t).held ∨ ∀ t', ¬Registers h (s.threads t').phase)
    (hx : ∀ absPath h, Removes absPath h (s.threads t).phase → Removes absPath h th.phase)
    (hc : ∀ h, Closes h (s.threads t).phase → Closes h th.phase) :
    Facts d ⟨s.registry, m, Function.update s.threads t th⟩ := by
  refine ⟨forall_kept (fun t' _ => hf.phase t') hp, hf.file, hf.known, hf.entry, ?_, ?_, ?_, ?_⟩
  · intro absPath h ho hl
    exact (hf.registered absPath h ho hl).imp_right fun he =>
      exists_kept he fun hreg => absurd hreg (hr h)
  · intro t' h hreg u
    have ht : t' ≠ t := by
      rintro rfl
      exact hr' h (by simpa using hreg)
    dsimp only at hreg ⊢
    rw [Function.update_of_ne ht] at hreg
    have hu := hf.unshared t' h hreg
    by_cases hut : u = t
    · rw [hut, Function.update_self]
      exact fun hm => (hh h hm).elim (hu t) fun hn => hn t' hreg
    · rw [Function.update_of_ne hut]
      exact hu u
  · exact fun absPath h he hz => exists_kept (hf.removal absPath h he hz) (hx absPath h)
  · exact fun h ho hz => exists_kept (hf.pending h ho hz) (hc h)

theorem plain (hf : Facts d s) {phase : Phase} (hph : (s.threads t).phase = phase)
    (hold : Plain phase) (hnew : Plain th.phase) (hp : PhaseFacts d s.registry th.phase)
    (hh : ∀ h ∈ th.held, h ∈ (s.threads t).held) :
    Facts d ⟨s.registry, m, Function.update s.threads t th⟩ := by
  subst hph
  apply hf.same d hp hold.not_registers hnew.not_registers fun h hm => .inl (hh h hm)
  · exact fun a h hr => absurd hr (hold.not_removes a h)
  · exact fun h hc => absurd hc (hold.not_closes h)

omit [DecidableEq τ] in
theorem registered_here (hf : Facts d s) (hl : Locked s)
    (hc : Critical (s.threads t).phase = true) {absPath : Bytes} {h : ℕ}
    (ho : Opened d s.registry h absPath) (hu : 0 < useCount s.registry h) :
    s.registry.databaseSet.lookup absPath = some h ∨ Registers h (s.threads t).phase := by
  apply (hf.registered absPath h ho hu).imp_right
  rintro ⟨t', hreg⟩
  by_cases ht : t' = t
  · exact ht ▸ hreg
  · exact absurd hreg.critical (by simp [hl.others hc ht])

omit [DecidableEq τ] in
theorem entered_here (hf : Facts d s) (hl : Locked s) (hc : Critical (s.threads t).phase = true)
    {phase : Phase} (hph : (s.threads t).phase = phase) (hr : ∀ h, ¬Registers h phase)
    {absPath : Bytes} {h : ℕ} (ho : Opened d s.registry h absPath)
    (hu : 0 < useCount s.registry h) : s.registry.databaseSet.lookup absPath = some h :=
  (hf.registered_here d hl hc ho hu).resolve_right (hph ▸ hr h)

/-- A step of the thread in the locked part. -/
theorem critical (hl : Locked s) (hc : Critical (s.threads t).phase = true)
    (hp : PhaseFacts d r th.phase)
    (hfile : ∀ absPath h, r.databaseSet.lookup absPath = some h → r.files absPath = true)
    (hknown : ∀ absPath h, r.databaseSet.lookup absPath = some h → h < r.objects.next)
    (hentry : ∀ absPath h, r.databaseSet.lookup absPath = some h → opening r h ≠ none →
      Opened d r h absPath)
    (hreg : ∀ absPath h, Opened d r h absPath → 0 < useCount r h →
      r.databaseSet.lookup absPath = some h ∨ Registers h th.phase)
    (hun : ∀ h, Registers h th.phase → h ∉ th.held ∧ ∀ t', h ∉ (s.threads t').held)
    (hexp : ∀ absPath h, r.databaseSet.lookup absPath = some h → useCount r h = 0 →
      ∃ t', Removes absPath h (Function.update s.threads t th t').phase)
    (hpend : ∀ h, opening r h ≠ none → useCount r h = 0 →
      ∃ t', Closes h (Function.update s.threads t th t').phase) :
    Facts d ⟨r, m, Function.update s.threads t th⟩ := by
  have hidle : ∀ t', t' ≠ t → Critical (s.threads t').phase = false := fun t' => hl.others hc
  refine ⟨forall_kept (fun t' ht => .of_not_critical d (hidle t' ht)) hp, hfile, hknown, hentry,
    ?_, ?_, hexp, hpend⟩
  · intro absPath h ho hu
    exact (hreg absPath h ho hu).imp_right fun hr =>
      ⟨t, by simpa using hr⟩
  · intro t' h hr u
    dsimp only at hr ⊢
    have ht : t' = t := by
      by_contra ht
      rw [Function.update_of_ne ht] at hr
      simpa [hidle t' ht] using hr.critical
    rw [ht, Function.update_self] at hr
    by_cases hut : u = t
    · rw [hut, Function.update_self]
      exact (hun h hr).1
    · rw [Function.update_of_ne hut]
      exact (hun h hr).2 u

theorem erase (hf : Facts d s) (hl : Locked s) {dbPath absPath : Bytes} {h : ℕ}
    (hph : (s.threads t).phase = .testExpired dbPath absPath h)
    (hx : expired s.registry h = true) :
    Facts d (move s t (.makeHandle dbPath) (DatabaseSet.erase s.registry absPath)) := by
  have hc : Critical (s.threads t).phase = true := by rw [hph]; rfl
  obtain ⟨rfl, hk⟩ : absPath = d.absolute (cStr dbPath) ∧
      s.registry.databaseSet.lookup absPath = some h := by
    simpa [hph, PhaseFacts] using hf.phase t
  have hz : useCount s.registry h = 0 := by simpa [expired] using hx
  have hsub : ∀ a i, (DatabaseSet.erase s.registry (d.absolute (cStr dbPath))).databaseSet.lookup
      a = some i → s.registry.databaseSet.lookup a = some i := by
    intro a i hi
    by_cases ha : a = d.absolute (cStr dbPath)
    · subst ha
      simp [DatabaseSet.erase] at hi
    · rwa [DatabaseSet.erase, AList.lookup_erase_ne ha] at hi
  refine critical d hl hc ?_ (fun a i hi => hf.file a i (hsub a i hi))
    (fun a i hi => hf.known a i (hsub a i hi)) (fun a i hi => hf.entry a i (hsub a i hi)) ?_
    (fun _ hr => hr.elim)
    (fun a i hi hz => exists_kept (hf.removal a i (hsub a i hi) hz) (by rw [hph]; exact id))
    (fun i ho hz => exists_kept (hf.pending i ho hz) (by rw [hph]; exact id))
  · simp [PhaseFacts, DatabaseSet.erase]
  · intro a i ho hu
    have hi := hf.entered_here d hl hc hph (fun _ => id) ho hu
    have ha : a ≠ d.absolute (cStr dbPath) := by
      rintro rfl
      rw [hk] at hi
      obtain rfl := Option.some.inj hi
      simp [hz] at hu
    exact .inl (by rwa [DatabaseSet.erase, AList.lookup_erase_ne ha])

theorem retain (hf : Facts d s) (hl : Locked s) {h : ℕ} (hph : (s.threads t).phase = .upgrade h)
    (hx : expired s.registry h = false) :
    Facts d (move s t (.unlockAndReturn (some h)) (DatabaseSet.retain s.registry h)) := by
  have hc : Critical (s.threads t).phase = true := by rw [hph]; rfl
  have hlive := expired_eq_false.mp hx
  have hcount : ∀ i, 0 < useCount (DatabaseSet.retain s.registry h) i →
      0 < useCount s.registry i := by
    intro i
    rw [useCount_retain _ _ _ hlive]
    split
    · next hi => exact fun _ => hi ▸ hlive
    · exact id
  have hzero : ∀ i, useCount (DatabaseSet.retain s.registry h) i = 0 →
      useCount s.registry i = 0 := by
    intro i
    rw [useCount_retain _ _ _ hlive]
    split
    · omega
    · exact id
  have hopen : ∀ i, opening (DatabaseSet.retain s.registry h) i = opening s.registry i :=
    fun i => opening_setCount _ _ _ _
  refine critical d hl hc trivial hf.file hf.known ?_ ?_ (fun _ hr => hr.elim)
    (fun a i hi hz => exists_kept (hf.removal a i hi (hzero i hz)) (by rw [hph]; exact id))
    (fun i ho hz => exists_kept (hf.pending i (hopen i ▸ ho) (hzero i hz)) (by rw [hph]; exact id))
  · intro a i hi hn
    rw [hopen] at hn
    rw [Opened, hopen]
    exact hf.entry a i hi hn
  · intro a i ho hu
    rw [Opened, hopen] at ho
    exact .inl (hf.entered_here d hl hc hph (fun _ => id) ho (hcount i hu))

theorem construct (hf : Facts d s) (hl : Locked s) (hi : Invariant s) {dbPath : Bytes}
    {env : OpenEnv σ} (hph : (s.threads t).phase = .makeHandle dbPath)
    (hcr : openError env = [] → env.creates = true) :
    Facts d (move s t (.register dbPath (openError env) s.registry.objects.next)
      (DatabaseSet.construct d s.registry dbPath env).2) := by
  have hc : Critical (s.threads t).phase = true := by rw [hph]; rfl
  have hnone : s.registry.databaseSet.lookup (d.absolute (cStr dbPath)) = none := by
    simpa [hph, PhaseFacts] using hf.phase t
  have hne : ∀ a i, s.registry.databaseSet.lookup a = some i → i ≠ s.registry.objects.next :=
    fun a i hi => (hf.known a i hi).ne
  refine critical d hl hc ⟨hnone, ?_, ?_, ?_⟩ ?_ ?_ ?_ ?_ ?_ ?_ ?_
  · rw [opening_construct, if_pos rfl]
  · rw [useCount_construct, if_pos rfl]
    exact Nat.one_pos
  · intro he
    simp [DatabaseSet.construct, hcr he]
  · intro a i hk
    have hfile := hf.file a i hk
    dsimp only [DatabaseSet.construct]
    split
    · by_cases ha : a = d.absolute (cStr dbPath)
      · simp [ha]
      · rwa [Function.update_of_ne ha]
    · exact hfile
  · exact fun a i hk => Nat.lt_succ_of_lt (hf.known a i hk)
  · intro a i hk hn
    rw [opening_construct, if_neg (hne a i hk)] at hn
    rw [Opened, opening_construct, if_neg (hne a i hk)]
    exact hf.entry a i hk hn
  · intro a i ho hu
    rw [Opened, opening_construct] at ho
    rw [useCount_construct] at hu
    by_cases hn : i = s.registry.objects.next
    · exact .inr hn.symm
    · rw [if_neg hn] at ho hu
      exact .inl (hf.entered_here d hl hc hph (fun _ => id) ho hu)
  · rintro i rfl
    have hlt : ∀ t', s.registry.objects.next ∉ (s.threads t').held :=
      fun t' hm => absurd ((hi t').held _ hm) (lt_irrefl _)
    exact ⟨hlt t, hlt⟩
  · intro a i hk hz
    rw [useCount_construct, if_neg (hne a i hk)] at hz
    exact exists_kept (hf.removal a i hk hz) (by rw [hph]; exact id)
  · intro i ho hz
    rw [opening_construct] at ho
    rw [useCount_construct] at hz
    by_cases hn : i = s.registry.objects.next
    · simp [hn] at hz
    · rw [if_neg hn] at ho hz
      exact exists_kept (hf.pending i ho hz) (by rw [hph]; exact id)

theorem publish (hf : Facts d s) (hl : Locked s) {dbPath err : Bytes} {ptr : ℕ}
    (hph : (s.threads t).phase = .register dbPath err ptr) :
    Facts d (move s t (.unlockAndReturn (some ptr))
      (DatabaseSet.publish d s.registry dbPath err ptr)) := by
  have hc : Critical (s.threads t).phase = true := by rw [hph]; rfl
  obtain ⟨hnone, hopen, hlive, hfile⟩ : PhaseFacts d s.registry (.register dbPath err ptr) :=
    hph ▸ hf.phase t
  have hown : ∀ a, Opened d s.registry ptr a → err = [] ∧ a = d.absolute (cStr dbPath) := by
    rintro a ⟨name, ho, rfl⟩
    rw [hopen] at ho
    cases ho
    exact ⟨rfl, rfl⟩
  by_cases he : err = []
  · subst he
    rw [publish_new d (hfile rfl) hnone]
    refine critical d hl hc trivial ?_ ?_ ?_ ?_ (fun _ hr => hr.elim) ?_
      (fun i ho hz => exists_kept (hf.pending i ho hz) (by rw [hph]; exact id))
    · intro a i hk
      by_cases ha : a = d.absolute (cStr dbPath)
      · exact ha ▸ hfile rfl
      · exact hf.file a i (by rwa [AList.lookup_insert_ne ha] at hk)
    · intro a i hk
      by_cases ha : a = d.absolute (cStr dbPath)
      · rw [ha, AList.lookup_insert] at hk
        exact Option.some.inj hk ▸ useCount_lt_next (r := s.registry) hlive
      · exact hf.known a i (by rwa [AList.lookup_insert_ne ha] at hk)
    · intro a i hk hn
      by_cases ha : a = d.absolute (cStr dbPath)
      · rw [ha, AList.lookup_insert] at hk
        obtain rfl := Option.some.inj hk
        exact ⟨cStr dbPath, hopen, ha.symm⟩
      · exact hf.entry a i (by rwa [AList.lookup_insert_ne ha] at hk) hn
    · intro a i ho hu
      left
      rcases hf.registered_here d hl hc ho hu with hk | hr
      · have ha : a ≠ d.absolute (cStr dbPath) := by
          rintro rfl
          rw [hnone] at hk
          cases hk
        rwa [AList.lookup_insert_ne ha]
      · rw [hph] at hr
        obtain rfl : ptr = i := hr
        rw [(hown a ho).2, AList.lookup_insert]
    · intro a i hk hz
      by_cases ha : a = d.absolute (cStr dbPath)
      · rw [ha, AList.lookup_insert] at hk
        obtain rfl := Option.some.inj hk
        exact absurd hz hlive.ne'
      · exact exists_kept (hf.removal a i (by rwa [AList.lookup_insert_ne ha] at hk) hz)
          (by rw [hph]; exact id)
  · rw [publish_refused d fun _ h => absurd h he]
    refine critical d hl hc trivial hf.file hf.known hf.entry ?_ (fun _ hr => hr.elim)
      (fun a i hk hz => exists_kept (hf.removal a i hk hz) (by rw [hph]; exact id))
      (fun i ho hz => exists_kept (hf.pending i ho hz) (by rw [hph]; exact id))
    intro a i ho hu
    apply (hf.registered_here d hl hc ho hu).imp_right
    intro hr
    rw [hph] at hr
    obtain rfl : ptr = i := hr
    exact absurd (hown a ho).1 he

theorem close (hf : Facts d s) (hl : Locked s) {h : ℕ}
    (hph : (s.threads t).phase = .closeConnection h) :
    Facts d (move s t (.sweepEntries s.registry.databaseSet.keys)
      (DatabaseSet.close s.registry h)) := by
  have hc : Critical (s.threads t).phase = true := by rw [hph]; rfl
  have hlive : ∀ i, 0 < useCount (DatabaseSet.close s.registry h) i →
      i ≠ h ∧ 0 < useCount s.registry i := by
    intro i hu
    rw [useCount_close] at hu
    by_cases hi : i = h
    · simp [hi] at hu
    · exact ⟨hi, by rwa [if_neg hi] at hu⟩
  refine critical d hl hc trivial hf.file hf.known ?_ ?_ (fun _ hr => hr.elim) ?_ ?_
  · intro a i hk hn
    have hi : i ≠ h := by
      rintro rfl
      simp [opening_close] at hn
    rw [opening_close, if_neg hi] at hn
    rw [Opened, opening_close, if_neg hi]
    exact hf.entry a i hk hn
  · intro a i ho hu
    obtain ⟨hi, hu⟩ := hlive i hu
    rw [Opened, opening_close, if_neg hi] at ho
    exact .inl (hf.entered_here d hl hc hph (fun _ => id) ho hu)
  · intro a i hk _
    have hm : a ∈ s.registry.databaseSet := AList.lookup_isSome.mp (Option.isSome_of_mem hk)
    refine ⟨t, ?_⟩
    rw [Function.update_self]
    exact AList.mem_keys.mp hm
  · intro i ho hz
    rw [opening_close] at ho
    rw [useCount_close] at hz
    by_cases hi : i = h
    · simp [hi] at ho
    · rw [if_neg hi] at ho hz
      apply exists_kept (hf.pending i ho hz)
      intro hcl
      rw [hph] at hcl
      exact absurd (show h = i from hcl).symm hi

theorem sweepEntry (hf : Facts d s) (hl : Locked s) {keys : List Bytes}
    (hph : (s.threads t).phase = .sweepEntries keys) (visit : Bytes) :
    Facts d (move s t (.sweepEntries (keys.erase visit))
      (DatabaseSet.sweepEntry s.registry visit)) := by
  have hc : Critical (s.threads t).phase = true := by rw [hph]; rfl
  have ho := sweepEntry_objects s.registry visit
  have hcount : ∀ i, useCount (DatabaseSet.sweepEntry s.registry visit) i = useCount s.registry i :=
    fun i => by rw [useCount, ho, useCount]
  have hopen : ∀ i, opening (DatabaseSet.sweepEntry s.registry visit) i = opening s.registry i :=
    fun i => opening_of_objects i ho
  have hfiles : (DatabaseSet.sweepEntry s.registry visit).files = s.registry.files := by
    unfold DatabaseSet.sweepEntry
    split
    · split <;> rfl
    · rfl
  refine critical d hl hc trivial ?_ ?_ ?_ ?_ (fun _ hr => hr.elim) ?_ ?_
  · intro a i hk
    rw [hfiles]
    exact hf.file a i (sweepEntry_lookup.mp hk).1
  · intro a i hk
    rw [ho]
    exact hf.known a i (sweepEntry_lookup.mp hk).1
  · intro a i hk hn
    rw [hopen] at hn
    rw [Opened, hopen]
    exact hf.entry a i (sweepEntry_lookup.mp hk).1 hn
  · intro a i hop hu
    rw [Opened, hopen] at hop
    rw [hcount] at hu
    have hk := hf.entered_here d hl hc hph (fun _ => id) hop hu
    exact .inl (sweepEntry_lookup.mpr ⟨hk, fun _ => expired_eq_false.mpr hu⟩)
  · intro a i hk hz
    rw [hcount] at hz
    obtain ⟨hk, hv⟩ := sweepEntry_lookup.mp hk
    apply exists_kept (hf.removal a i hk hz)
    intro hm
    have ha : a ≠ visit := by
      rintro rfl
      simpa [expired, hz] using hv rfl
    rw [hph] at hm
    exact (List.mem_erase_of_ne ha).mpr hm
  · intro i hop hz
    rw [hopen] at hop
    rw [hcount] at hz
    exact exists_kept (hf.pending i hop hz) (by rw [hph]; exact id)

omit [DecidableEq τ] in
theorem phase_release (hf : Facts d s) {h : ℕ} (hh : h ∈ (s.threads t).held) (t' : τ) :
    PhaseFacts d (release s.registry h) (s.threads t').phase := by
  have hp := hf.phase t'
  have hun := hf.unshared t'
  cases hph : (s.threads t').phase with
  | register dbPath err ptr =>
    rw [hph] at hp hun
    obtain ⟨hnone, hopen, hlive, hfile⟩ := hp
    have hne : ptr ≠ h := by
      rintro rfl
      exact hun ptr rfl t hh
    refine ⟨hnone, ?_, ?_, hfile⟩
    · rw [release, opening_setCount, hopen]
    · rwa [useCount_release, if_neg hne]
  | _ =>
    rw [hph] at hp
    exact hp

theorem drop (hf : Facts d s) (h : ℕ) : Facts d (RegistryThreads.drop s t h) := by
  unfold RegistryThreads.drop
  split
  · next hc =>
    obtain ⟨hidle, hh⟩ := hc
    have hlive : ∀ i, 0 < useCount (release s.registry h) i → 0 < useCount s.registry i := by
      intro i
      rw [useCount_release]
      split
      · next hi => exact fun hu => hi ▸ (by omega)
      · exact id
    have hopen : ∀ i, opening (release s.registry h) i = opening s.registry i :=
      fun i => opening_setCount _ _ _ _
    -- Either the count was zero before, or this thread goes on to the destructor.
    have hdies : ∀ i, useCount (release s.registry h) i = 0 →
        useCount s.registry i = 0 ∨ i = h ∧ expired (release s.registry h) h = true := by
      intro i hz
      by_cases hi : i = h
      · subst hi
        exact .inr ⟨rfl, by simpa [expired] using hz⟩
      · rw [useCount_release, if_neg hi] at hz
        exact .inl hz
    dsimp only
    refine ⟨forall_kept (fun t' _ => hf.phase_release d hh t') ?_, hf.file, hf.known, ?_, ?_, ?_,
      ?_, ?_⟩
    · dsimp only
      split <;> trivial
    · intro a i hk hn
      rw [hopen] at hn
      rw [Opened, hopen]
      exact hf.entry a i hk hn
    · intro a i ho hu
      rw [Opened, hopen] at ho
      refine (hf.registered a i ho (hlive i hu)).imp_right fun he => exists_kept he fun hr => ?_
      rw [hidle] at hr
      exact hr.elim
    · intro t' i hr u
      dsimp only at hr ⊢
      have ht : t' ≠ t := by
        rintro rfl
        rw [Function.update_self] at hr
        dsimp only at hr
        split at hr <;> exact hr
      rw [Function.update_of_ne ht] at hr
      have hun := hf.unshared t' i hr
      by_cases hut : u = t
      · rw [hut, Function.update_self]
        exact fun hm => hun t (List.mem_of_mem_erase hm)
      · rw [Function.update_of_ne hut]
        exact hun u
    · intro a i hk hz
      rcases hdies i hz with hz | ⟨rfl, hx⟩
      · exact exists_kept (hf.removal a i hk hz) (by rw [hidle]; exact False.elim)
      · exact ⟨t, by simp [hx, Removes, Closes]⟩
    · intro i ho hz
      rcases hdies i hz with hz | ⟨rfl, hx⟩
      · exact exists_kept (hf.pending i (hopen i ▸ ho) hz) (by rw [hidle]; exact False.elim)
      · exact ⟨t, by simp [hx, Closes]⟩
  · exact hf

theorem step (hf : Facts d s) (hl : Locked s) (hi : Invariant s) {env : OpenEnv σ}
    (hcr : openError env = [] → env.creates = true) (visit : Bytes) :
    Facts d (RegistryThreads.step d s t env visit) := by
  unfold RegistryThreads.step
  cases hph : (s.threads t).phase with
  | idle => exact hf
  | lockToOpen dbPath =>
    dsimp only
    split
    · exact hf.plain d hph trivial trivial trivial fun _ => id
    · exact hf
  | findEntry dbPath =>
    dsimp only
    have hmove : ∀ phase : Phase, Plain phase → PhaseFacts d s.registry phase →
        Facts d (move s t phase s.registry) := fun phase hnew hp =>
      hf.plain d hph trivial hnew hp fun _ => id
    by_cases hfile : s.registry.files (d.absolute (cStr dbPath)) = true
    · rw [getAbsoluteFilePath_eq d hfile, if_pos (d.rooted _)]
      cases hk : s.registry.databaseSet.lookup (d.absolute (cStr dbPath)) with
      | some h => exact hmove _ trivial ⟨rfl, hk⟩
      | none => exact hmove _ trivial hk
    · have hn : ¬getAbsoluteFilePath d s.registry.files dbPath ≠ [] := by
        rwa [resolves_iff]
      rw [if_neg hn]
      apply hmove (.makeHandle dbPath) trivial
      by_contra hk
      obtain ⟨h, hk⟩ := Option.ne_none_iff_exists'.mp hk
      exact hfile (hf.file _ h hk)
  | testExpired dbPath absPath h =>
    dsimp only
    split
    · next hx => exact hf.erase d hl hph hx
    · have hp := hf.phase t
      rw [hph] at hp
      exact hf.plain d hph trivial trivial ⟨absPath, hp.2⟩ fun _ => id
  | upgrade h =>
    cases hx : expired s.registry h with
    | true =>
      simp only [lock, hx, if_true]
      exact hf.plain d hph trivial trivial trivial fun _ => id
    | false =>
      simp only [lock, hx, Bool.false_eq_true, if_false]
      exact hf.retain d hl hph hx
  | makeHandle dbPath => exact hf.construct d hl hi hph hcr
  | register dbPath err ptr => exact hf.publish d hl hph
  | unlockAndReturn result =>
    have hnone : ∀ h t', ¬Registers h (s.threads t').phase := by
      intro h t' hr
      by_cases ht : t' = t
      · rw [ht, hph] at hr
        exact hr
      · simpa [hl.others (by rw [hph]; rfl) ht] using hr.critical
    exact hf.same d trivial (fun h => hnone h t) (fun _ => id) (fun h _ => .inr (hnone h))
      (by simp [hph, Removes, Closes]) (by simp [hph, Closes])
  | lockToDestroy h =>
    dsimp only
    split
    · exact hf.same d trivial (by simp [hph, Registers]) (fun _ => id) (fun _ => .inl)
        (by simp [hph, Removes, Closes]) (by simp [hph, Closes])
    · exact hf
  | closeConnection h => exact hf.close d hl hph
  | sweepEntries keys =>
    dsimp only
    split
    · next hn =>
      exact hf.same d trivial (by simp [hph, Registers]) (fun _ => id) (fun _ => .inl)
        (by simp [hph, Removes, hn]) (by simp [hph, Closes])
    · split
      · exact hf.sweepEntry d hl hph visit
      · exact hf
  | unlockDestroyed => exact hf.plain d hph trivial trivial trivial fun _ => id

end Facts

/-- A successful opening leaves the file in place, a failed one a text that tells so. -/
def HonestOpen (env : OpenEnv σ) : Prop :=
  (env.answer = none → env.creates = true) ∧ (env.answer ≠ none → openError env ≠ [])

instance (env : OpenEnv σ) : Decidable (HonestOpen env) :=
  inferInstanceAs (Decidable (_ ∧ _))

theorem HonestOpen.creates {env : OpenEnv σ} (h : HonestOpen env) (he : openError env = []) :
    env.creates = true :=
  h.1 (by_contra fun ha => h.2 ha he)

def Honest : Event τ σ → Prop
  | .step _ env _ => HonestOpen env
  | _ => True

/-- What SQLite does when it opens a database is part of the event. Besides, clients copy the
references they hold and hand them over. -/
inductive HonestEvent (τ σ : Type*) where
  | registry (e : Event τ σ) (honest : Honest e)
  | copy (t t' : τ) (h : ℕ)

def copy (s : State τ σ) (t t' : τ) (h : ℕ) : State τ σ :=
  if (s.threads t).phase = .idle ∧ h ∈ (s.threads t).held ∧ expired s.registry h = false then
    { s with registry := retain s.registry h
             threads := Function.update s.threads t'
               ⟨(s.threads t').phase, h :: (s.threads t').held⟩ }
  else s

def honestNext (s : State τ σ) : HonestEvent τ σ → State τ σ
  | .registry e _ => next d s e
  | .copy t t' h => copy s t t' h

section Copy

variable (s : State τ σ) (t t' : τ) (h : ℕ)

theorem copy_phase (u : τ) : ((copy s t t' h).threads u).phase = (s.threads u).phase := by
  unfold copy
  split
  · by_cases hu : u = t'
    · simp [hu]
    · simp [hu]
  · rfl

theorem copy_mutex : (copy s t t' h).mutex = s.mutex := by
  unfold copy
  split <;> rfl

theorem copy_opening (i : ℕ) : opening (copy s t t' h).registry i = opening s.registry i := by
  unfold copy
  split
  · exact opening_setCount _ _ _ _
  · rfl

theorem copy_invariant {s : State τ σ} (hi : Invariant s) : Invariant (copy s t t' h) := by
  unfold copy
  split
  · next hc =>
    have hl := expired_eq_false.mp hc.2.2
    have he := (Extends.retain s.registry hl).toKeepsDead
    intro u
    by_cases hu : u = t'
    · subst hu
      have hok := (hi u).mono he
      simp only [Function.update_self]
      refine ⟨hok.phase, fun i hm => ?_⟩
      rcases List.mem_cons.mp hm with rfl | hm
      · exact useCount_lt_next (r := s.registry) hl
      · exact hok.held i hm
    · simp only [Function.update_of_ne hu]
      exact (hi u).mono he
  · exact hi

theorem copy_locked {s : State τ σ} (hl : Locked s) : Locked (copy s t t' h) := by
  intro u
  rw [copy_phase, copy_mutex]
  exact hl u

theorem copy_facts {s : State τ σ} (hf : Facts d s) : Facts d (copy s t t' h) := by
  have hphase := copy_phase s t t' h
  have hopen := copy_opening s t t' h
  unfold copy at hphase hopen ⊢
  split
  · next hc =>
    rw [if_pos hc] at hphase hopen
    have hlive := expired_eq_false.mp hc.2.2
    have hcount : ∀ i, useCount (retain s.registry h) i =
        if i = h then useCount s.registry h + 1 else useCount s.registry i :=
      fun i => useCount_retain _ _ _ hlive
    have hpos : ∀ i, 0 < useCount (retain s.registry h) i ↔ 0 < useCount s.registry i := by
      intro i
      rw [hcount]
      split
      · next hi => simp [hi, hlive]
      · rfl
    have hzero : ∀ i, useCount (retain s.registry h) i = 0 ↔ useCount s.registry i = 0 := by
      intro i
      have := hpos i
      omega
    constructor
    · intro u
      rw [hphase]
      have hp := hf.phase u
      cases hph : (s.threads u).phase with
      | register dbPath err ptr =>
        rw [hph] at hp
        obtain ⟨hnone, ho, hu, hfile⟩ := hp
        exact ⟨hnone, (hopen ptr).trans ho, (hpos ptr).mpr hu, hfile⟩
      | _ =>
        rw [hph] at hp
        exact hp
    · exact hf.file
    · exact hf.known
    · intro a i hk hn
      rw [hopen] at hn
      rw [Opened, hopen]
      exact hf.entry a i hk hn
    · intro a i ho hu
      rw [Opened, hopen] at ho
      exact (hf.registered a i ho ((hpos i).mp hu)).imp_right fun he => exists_kept he id
    · intro u i hr v
      rw [hphase] at hr
      have hun := hf.unshared u i hr
      have hne : i ≠ h := fun he => hun t (he ▸ hc.2.1)
      by_cases hv : v = t'
      · simpa [hv, hne] using hun t'
      · simpa [hv] using hun v
    · intro a i hk hz
      exact exists_kept (hf.removal a i hk ((hzero i).mp hz)) id
    · intro i ho hz
      rw [hopen] at ho
      exact exists_kept (hf.pending i ho ((hzero i).mp hz)) id
  · exact hf

end Copy

structure Good (s : State τ σ) : Prop where
  invariant : Invariant s
  locked : Locked s
  facts : Facts d s

omit [DecidableEq τ] in
theorem initial_good (files : Bytes → Bool) :
    Good d (RegistryThreads.initial files : State τ σ) := by
  have hmap : ∀ absPath h, (DatabaseSet.initial files : DatabaseSet.State σ).databaseSet.lookup
      absPath ≠ some h := fun absPath h => by simp [DatabaseSet.initial]
  have hopen : ∀ h, opening (DatabaseSet.initial files : DatabaseSet.State σ) h = none :=
    fun _ => rfl
  have hheld : ∀ t h, h ∉ ((RegistryThreads.initial files : State τ σ).threads t).held :=
    fun _ _ hm => absurd hm List.not_mem_nil
  have hlocked : Locked (RegistryThreads.initial files : State τ σ) := fun _ =>
    iff_of_false Bool.false_ne_true fun hm => by cases hm
  refine ⟨fun t => ⟨trivial, fun h hm => absurd hm (hheld t h)⟩, hlocked, fun _ => trivial,
    fun a h hk => absurd hk (hmap a h), fun a h hk => absurd hk (hmap a h),
    fun a h hk => absurd hk (hmap a h), ?_, fun _ _ hr => hr.elim,
    fun a h hk => absurd hk (hmap a h), fun h ho => absurd (hopen h) ho⟩
  rintro a h ⟨name, ho, -⟩
  cases (hopen h).symm.trans ho

theorem next_good (s : State τ σ) (e : HonestEvent τ σ) (hg : Good d s) :
    Good d (honestNext d s e) := by
  obtain ⟨hi, hl, hf⟩ := hg
  cases e with
  | copy t t' h => exact ⟨copy_invariant t t' h hi, copy_locked t t' h hl, copy_facts d t t' h hf⟩
  | registry e he =>
    refine ⟨next_invariant d s e hi, next_locked d s e hl, ?_⟩
    cases e with
    | openDatabase t dbPath =>
      unfold honestNext next
      dsimp only
      split
      · next hp => exact hf.plain d hp trivial trivial trivial fun _ => id
      · exact hf
    | step t env visit => exact hf.step d hl hi (HonestOpen.creates he) visit
    | drop t h => exact hf.drop d h

end RegistryInvariant
