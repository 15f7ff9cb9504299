import MadSqlite.RegistryInvariant

/-! # One live handle for every file

Whatever the threads do, handles that were opened without error are shared by their paths
and the others are not shared at all. What a destructor leaves in the map is alive or
belongs to another destructor. -/
namespace OneHandle

open CppStrings HandleTable MadDatabase DatabaseSet RegistryThreads RegistryInvariant Runs

variable {τ σ : Type*} (d : Directory)

/-- A destructor that has not come to its end. -/
def Destroying : Phase → Prop
  | .lockToDestroy _ | .closeConnection _ | .sweepEntries _ | .unlockDestroyed => True
  | _ => False

variable [DecidableEq τ]

structure Consistent (s : State τ σ) : Prop where
  entry : ∀ absPath h, s.registry.databaseSet.lookup absPath = some h →
    0 < useCount s.registry h → Opened d s.registry h absPath
  same : ∀ absPath h h', 0 < useCount s.registry h → 0 < useCount s.registry h' →
    Opened d s.registry h absPath → Opened d s.registry h' absPath → h = h'
  failed : ∀ h name err, opening s.registry h = some (name, err) → err ≠ [] →
    (∀ absPath, s.registry.databaseSet.lookup absPath ≠ some h) ∧
      ∀ t env visit, ((step d s t env visit).threads t).phase = .unlockAndReturn (some h) →
        ∃ dbPath, (s.threads t).phase = .register dbPath err h
  sweeps : ∀ t keys env visit, (s.threads t).phase = .sweepEntries keys → visit ∈ keys →
    ∀ absPath h, (step d s t env visit).registry.databaseSet.lookup absPath = some h ↔
      s.registry.databaseSet.lookup absPath = some h ∧
        (absPath = visit → expired s.registry h = false)
  swept : ∀ t, (s.threads t).phase = .unlockDestroyed →
    ∀ absPath h, s.registry.databaseSet.lookup absPath = some h →
      expired s.registry h = true → ∃ t', Closes h (s.threads t').phase
  quiet : (∀ t, ¬Destroying (s.threads t).phase) →
    ∀ absPath h, s.registry.databaseSet.lookup absPath = some h → expired s.registry h = false

section Facts

variable {s : State τ σ}

omit [DecidableEq τ] in
theorem one_handle (hl : Locked s) (hf : Facts d s) {absPath : Bytes} {h h' : ℕ}
    (hu : 0 < useCount s.registry h) (hu' : 0 < useCount s.registry h')
    (ho : Opened d s.registry h absPath) (ho' : Opened d s.registry h' absPath) : h = h' := by
  -- A handle that waits to be registered has no entry under its path yet.
  have hfresh : ∀ {t i}, Registers i (s.threads t).phase → Opened d s.registry i absPath →
      s.registry.databaseSet.lookup absPath = none := by
    intro t i hr hi
    obtain ⟨dbPath, err, hph⟩ := hr.phase_eq
    have hp := hf.phase t
    rw [hph] at hp
    obtain ⟨name, hn, rfl⟩ := hi
    rw [hp.2.1] at hn
    cases hn
    exact hp.1
  rcases hf.registered absPath h ho hu with hk | ⟨t, hr⟩
  · rcases hf.registered absPath h' ho' hu' with hk' | ⟨t', hr'⟩
    · exact Option.some.inj (hk.symm.trans hk')
    · cases hk.symm.trans (hfresh hr' ho')
  · rcases hf.registered absPath h' ho' hu' with hk' | ⟨t', hr'⟩
    · cases hk'.symm.trans (hfresh hr ho)
    · have ht : t' = t := by
        by_contra ht
        simpa [hl.others hr.critical ht] using hr'.critical
      obtain ⟨dbPath, err, hph⟩ := hr.phase_eq
      rw [ht, hph] at hr'
      exact hr'

omit [DecidableEq τ] in
theorem failed_not_registered (hf : Facts d s) {h : ℕ} {name err : Bytes}
    (ho : opening s.registry h = some (name, err)) (he : err ≠ []) (absPath : Bytes) :
    s.registry.databaseSet.lookup absPath ≠ some h := by
  intro hk
  obtain ⟨name', hn, -⟩ := hf.entry absPath h hk (by simp [ho])
  rw [ho] at hn
  cases hn
  exact he rfl

/-- Only the upgrade of an entry returns a handle that the call has not made itself. -/
theorem returned_by_maker (hf : Facts d s) {h : ℕ} {name err : Bytes}
    (ho : opening s.registry h = some (name, err)) (he : err ≠ []) {t : τ} {env : OpenEnv σ}
    {visit : Bytes}
    (hr : ((step d s t env visit).threads t).phase = .unlockAndReturn (some h)) :
    ∃ dbPath, (s.threads t).phase = .register dbPath err h := by
  have hp := hf.phase t
  unfold step at hr
  cases hph : (s.threads t).phase with
  | upgrade h' =>
    rw [hph] at hr hp
    obtain ⟨absPath, hk⟩ := hp
    dsimp only [lock] at hr
    split at hr
    · simp [move] at hr
    · simp only [move, Function.update_self, Phase.unlockAndReturn.injEq, Option.some.injEq] at hr
      exact absurd (hr ▸ hk) (failed_not_registered d hf ho he absPath)
  | register dbPath err' ptr =>
    rw [hph] at hr hp
    obtain ⟨-, hopen, -⟩ := hp
    simp only [move, Function.update_self, Phase.unlockAndReturn.injEq, Option.some.injEq] at hr
    rw [hr, ho] at hopen
    cases hopen
    exact ⟨dbPath, by rw [hr]⟩
  | findEntry dbPath =>
    rw [hph] at hr
    dsimp only at hr
    split at hr
    · split at hr <;> simp [move] at hr
    · simp [move] at hr
  | sweepEntries keys =>
    rw [hph] at hr
    dsimp only at hr
    split at hr
    · simp [move] at hr
    · split at hr <;> simp [move, hph] at hr
  | unlockAndReturn result => simp [hph] at hr
  | idle => simp [hph] at hr
  | makeHandle dbPath => simp [hph, move] at hr
  | closeConnection h' => simp [hph, move] at hr
  | unlockDestroyed => simp [hph, move] at hr
  | _ =>
    rw [hph] at hr
    dsimp only at hr
    split at hr <;> simp [move, hph] at hr

end Facts

theorem consistent_of_good {s : State τ σ} (hg : Good d s) : Consistent d s := by
  obtain ⟨-, hl, hf⟩ := hg
  refine ⟨fun a h hk hu => hf.entry a h hk (opening_ne_none hu),
    fun _ _ _ => one_handle d hl hf, ?_, ?_, ?_, ?_⟩
  · intro h name err ho he
    exact ⟨failed_not_registered d hf ho he, fun t env visit => returned_by_maker d hf ho he⟩
  · intro t keys env visit hph hv absPath h
    have hn : keys ≠ [] := List.ne_nil_of_mem hv
    have hstep : (step d s t env visit).registry = sweepEntry s.registry visit := by
      simp [step, hph, hn, hv, move]
    rw [hstep, sweepEntry_lookup]
  · intro t hph a h hk hx
    obtain ⟨t', hr⟩ := hf.removal a h hk (by simpa [expired] using hx)
    refine ⟨t', ?_⟩
    cases hph' : (s.threads t').phase with
    | sweepEntries keys =>
      have ht : t' ≠ t := by
        rintro rfl
        simp [hph] at hph'
      have hc : Critical (s.threads t).phase = true := by rw [hph]; rfl
      simpa [hph', Critical] using hl.others hc ht
    | _ =>
      rw [hph'] at hr
      exact hr
  · intro hquiet a h hk
    rw [expired_eq_false, Nat.pos_iff_ne_zero]
    intro hz
    obtain ⟨t, hr⟩ := hf.removal a h hk hz
    have hd := hquiet t
    cases hph : (s.threads t).phase <;> simp_all [Removes, Closes, Destroying]

/-- Openings and drops of any number of threads keep the map consistent. -/
theorem always_consistent (files : Bytes → Bool) (es : List (HonestEvent τ σ)) :
    AllStates (honestNext d) (Consistent d) (RegistryThreads.initial files) es :=
  allStates_of_invariant (next_good d) (fun _ hg => consistent_of_good d hg)
    (initial_good d files) es

end OneHandle
