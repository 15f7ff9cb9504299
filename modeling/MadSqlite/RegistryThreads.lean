import MadSqlite.DatabaseRegistry

/-! # Threads that open and drop handles

`openDatabase` and the destructor in the steps that threads can observe. The mutex keeps
the map to one thread at a time, but the last reference to a handle can go between the
test for expiry and the upgrade of the weak pointer. -/
namespace RegistryThreads

open CppStrings HandleTable MadDatabase DatabaseSet Runs

variable {τ σ : Type*} (d : Directory)

inductive Phase where
  | idle
  | lockToOpen (dbPath : Bytes)
  | findEntry (dbPath : Bytes)
  | testExpired (dbPath absPath : Bytes) (h : ℕ)
  | upgrade (h : ℕ)
  | makeHandle (dbPath : Bytes)
  | register (dbPath err : Bytes) (ptr : ℕ)
  | unlockAndReturn (result : Option ℕ)
  | lockToDestroy (h : ℕ)
  | closeConnection (h : ℕ)
  | sweepEntries (keys : List Bytes)
  | unlockDestroyed
  deriving DecidableEq

structure Thread where
  phase : Phase
  held : List ℕ

structure State (τ σ : Type*) where
  registry : DatabaseSet.State σ
  mutex : Option τ
  threads : τ → Thread

def initial (files : Bytes → Bool) : State τ σ :=
  ⟨DatabaseSet.initial files, none, fun _ => ⟨.idle, []⟩⟩

variable [DecidableEq τ]

def move (s : State τ σ) (t : τ) (phase : Phase) (registry : DatabaseSet.State σ) : State τ σ :=
  { s with registry := registry
           threads := Function.update s.threads t ⟨phase, (s.threads t).held⟩ }

/-- The next step of a thread. `env` answers an opening, `visit` is the entry the loop of
the destructor comes to. -/
def step (s : State τ σ) (t : τ) (env : OpenEnv σ) (visit : Bytes) : State τ σ :=
  match (s.threads t).phase with
  | .idle => s
  | .lockToOpen dbPath =>
    if s.mutex = none then { move s t (.findEntry dbPath) s.registry with mutex := some t }
    else s
  | .findEntry dbPath =>
    let absPath := getAbsoluteFilePath d s.registry.files dbPath
    if absPath ≠ [] then
      match s.registry.databaseSet.lookup absPath with
      | some h => move s t (.testExpired dbPath absPath h) s.registry
      | none => move s t (.makeHandle dbPath) s.registry
    else move s t (.makeHandle dbPath) s.registry
  | .testExpired dbPath absPath h =>
    if expired s.registry h then move s t (.makeHandle dbPath) (erase s.registry absPath)
    else move s t (.upgrade h) s.registry
  | .upgrade h =>
    let (result, registry) := lock s.registry h
    move s t (.unlockAndReturn result) registry
  | .makeHandle dbPath =>
    let (ptr, registry) := construct d s.registry dbPath env
    move s t (.register dbPath (openError env) ptr) registry
  | .register dbPath err ptr =>
    move s t (.unlockAndReturn (some ptr)) (publish d s.registry dbPath err ptr)
  | .unlockAndReturn result =>
    { s with mutex := none
             threads := Function.update s.threads t
               ⟨.idle, result.toList ++ (s.threads t).held⟩ }
  | .lockToDestroy h =>
    if s.mutex = none then { move s t (.closeConnection h) s.registry with mutex := some t }
    else s
  | .closeConnection h =>
    let registry := close s.registry h
    move s t (.sweepEntries registry.databaseSet.keys) registry
  | .sweepEntries keys =>
    if keys = [] then move s t .unlockDestroyed s.registry
    else if visit ∈ keys then
      move s t (.sweepEntries (keys.erase visit)) (sweepEntry s.registry visit)
    else s
  | .unlockDestroyed => { move s t .idle s.registry with mutex := none }

/-- A thread that drops the last reference to a handle goes on to destroy it. -/
def drop (s : State τ σ) (t : τ) (h : ℕ) : State τ σ :=
  if (s.threads t).phase = .idle ∧ h ∈ (s.threads t).held then
    let registry := release s.registry h
    let phase := if expired registry h then .lockToDestroy h else .idle
    { s with registry := registry
             threads := Function.update s.threads t ⟨phase, (s.threads t).held.erase h⟩ }
  else s

inductive Event (τ σ : Type*) where
  | openDatabase (t : τ) (dbPath : Bytes)
  | step (t : τ) (env : OpenEnv σ) (visit : Bytes)
  | drop (t : τ) (h : ℕ)

def next (s : State τ σ) : Event τ σ → State τ σ
  | .openDatabase t dbPath =>
    if (s.threads t).phase = .idle then move s t (.lockToOpen dbPath) s.registry else s
  | .step t env visit => step d s t env visit
  | .drop t h => drop s t h

def NoNull (s : State τ σ) : Prop := ∀ t, (s.threads t).phase ≠ .unlockAndReturn none

/-- Neither now nor after the next step of a thread. -/
def NeverNull (s : State τ σ) : Prop :=
  NoNull s ∧ ∀ t env visit, NoNull (next d s (.step t env visit))

/-- No thread has tested the handle whose last reference is dropped, and not yet upgraded it. -/
def NotBetween (s : State τ σ) : Event τ σ → Prop
  | .drop t h => (s.threads t).phase = .idle → h ∈ (s.threads t).held →
      useCount s.registry h = 1 → ∀ t', (s.threads t').phase ≠ .upgrade h
  | _ => True

structure KeepsDead (r r' : DatabaseSet.State σ) : Prop where
  next_le : r.objects.next ≤ r'.objects.next
  dead : ∀ h, h < r.objects.next → useCount r h = 0 → useCount r' h = 0

structure Extends (r r' : DatabaseSet.State σ) : Prop extends KeepsDead r r' where
  alive : ∀ h, 0 < useCount r h → 0 < useCount r' h

theorem useCount_lt_next {r : DatabaseSet.State σ} {h : ℕ} (hl : 0 < useCount r h) :
    h < r.objects.next := by
  by_contra hn
  have hm : h ∉ r.objects.ids := fun hm => hn (Table.lt_next hm)
  simp [useCount, Table.find?_eq_none.mpr hm] at hl

theorem KeepsDead.release (r : DatabaseSet.State σ) (h : ℕ) : KeepsDead r (release r h) := by
  constructor
  · exact le_rfl
  · intro i _ hz
    rw [useCount_release]
    split
    · next hi => rw [← hi, hz]
    · exact hz

namespace Extends

variable (r : DatabaseSet.State σ)

theorem refl : Extends r r := ⟨⟨le_rfl, fun _ _ hz => hz⟩, fun _ hl => hl⟩

theorem of_objects {r r' : DatabaseSet.State σ} (h : r'.objects = r.objects) : Extends r r' := by
  have hu : ∀ i, useCount r' i = useCount r i := fun i => by rw [useCount, h, useCount]
  refine ⟨⟨by rw [h], ?_⟩, ?_⟩
  · exact fun i _ hz => by rwa [hu]
  · exact fun i hl => by rwa [hu]

theorem retain {h : ℕ} (hl : 0 < useCount r h) : Extends r (retain r h) := by
  refine ⟨⟨le_rfl, ?_⟩, ?_⟩
  · intro i _ hz
    rw [useCount_retain _ _ _ hl, if_neg (by rintro rfl; omega), hz]
  · intro i hi
    rw [useCount_retain _ _ _ hl]
    split <;> omega

theorem construct (dbPath : Bytes) (env : OpenEnv σ) :
    Extends r (construct d r dbPath env).2 := by
  refine ⟨⟨Nat.le_succ _, ?_⟩, ?_⟩
  · intro i hi hz
    rw [useCount_construct, if_neg hi.ne, hz]
  · intro i hi
    rw [useCount_construct]
    split <;> omega

theorem close {h : ℕ} (hz : useCount r h = 0) : Extends r (close r h) := by
  refine ⟨⟨le_rfl, ?_⟩, ?_⟩
  · intro i _ hi
    rw [useCount_close]
    split
    · rfl
    · exact hi
  · intro i hi
    rw [useCount_close, if_neg (by rintro rfl; omega)]
    exact hi

end Extends

/-- The handles of a thread exist or have existed, and what it destroys is expired. -/
def PhaseOk (r : DatabaseSet.State σ) : Phase → Prop
  | .register _ _ ptr => ptr < r.objects.next
  | .unlockAndReturn result => ∀ h ∈ result, h < r.objects.next
  | .lockToDestroy h => h < r.objects.next ∧ useCount r h = 0
  | .closeConnection h => h < r.objects.next ∧ useCount r h = 0
  | _ => True

structure ThreadOk (r : DatabaseSet.State σ) (th : Thread) : Prop where
  phase : PhaseOk r th.phase
  held : ∀ h ∈ th.held, h < r.objects.next

def PhaseNotNull (r : DatabaseSet.State σ) : Phase → Prop
  | .upgrade h => 0 < useCount r h
  | .unlockAndReturn result => result ≠ none
  | _ => True

theorem PhaseOk.mono {r r' : DatabaseSet.State σ} {phase : Phase} (he : KeepsDead r r')
    (hok : PhaseOk r phase) : PhaseOk r' phase := by
  have hle := he.next_le
  cases phase with
  | register dbPath err ptr => exact lt_of_lt_of_le hok hle
  | unlockAndReturn result => exact fun h hm => (hok h hm).trans_le hle
  | lockToDestroy h => exact ⟨hok.1.trans_le hle, he.dead h hok.1 hok.2⟩
  | closeConnection h => exact ⟨hok.1.trans_le hle, he.dead h hok.1 hok.2⟩
  | _ => trivial

theorem ThreadOk.mono {r r' : DatabaseSet.State σ} {th : Thread} (he : KeepsDead r r')
    (hok : ThreadOk r th) : ThreadOk r' th :=
  ⟨hok.phase.mono he, fun h hm => (hok.held h hm).trans_le he.next_le⟩

theorem PhaseNotNull.mono {r r' : DatabaseSet.State σ} {phase : Phase} (he : Extends r r')
    (hn : PhaseNotNull r phase) : PhaseNotNull r' phase := by
  cases phase with
  | upgrade h => exact he.alive h hn
  | unlockAndReturn result => exact hn
  | _ => trivial

structure StepEffect (s s' : State τ σ) (t : τ) : Prop where
  threads : ∀ t', t' ≠ t → s'.threads t' = s.threads t'
  registry : Extends s.registry s'.registry
  ok : ThreadOk s'.registry (s'.threads t)
  notNull : PhaseNotNull s.registry (s.threads t).phase →
    PhaseNotNull s'.registry (s'.threads t).phase

omit [DecidableEq τ] in
theorem StepEffect.same {s : State τ σ} {t : τ} (hok : ThreadOk s.registry (s.threads t)) :
    StepEffect s s t :=
  ⟨fun _ _ => rfl, .refl _, hok, id⟩

theorem StepEffect.to {s : State τ σ} {t : τ} {phase : Phase} {held : List ℕ}
    {r : DatabaseSet.State σ} (m : Option τ) (he : Extends s.registry r) (hp : PhaseOk r phase)
    (hh : ∀ h ∈ held, h < r.objects.next)
    (hn : PhaseNotNull s.registry (s.threads t).phase → PhaseNotNull r phase) :
    StepEffect s ⟨r, m, Function.update s.threads t ⟨phase, held⟩⟩ t := by
  constructor
  · exact fun t' ht => Function.update_of_ne ht _ _
  · exact he
  · simpa using ⟨hp, hh⟩
  · simpa using hn

theorem step_effect {s : State τ σ} {t : τ} (hok : ThreadOk s.registry (s.threads t))
    (env : OpenEnv σ) (visit : Bytes) : StepEffect s (step d s t env visit) t := by
  have hh := hok.held
  have hp := hok.phase
  unfold step
  cases hph : (s.threads t).phase with
  | idle => exact .same hok
  | lockToOpen dbPath =>
    dsimp only
    split
    · exact .to _ (.refl _) trivial hh fun _ => trivial
    · exact .same hok
  | findEntry dbPath =>
    dsimp only
    split
    · split
      · exact .to _ (.refl _) trivial hh fun _ => trivial
      · exact .to _ (.refl _) trivial hh fun _ => trivial
    · exact .to _ (.refl _) trivial hh fun _ => trivial
  | testExpired dbPath absPath h =>
    dsimp only
    split
    · exact .to _ (.of_objects rfl) trivial hh fun _ => trivial
    · next hx =>
      exact .to _ (.refl _) trivial hh fun _ => expired_eq_false.mp (by simpa using hx)
  | upgrade h =>
    cases hx : expired s.registry h with
    | true =>
      simp only [lock, hx, if_true]
      refine .to _ (.refl _) (by simp [PhaseOk]) hh fun hn => ?_
      rw [hph] at hn
      simp [expired_eq_false.mpr hn] at hx
    | false =>
      have hl := expired_eq_false.mp hx
      simp only [lock, hx, Bool.false_eq_true, if_false]
      refine .to _ (.retain _ hl) ?_ hh fun _ => Option.some_ne_none h
      rintro h' ⟨⟩
      exact useCount_lt_next (r := s.registry) hl
  | makeHandle dbPath =>
    have hlt := Nat.lt_succ_self s.registry.objects.next
    exact .to _ (.construct d _ dbPath env) hlt (fun h hm => (hh h hm).trans hlt) fun _ => trivial
  | register dbPath err ptr =>
    have ho := publish_objects d s.registry dbPath err ptr
    refine .to _ (.of_objects ho) ?_ ?_ fun _ => Option.some_ne_none ptr
    · rintro h' ⟨⟩
      rw [ho]
      rwa [hph] at hp
    · rwa [ho]
  | unlockAndReturn result =>
    rw [hph] at hp
    refine .to _ (.refl _) trivial ?_ fun _ => trivial
    intro h hm
    rcases List.mem_append.mp hm with hm | hm
    · exact hp h (Option.mem_toList.mp hm)
    · exact hh h hm
  | lockToDestroy h =>
    rw [hph] at hp
    dsimp only
    split
    · exact .to _ (.refl _) hp hh fun _ => trivial
    · exact .same hok
  | closeConnection h =>
    rw [hph] at hp
    exact .to _ (.close _ hp.2) trivial hh fun _ => trivial
  | sweepEntries keys =>
    have ho := sweepEntry_objects s.registry visit
    dsimp only
    split
    · exact .to _ (.refl _) trivial hh fun _ => trivial
    · split
      · exact .to _ (.of_objects ho) trivial (by rwa [ho]) fun _ => trivial
      · exact .same hok
  | unlockDestroyed => exact .to _ (.refl _) trivial hh fun _ => trivial

def Invariant (s : State τ σ) : Prop := ∀ t, ThreadOk s.registry (s.threads t)

def NotNull (s : State τ σ) : Prop := ∀ t, PhaseNotNull s.registry (s.threads t).phase

omit [DecidableEq τ] in
theorem StepEffect.invariant {s s' : State τ σ} {t : τ} (he : StepEffect s s' t)
    (hi : Invariant s) : Invariant s' := by
  intro t'
  by_cases ht : t' = t
  · exact ht ▸ he.ok
  · rw [he.threads t' ht]
    exact (hi t').mono he.registry.toKeepsDead

omit [DecidableEq τ] in
theorem StepEffect.notNull_all {s s' : State τ σ} {t : τ} (he : StepEffect s s' t)
    (hn : NotNull s) : NotNull s' := by
  intro t'
  by_cases ht : t' = t
  · exact ht ▸ he.notNull (hn t)
  · rw [he.threads t' ht]
    exact (hn t').mono he.registry

theorem openDatabase_effect {s : State τ σ} {t : τ} (hok : ThreadOk s.registry (s.threads t))
    (dbPath : Bytes) : StepEffect s (next d s (.openDatabase t dbPath)) t := by
  unfold next
  dsimp only
  split
  · exact .to _ (.refl _) trivial hok.held fun _ => trivial
  · exact .same hok

theorem drop_invariant {s : State τ σ} (hi : Invariant s) (t : τ) (h : ℕ) :
    Invariant (drop s t h) := by
  unfold drop
  split
  · next hc =>
    intro t'
    have hk := KeepsDead.release s.registry h
    by_cases ht : t' = t
    · subst ht
      simp only [Function.update_self]
      have hheld := ((hi t').mono hk).held
      constructor
      · dsimp only
        split
        · next hx => exact ⟨hheld h hc.2, by simpa [expired] using hx⟩
        · trivial
      · exact fun i hm => hheld i (List.mem_of_mem_erase hm)
    · simp only [Function.update_of_ne ht]
      exact (hi t').mono hk
  · exact hi

theorem next_invariant (s : State τ σ) (e : Event τ σ) (hi : Invariant s) :
    Invariant (next d s e) := by
  cases e with
  | openDatabase t dbPath => exact (openDatabase_effect d (hi t) dbPath).invariant hi
  | step t env visit => exact (step_effect d (hi t) env visit).invariant hi
  | drop t h => exact drop_invariant hi t h

theorem release_notNull {r : DatabaseSet.State σ} {phase : Phase} (hn : PhaseNotNull r phase)
    (h : ℕ) : PhaseNotNull (release r h) phase ↔ (useCount r h = 1 → phase ≠ .upgrade h) := by
  cases phase with
  | upgrade h' =>
    have hl : 0 < useCount r h' := hn
    simp only [PhaseNotNull, useCount_release, ne_eq, Phase.upgrade.injEq]
    split
    · next he => subst he; omega
    · next he => simp [hl, he]
  | unlockAndReturn result => exact iff_of_true hn fun _ => nofun
  | _ => exact iff_of_true trivial fun _ => nofun

theorem drop_notNull {s : State τ σ} (hn : NotNull s) (t : τ) (h : ℕ) :
    NotNull (drop s t h) ↔ NotBetween s (.drop t h) := by
  unfold drop
  split
  · next hc =>
    constructor
    · intro hall _ _ h1 t' hup
      have ht : t' ≠ t := by
        rintro rfl
        simp [hc.1] at hup
      have hnt := hall t'
      simp only [Function.update_of_ne ht] at hnt
      exact (release_notNull (hn t') h).mp hnt h1 hup
    · intro hb t'
      by_cases ht : t' = t
      · subst ht
        simp only [Function.update_self]
        split <;> trivial
      · simp only [Function.update_of_ne ht]
        exact (release_notNull (hn t') h).mpr fun h1 => hb hc.1 hc.2 h1 t'
  · next hc => exact iff_of_true hn fun hp hm => absurd ⟨hp, hm⟩ hc

theorem next_notNull {s : State τ σ} (hi : Invariant s) (hn : NotNull s) (e : Event τ σ) :
    NotNull (next d s e) ↔ NotBetween s e := by
  cases e with
  | openDatabase t dbPath =>
    exact iff_of_true ((openDatabase_effect d (hi t) dbPath).notNull_all hn) trivial
  | step t env visit =>
    exact iff_of_true ((step_effect d (hi t) env visit).notNull_all hn) trivial
  | drop t h => exact drop_notNull hn t h

omit [DecidableEq τ] in
theorem NotNull.noNull {s : State τ σ} (hn : NotNull s) : NoNull s := by
  intro t hp
  have h := hn t
  rw [hp] at h
  exact h rfl

/-- Upgrading an expired reference is the one way to a null pointer. -/
theorem neverNull_iff [Inhabited σ] {s : State τ σ} (hi : Invariant s) :
    NeverNull d s ↔ NotNull s := by
  constructor
  · rintro ⟨hnow, hnext⟩ t
    cases hp : (s.threads t).phase with
    | upgrade h =>
      by_contra hz
      have hx : expired s.registry h = true := by
        simpa [expired, PhaseNotNull] using hz
      refine hnext t ⟨default, none, false⟩ [] t ?_
      simp [next, step, hp, lock, hx, move]
    | unlockAndReturn result =>
      rintro rfl
      exact hnow t hp
    | _ => trivial
  · intro hn
    refine ⟨hn.noNull, fun t env visit => ?_⟩
    exact ((next_notNull d hi hn (.step t env visit)).mpr trivial).noNull

/-- No call of `openDatabase` returns a null pointer, exactly when no thread drops the last
reference to a handle between another thread's test and upgrade of it. -/
theorem never_null_iff [Inhabited σ] (files : Bytes → Bool) (es : List (Event τ σ)) :
    AllStates (next d) (NeverNull d) (initial files) es ↔
      AllSteps (next d) NotBetween (initial files) es := by
  have hfirst : Invariant (initial files : State τ σ) := fun t => ⟨trivial, nofun⟩
  refine allStates_iff_allSteps (next_invariant d) ?_ hfirst
    ((neverNull_iff d hfirst).mpr fun t => trivial)
  intro s e hi hn
  rw [neverNull_iff d (next_invariant d s e hi)]
  exact next_notNull d hi ((neverNull_iff d hi).mp hn) e

/-- A thread alone does in its steps what `openDatabase` does as one action. -/
theorem open_alone {s : State τ σ} {t : τ} (hm : s.mutex = none)
    (hp : (s.threads t).phase = .idle) (dbPath : Bytes) (env : OpenEnv σ) :
    run (next d) s (.openDatabase t dbPath :: List.replicate 6 (.step t env [])) =
      let (result, registry) := DatabaseRegistry.openDatabase d s.registry dbPath env
      ⟨registry, none, Function.update s.threads t
        ⟨.idle, result.toList ++ (s.threads t).held⟩⟩ := by
  unfold DatabaseRegistry.openDatabase
  by_cases ha : getAbsoluteFilePath d s.registry.files dbPath = []
  · simp [next, step, move, hp, hm, ha, DatabaseRegistry.openNew, List.replicate]
  · cases hk : s.registry.databaseSet.lookup (getAbsoluteFilePath d s.registry.files dbPath) with
    | none => simp [next, step, move, hp, hm, ha, hk, DatabaseRegistry.openNew, List.replicate]
    | some h =>
      cases hx : expired s.registry h <;>
        simp [next, step, move, hp, hm, ha, hk, hx, lock, DatabaseRegistry.openNew, List.replicate]

theorem sweep_alone {s : State τ σ} {t : τ} {keys : List Bytes}
    (hp : (s.threads t).phase = .sweepEntries keys) (env : OpenEnv σ) :
    run (next d) s (keys.map (.step t env ·)) =
      move s t (.sweepEntries []) (keys.foldl sweepEntry s.registry) := by
  induction keys generalizing s with
  | nil =>
    have ht : (⟨.sweepEntries [], (s.threads t).held⟩ : Thread) = s.threads t := by
      rw [← hp]
    simp [move, ht]
  | cons key keys ih =>
    have hstep : next d s (.step t env key) =
        move s t (.sweepEntries keys) (sweepEntry s.registry key) := by
      simp [next, step, hp]
    rw [List.map_cons, run_cons, hstep, ih (by simp [move])]
    simp [move]

theorem run_idle {s : State τ σ} {t : τ} (hp : (s.threads t).phase = .idle)
    {es : List (Event τ σ)} (he : ∀ e ∈ es, ∃ env visit, e = .step t env visit) :
    run (next d) s es = s := by
  induction es with
  | nil => rfl
  | cons e es ih =>
    rw [List.forall_mem_cons] at he
    obtain ⟨⟨env, visit, rfl⟩, he⟩ := he
    have hstep : next d s (.step t env visit) = s := by simp [next, step, hp]
    rw [run_cons, hstep]
    exact ih he

/-- The same for dropping a reference, whatever the loop of the destructor meets. -/
theorem drop_alone {s : State τ σ} {t : τ} {h : ℕ} (hm : s.mutex = none)
    (hp : (s.threads t).phase = .idle) (hh : h ∈ (s.threads t).held)
    (hl : expired s.registry h = false) (env : OpenEnv σ) :
    run (next d) s (.drop t h :: .step t env [] :: .step t env [] ::
        (s.registry.databaseSet.keys.map (.step t env ·) ++ List.replicate 2 (.step t env []))) =
      ⟨DatabaseRegistry.drop s.registry h, none,
        Function.update s.threads t ⟨.idle, (s.threads t).held.erase h⟩⟩ := by
  cases hx : expired (release s.registry h) h with
  | false =>
    have hdrop : next d s (.drop t h) = ⟨release s.registry h, none,
        Function.update s.threads t ⟨.idle, (s.threads t).held.erase h⟩⟩ := by
      simp [next, drop, hp, hh, hx, hm]
    rw [run_cons, hdrop, run_idle d (t := t) (by simp)]
    · simp [DatabaseRegistry.drop, hl, hx]
    · intro e he
      simp only [List.mem_cons, List.mem_append, List.mem_map, List.mem_replicate] at he
      rcases he with rfl | rfl | ⟨key, -, rfl⟩ | ⟨-, rfl⟩ <;> exact ⟨_, _, rfl⟩
  | true =>
    have hclose : run (next d) s [.drop t h, .step t env [], .step t env []] =
        ⟨close (release s.registry h) h, some t, Function.update s.threads t
          ⟨.sweepEntries s.registry.databaseSet.keys, (s.threads t).held.erase h⟩⟩ := by
      simp [next, step, move, drop, hp, hh, hx, hm]
      rfl
    have hsplit (es fs : List (Event τ σ)) : run (next d) s
        (.drop t h :: .step t env [] :: .step t env [] :: (es ++ fs)) = run (next d)
          (run (next d) (run (next d) s [.drop t h, .step t env [], .step t env []]) es) fs := by
      rw [← run_append, ← run_append]
      rfl
    rw [hsplit, hclose, sweep_alone d (by simp)]
    simp [DatabaseRegistry.drop, hl, hx, next, step, move, sweep, List.replicate]
    rfl

def steps (t : Fin 2) (n : ℕ) : List (Event (Fin 2) (List ℕ)) :=
  List.replicate n (.step t created [])

/-- The second thread has found the handle of the first one when the first one drops it. -/
def droppedBetween : List (Event (Fin 2) (List ℕ)) :=
  .openDatabase 0 (ascii "a") :: steps 0 5 ++
    .openDatabase 1 (ascii "a") :: steps 1 3 ++ .drop 0 0 :: steps 1 1

theorem droppedBetween_null :
    ¬AllStates (next flatDirectory) NoNull (initial fun _ => false) droppedBetween := by
  intro h
  exact h.last 1 (by decide)

end RegistryThreads
