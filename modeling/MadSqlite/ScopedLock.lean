import MadSqlite.Runs
import Mathlib.Data.Nat.Find
import Mathlib.Logic.Function.Basic

/-! # Threads that share a mutex

The code of a thread as a tree: it acts, goes on with the answer, and takes and releases the
mutex on its way. A guard releases on every way out of its scope. Interleavings decide the
order of the steps, the environment the answers. -/
namespace ScopedLock

open Runs

universe u v

inductive Code (A : Type u) (R : A → Type v) where
  | done
  | lock (k : Code A R)
  | unlock (k : Code A R)
  | act (a : A) (k : R a → Code A R)

variable {A : Type u} {R : A → Type v} {τ M : Type*}

namespace Code

/-- The scope of a guard. Whatever way the body takes, it leaves by `out`. -/
def guarded (body : Code A R → Code A R) (exit : Code A R) : Code A R :=
  .lock (body (.unlock exit))

/-- `inside` is what the thread has done since it took the mutex, none when it does not hold
it. The mutex is never taken twice nor kept, and each action is admitted by `P`. -/
def Obeys (P : Option (List A) → A → Prop) : Option (List A) → Code A R → Prop
  | inside, .done => inside = none
  | inside, .lock k => inside = none ∧ Obeys P (some []) k
  | inside, .unlock k => inside ≠ none ∧ Obeys P none k
  | inside, .act a k => P inside a ∧ ∀ r, Obeys P (inside.map (a :: ·)) (k r)

/-- The actions of a code that is run to its end, and what they answer. -/
inductive Trace : Code A R → List ((a : A) × R a) → Prop where
  | done : Trace .done []
  | lock {k l} : Trace k l → Trace (.lock k) l
  | unlock {k l} : Trace k l → Trace (.unlock k) l
  | act {a k l} (r : R a) : Trace (k r) l → Trace (.act a k) (⟨a, r⟩ :: l)

variable {P : Option (List A) → A → Prop}

theorem Obeys.guarded {body : Code A R → Code A R} {exit : Code A R}
    (hb : ∀ out, (∀ l, Obeys P (some l) out) → Obeys P (some []) (body out))
    (he : Obeys P none exit) : Obeys P none (guarded body exit) :=
  ⟨rfl, hb _ fun _ => ⟨Option.some_ne_none _, he⟩⟩

theorem Trace.guarded {body : Code A R → Code A R} {exit : Code A R}
    {l : List ((a : A) × R a)} (h : Trace (body (.unlock exit)) l) : Trace (guarded body exit) l :=
  .lock h

end Code

/-- `called` is the last call of a thread, `since` what the threads have done since the mutex
was last taken, the latest first. -/
structure State (τ M : Type*) (A : Type u) (R : A → Type v) where
  mutex : Option τ
  code : τ → Code A R
  called : τ → Option M
  since : List (τ × A)

def initial : State τ M A R := ⟨none, fun _ => .done, fun _ => none, []⟩

inductive Event (τ M : Type*) (A : Type u) (R : A → Type v) where
  | call (t : τ) (m : M)
  | step (t : τ) (env : ∀ a, R a)

variable [DecidableEq τ]

def goOn (s : State τ M A R) (t : τ) (k : Code A R) : State τ M A R :=
  { s with code := Function.update s.code t k }

def step (s : State τ M A R) (t : τ) (env : ∀ a, R a) : State τ M A R :=
  match s.code t with
  | .done => s
  | .lock k => if s.mutex = none then { goOn s t k with mutex := some t, since := [] } else s
  | .unlock k => { goOn s t k with mutex := none }
  | .act a k => { goOn s t (k (env a)) with since := (t, a) :: s.since }

variable (program : M → Code A R)

def next (s : State τ M A R) : Event τ M A R → State τ M A R
  | .call t m =>
    match s.code t with
    | .done => { goOn s t (program m) with called := Function.update s.called t (some m) }
    | _ => s
  | .step t env => step s t env

/-- What a thread has done inside the mutex, if it holds it. -/
def inside (s : State τ M A R) (t : τ) : Option (List A) :=
  if s.mutex = some t then some ((s.since.filter (·.1 = t)).map Prod.snd) else none

structure Orderly (P : M → Option (List A) → A → Prop) (s : State τ M A R) : Prop where
  obeys : ∀ t, ∀ m ∈ s.called t, (s.code t).Obeys (P m) (inside s t)
  uncalled : ∀ t, s.called t = none → s.code t = .done ∧ s.mutex ≠ some t

variable {P : M → Option (List A) → A → Prop} {s : State τ M A R} {t : τ}

@[simp] theorem inside_eq_none : inside s t = none ↔ s.mutex ≠ some t := by
  unfold inside
  split <;> simp [*]

theorem inside_ne_none : inside s t ≠ none ↔ s.mutex = some t := by
  rw [ne_eq, inside_eq_none, not_not]

theorem initial_orderly : Orderly P (initial : State τ M A R) :=
  ⟨fun _ _ hm => (Option.not_mem_none _ hm).elim, fun _ _ => ⟨rfl, nofun⟩⟩

namespace Orderly

theorem called_of_busy (h : Orderly P s) (hb : s.code t ≠ .done) : ∃ m, s.called t = some m := by
  refine Option.ne_none_iff_exists'.mp fun hn => ?_
  exact hb (h.uncalled t hn).1

theorem goOn {s' : State τ M A R} (h : Orderly P s) {k : Code A R} (hb : s.code t ≠ .done)
    (hcode : s'.code = Function.update s.code t k) (hcalled : s'.called = s.called)
    (ht : ∀ m ∈ s.called t, k.Obeys (P m) (inside s' t))
    (hu : ∀ u, u ≠ t → inside s' u = inside s u) : Orderly P s' := by
  constructor
  · intro u m hm
    rw [hcalled] at hm
    by_cases htu : u = t
    · subst htu
      rw [hcode, Function.update_self]
      exact ht m hm
    · rw [hcode, Function.update_of_ne htu, hu u htu]
      exact h.obeys u m hm
  · intro u hn
    rw [hcalled] at hn
    have htu : u ≠ t := by
      rintro rfl
      exact hb (h.uncalled u hn).1
    rw [hcode, Function.update_of_ne htu, ← inside_eq_none, hu u htu, inside_eq_none]
    exact h.uncalled u hn

theorem lock (h : Orderly P s) {k : Code A R} (hc : s.code t = .lock k) :
    s.mutex ≠ some t ∧ ∀ m ∈ s.called t, k.Obeys (P m) (some []) := by
  obtain ⟨m, hm⟩ := h.called_of_busy (t := t) (by simp [hc])
  have ho := h.obeys t m hm
  rw [hc] at ho
  refine ⟨inside_eq_none.mp ho.1, fun m' hm' => ?_⟩
  have ho' := h.obeys t m' hm'
  rw [hc] at ho'
  exact ho'.2

theorem unlock (h : Orderly P s) {k : Code A R} (hc : s.code t = .unlock k) :
    s.mutex = some t ∧ ∀ m ∈ s.called t, k.Obeys (P m) none := by
  obtain ⟨m, hm⟩ := h.called_of_busy (t := t) (by simp [hc])
  have ho := h.obeys t m hm
  rw [hc] at ho
  refine ⟨inside_ne_none.mp ho.1, fun m' hm' => ?_⟩
  have ho' := h.obeys t m' hm'
  rw [hc] at ho'
  exact ho'.2

theorem act (h : Orderly P s) {a : A} {k : R a → Code A R} (hc : s.code t = .act a k) :
    ∀ m ∈ s.called t, P m (inside s t) a ∧
      ∀ r, (k r).Obeys (P m) ((inside s t).map (a :: ·)) := by
  intro m hm
  have ho := h.obeys t m hm
  rwa [hc] at ho

theorem done (h : Orderly P s) (hc : s.code t = .done) : s.mutex ≠ some t := by
  cases hm : s.called t with
  | none => exact (h.uncalled t hm).2
  | some m =>
    have ho := h.obeys t m hm
    rw [hc] at ho
    exact inside_eq_none.mp ho

end Orderly

theorem inside_act (a : A) (k : Code A R) (u : τ) :
    inside { goOn s t k with since := (t, a) :: s.since } u =
      if u = t then (inside s u).map (a :: ·) else inside s u := by
  unfold inside goOn
  by_cases hu : u = t
  · subst hu
    by_cases hm : s.mutex = some u <;> simp [hm]
  · by_cases hm : s.mutex = some u <;> simp [hm, hu, Ne.symm hu]

theorem step_orderly (h : Orderly P s) (t : τ) (env : ∀ a, R a) : Orderly P (step s t env) := by
  unfold step
  cases hc : s.code t with
  | done => exact h
  | lock k =>
    obtain ⟨hm, hk⟩ := h.lock hc
    dsimp only
    split
    · next hn =>
      refine h.goOn (by simp [hc]) rfl rfl (fun m hm => ?_) fun u hu => ?_
      · simpa [inside, ScopedLock.goOn] using hk m hm
      · simp [inside, hn, hu.symm]
    · exact h
  | unlock k =>
    obtain ⟨hm, hk⟩ := h.unlock hc
    refine h.goOn (by simp [hc]) rfl rfl (fun m hm => ?_) fun u hu => ?_
    · simpa [inside] using hk m hm
    · simp [inside, hm, hu.symm]
  | act a k =>
    refine h.goOn (by simp [hc]) rfl rfl (fun m hm => ?_) fun u hu => ?_
    · rw [inside_act, if_pos rfl]
      exact (h.act hc m hm).2 (env a)
    · rw [inside_act, if_neg hu]

variable {program : M → Code A R}

theorem next_orderly (hp : ∀ m, (program m).Obeys (P m) none) (s : State τ M A R)
    (e : Event τ M A R) (h : Orderly P s) : Orderly P (next program s e) := by
  cases e with
  | step t env => exact step_orderly h t env
  | call t m =>
    unfold next
    dsimp only
    split
    · next hc =>
      have hm := h.done hc
      constructor
      · intro u m' hm'
        by_cases hu : u = t
        · subst hu
          simp only [Function.update_self, Option.mem_def, Option.some.injEq] at hm'
          subst hm'
          have hi : inside { ScopedLock.goOn s u (program m) with
              called := Function.update s.called u (some m) } u = none :=
            inside_eq_none.mpr hm
          rw [hi]
          simpa [ScopedLock.goOn] using hp m
        · simp only [Function.update_of_ne hu] at hm'
          simp only [ScopedLock.goOn, Function.update_of_ne hu]
          exact h.obeys u m' hm'
      · intro u hn
        have hu : u ≠ t := by
          rintro rfl
          simp at hn
        simp only [Function.update_of_ne hu] at hn
        simpa [ScopedLock.goOn, Function.update_of_ne hu] using h.uncalled u hn
    · exact h

/-- The thread comes to its turn again and again. -/
def Scheduled (t : τ) (f : ℕ → Event τ M A R) : Prop :=
  ∀ n, ∃ m, n ≤ m ∧ ∃ env, f m = .step t env

omit [DecidableEq τ] in
theorem Scheduled.shift {f : ℕ → Event τ M A R} (hf : Scheduled t f) (n : ℕ) :
    Scheduled t fun i => f (n + i) := by
  intro m
  obtain ⟨i, hi, env, he⟩ := hf (n + m)
  have hni : n + (i - n) = i := by omega
  exact ⟨i - n, by omega, env, by dsimp only; rw [hni, he]⟩

omit [DecidableEq τ] in
theorem Scheduled.first_turn {f : ℕ → Event τ M A R} (hf : Scheduled t f) :
    ∃ n env, f n = .step t env ∧ ∀ i < n, ∀ env', f i ≠ .step t env' := by
  classical
  have hex : ∃ n env, f n = .step t env := by
    obtain ⟨n, -, hn⟩ := hf 0
    exact ⟨n, hn⟩
  obtain ⟨env, he⟩ := Nat.find_spec hex
  exact ⟨Nat.find hex, env, he, fun i hi env' he' => Nat.find_min hex hi ⟨env', he'⟩⟩

theorem along_orderly (hp : ∀ m, (program m).Obeys (P m) none) (h : Orderly P s)
    (f : ℕ → Event τ M A R) (n : ℕ) : Orderly P (along (next program) s f n) := by
  rw [along_eq_run]
  exact run_preserves (next_orderly hp) h _

variable (program) in
/-- The others cannot take the mutex away from its holder. -/
theorem holder_kept (h : Orderly P s) (hm : s.mutex = some t) {e : Event τ M A R}
    (he : ∀ env, e ≠ .step t env) :
    (next program s e).mutex = some t ∧ (next program s e).code t = s.code t := by
  cases e with
  | call u m =>
    have hb : s.code t ≠ .done := fun hc => h.done hc hm
    unfold next
    dsimp only
    split
    · next hc =>
      have hu : t ≠ u := by
        rintro rfl
        exact hb hc
      exact ⟨hm, Function.update_of_ne hu _ _⟩
    · exact ⟨hm, rfl⟩
  | step u env =>
    have hu : t ≠ u := by
      rintro rfl
      exact he env rfl
    rw [show next program s (.step u env) = step s u env from rfl, step]
    cases hc : s.code u with
    | done => exact ⟨hm, rfl⟩
    | lock k =>
      dsimp only
      rw [if_neg (by simp [hm])]
      exact ⟨hm, rfl⟩
    | unlock k => exact absurd (hm.symm.trans (h.unlock hc).1) (by simpa using hu)
    | act a k => exact ⟨hm, Function.update_of_ne hu _ _⟩

theorem holder_kept_until (hp : ∀ m, (program m).Obeys (P m) none) (h : Orderly P s)
    (hm : s.mutex = some t) {f : ℕ → Event τ M A R} {n : ℕ}
    (hn : ∀ i < n, ∀ env, f i ≠ .step t env) :
    (along (next program) s f n).mutex = some t ∧
      (along (next program) s f n).code t = s.code t := by
  induction n with
  | zero => exact ⟨hm, rfl⟩
  | succ n ih =>
    obtain ⟨hm', hc'⟩ := ih fun i hi => hn i (by omega)
    have hnext := holder_kept program (along_orderly hp h f n) hm' (hn n (Nat.lt_succ_self n))
    exact ⟨hnext.1, hnext.2.trans hc'⟩

/-- A holder that comes to its turn again and again releases the mutex, whatever its
actions answer. The induction is on the code it has left. -/
theorem released (hp : ∀ m, (program m).Obeys (P m) none) (h : Orderly P s)
    (hm : s.mutex = some t) {f : ℕ → Event τ M A R} (hf : Scheduled t f) :
    ∃ n, (along (next program) s f n).mutex = some t ∧
      (along (next program) s f (n + 1)).mutex = none := by
  generalize hc : s.code t = c
  induction c generalizing s f with
  | done => exact absurd hm (h.done hc)
  | lock k => exact absurd hm (h.lock hc).1
  | unlock k =>
    obtain ⟨n, env, he, hn⟩ := hf.first_turn
    obtain ⟨hm', hc'⟩ := holder_kept_until hp h hm hn
    refine ⟨n, hm', ?_⟩
    rw [along, he]
    simp [next, step, hc'.trans hc]
  | act a k ih =>
    obtain ⟨n, env, he, hn⟩ := hf.first_turn
    obtain ⟨hm', hc'⟩ := holder_kept_until hp h hm hn
    have hstep : (along (next program) s f (n + 1)).mutex = some t ∧
        (along (next program) s f (n + 1)).code t = k (env a) := by
      rw [along, he]
      simp [next, step, hc'.trans hc, goOn, hm']
    obtain ⟨i, hi, hi'⟩ := ih (env a) (along_orderly hp h f (n + 1)) hstep.1
      (hf.shift (n + 1)) hstep.2
    refine ⟨n + 1 + i, ?_, ?_⟩
    · rw [along_add]
      exact hi
    · rw [Nat.add_assoc, along_add]
      exact hi'

theorem others_code {u : τ} (hu : t ≠ u) (env : ∀ a, R a) :
    (step s u env).code t = s.code t := by
  unfold step
  split
  · rfl
  · split
    · exact Function.update_of_ne hu _ _
    · rfl
  · exact Function.update_of_ne hu _ _
  · exact Function.update_of_ne hu _ _

/-- What the threads owe each other. -/
structure NoDeadlock (program : M → Code A R) (s : State τ M A R) : Prop where
  noRelock : ∀ t k, s.code t = .lock k → s.mutex ≠ some t
  finished : ∀ t, s.code t = .done → s.mutex ≠ some t
  released : ∀ t f, s.mutex = some t → Scheduled t f →
    ∃ n, (along (next program) s f n).mutex = some t ∧
      (along (next program) s f (n + 1)).mutex = none
  freed : ∀ f, (∀ t, Scheduled t f) → ∀ n, ∃ m, n ≤ m ∧
    (along (next program) s f m).mutex = none
  served : ∀ t k, s.code t = .lock k → ∀ env : ∀ a, R a, ∃ us : List τ,
    (run (next program) s (us.map (.step · env))).mutex = some t

theorem freed (hp : ∀ m, (program m).Obeys (P m) none) (h : Orderly P s)
    {f : ℕ → Event τ M A R} (hf : ∀ t, Scheduled t f) (n : ℕ) :
    ∃ m, n ≤ m ∧ (along (next program) s f m).mutex = none := by
  cases hm : (along (next program) s f n).mutex with
  | none => exact ⟨n, le_rfl, hm⟩
  | some t =>
    obtain ⟨i, -, hi⟩ := released hp (along_orderly hp h f n) hm ((hf t).shift n)
    exact ⟨n + (i + 1), Nat.le_add_right _ _, by rw [along_add]; exact hi⟩

theorem served (hp : ∀ m, (program m).Obeys (P m) none) (h : Orderly P s) {k : Code A R}
    (hc : s.code t = .lock k) (env : ∀ a, R a) :
    ∃ us : List τ, (run (next program) s (us.map (.step · env))).mutex = some t := by
  have htake : ∀ {s : State τ M A R}, s.mutex = none → s.code t = .lock k →
      (next program s (.step t env)).mutex = some t := by
    intro s hm hc
    simp [next, step, hc, hm]
  cases hm : s.mutex with
  | none => exact ⟨[t], htake hm hc⟩
  | some u =>
    have hu : t ≠ u := by
      rintro rfl
      exact (h.lock hc).1 hm
    let f : ℕ → Event τ M A R := fun _ => .step u env
    have hcode : ∀ n, (along (next program) s f n).code t = s.code t := by
      intro n
      induction n with
      | zero => rfl
      | succ n ih => exact (others_code hu env).trans ih
    obtain ⟨n, -, hn⟩ := released hp h hm (f := f) fun n => ⟨n, le_rfl, env, rfl⟩
    have hrun : run (next program) s ((List.replicate (n + 1) u).map (.step · env)) =
        along (next program) s f (n + 1) := by
      rw [along_eq_run, List.map_const', List.map_replicate, List.length_range]
    refine ⟨List.replicate (n + 1) u ++ [t], ?_⟩
    rw [List.map_append, run_append, hrun]
    exact htake hn ((hcode _).trans hc)

theorem Orderly.noDeadlock (hp : ∀ m, (program m).Obeys (P m) none) (h : Orderly P s) :
    NoDeadlock program s :=
  ⟨fun _ _ hc => (h.lock hc).1, fun _ hc => h.done hc,
    fun _ _ hm hf => ScopedLock.released hp h hm hf, fun _ hf => ScopedLock.freed hp h hf,
    fun _ _ hc => ScopedLock.served hp h hc⟩

end ScopedLock
