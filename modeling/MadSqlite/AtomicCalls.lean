import MadSqlite.Runs
import Mathlib.Logic.Function.Basic

/-! # Calls that do their work under one mutex

A call answers by itself, or it takes the mutex, does all its work on the shared state and
leaves with its answer. The steps of the threads come in any order; what they make of the
shared state is what the calls make of it one after another, as they leave the mutex. -/
namespace AtomicCalls

open Runs

universe u v w

variable {A : Type u} {R : A → Type v} {V : Type w} {τ M S : Type*}

/-- What a call does while it holds the mutex. -/
inductive Body (A : Type u) (R : A → Type v) (V : Type w) where
  | leave (answer : V)
  | act (a : A) (k : R a → Body A R V)

inductive Code (A : Type u) (R : A → Type v) (V : Type w) where
  | alone (answer : V)
  | guarded (body : Body A R V)

/-- Where a thread is in its call. -/
inductive Phase (M : Type*) (A : Type u) (R : A → Type v) (V : Type w) where
  | idle
  | waiting (m : M) (body : Body A R V)
  | inside (m : M) (body : Body A R V)
  | returning (m : M) (answer : V)

/-- `history` has the calls with their answers in the order in which they leave the mutex,
`returned` what each thread has got back. -/
structure State (τ M : Type*) (A : Type u) (R : A → Type v) (V : Type w) (S : Type*) where
  mutex : Option τ
  phase : τ → Phase M A R V
  shared : S
  history : List (τ × M × V)
  returned : τ → List (M × V)

def initial (s₀ : S) : State τ M A R V S := ⟨none, fun _ => .idle, s₀, [], fun _ => []⟩

inductive Event (τ M : Type*) where
  | call (t : τ) (m : M)
  | step (t : τ)

variable (code : M → Code A R V) (act : S → (a : A) → R a × S)

/-- The body in one go. -/
def Body.eval (act : S → (a : A) → R a × S) : Body A R V → S → V × S
  | .leave v, s => (v, s)
  | .act a k, s => (k (act s a).1).eval act (act s a).2

@[simp] theorem eval_act (act : S → (a : A) → R a × S) (a : A) (k : R a → Body A R V) (s : S) :
    (Body.act a k).eval act s = (k (act s a).1).eval act (act s a).2 := rfl

/-- A call that nobody interrupts. -/
def answer (s : S) (m : M) : V × S :=
  match code m with
  | .alone v => (v, s)
  | .guarded body => body.eval act s

section Machine

variable [DecidableEq τ]

def enter (s : State τ M A R V S) (t : τ) (m : M) : State τ M A R V S :=
  match code m with
  | .alone v =>
    { s with
      phase := Function.update s.phase t (.returning m v)
      history := s.history ++ [(t, m, v)] }
  | .guarded body => { s with phase := Function.update s.phase t (.waiting m body) }

def step (s : State τ M A R V S) (t : τ) : State τ M A R V S :=
  match s.phase t with
  | .idle => s
  | .waiting m body =>
    if s.mutex = none then
      { s with mutex := some t, phase := Function.update s.phase t (.inside m body) }
    else s
  | .inside m (.act a k) =>
    { s with
      phase := Function.update s.phase t (.inside m (k (act s.shared a).1))
      shared := (act s.shared a).2 }
  | .inside m (.leave v) =>
    { s with
      mutex := none
      phase := Function.update s.phase t (.returning m v)
      history := s.history ++ [(t, m, v)] }
  | .returning m v =>
    { s with
      phase := Function.update s.phase t .idle
      returned := Function.update s.returned t (s.returned t ++ [(m, v)]) }

/-- A thread makes one call at a time. -/
def next (s : State τ M A R V S) : Event τ M → State τ M A R V S
  | .call t m =>
    match s.phase t with
    | .idle => enter code s t m
    | _ => s
  | .step t => step act s t

end Machine

/-- The calls one after another. -/
def serial (s : S) (q : τ × M × V) : S := (answer code act s q.2.1).2

/-- Each call of the list answers what it does when the calls before it are done. -/
def Explains (s₀ : S) (history : List (τ × M × V)) : Prop :=
  AllSteps (serial code act) (fun s q => (answer code act s q.2.1).1 = q.2.2) s₀ history

/-- An answer that is there and has not been given back. -/
def Phase.due : Phase M A R V → List (M × V)
  | .returning m v => [(m, v)]
  | _ => []

/-- Who holds the mutex goes on to what its call does in one go, from where the calls that
have left it have brought the shared state. -/
def Phase.Fits (mutex : Option τ) (shared before : S) (t : τ) : Phase M A R V → Prop
  | .idle | .returning _ _ => mutex ≠ some t
  | .waiting m body => mutex ≠ some t ∧ code m = .guarded body
  | .inside m body => mutex = some t ∧ body.eval act shared = answer code act before m

structure Linear [DecidableEq τ] (s₀ : S) (s : State τ M A R V S) : Prop where
  explains : Explains code act s₀ s.history
  free : s.mutex = none → s.shared = run (serial code act) s₀ s.history
  fits : ∀ t, (s.phase t).Fits code act s.mutex s.shared (run (serial code act) s₀ s.history) t
  order : ∀ t, (s.history.filter (·.1 = t)).map Prod.snd = s.returned t ++ (s.phase t).due

section Steps

variable {code act} {mutex mutex' : Option τ} {shared shared' before before' : S} {t : τ}
  {ph : Phase M A R V}

/-- Who does not hold the mutex does not depend on the shared state. -/
theorem Phase.Fits.elsewhere (h : ph.Fits code act mutex shared before t) (hm : mutex ≠ some t)
    (hm' : mutex' ≠ some t) : ph.Fits code act mutex' shared' before' t := by
  cases ph with
  | idle => exact hm'
  | waiting m body => exact ⟨hm', h.2⟩
  | inside m body => exact absurd h.1 hm
  | returning m v => exact hm'

theorem explains_append {s₀ : S} {history : List (τ × M × V)} {m : M} {v : V}
    (h : Explains code act s₀ history) (t : τ)
    (hv : (answer code act (run (serial code act) s₀ history) m).1 = v) :
    Explains code act s₀ (history ++ [(t, m, v)]) :=
  allSteps_append.mpr ⟨h, hv, trivial⟩

end Steps

section Invariant

variable [DecidableEq τ] {code act} {s₀ : S} {s : State τ M A R V S} {t : τ} {m : M}

theorem initial_linear : Linear code act s₀ (initial s₀ : State τ M A R V S) :=
  ⟨trivial, fun _ => rfl, fun _ => Option.some_ne_none _ ∘ Eq.symm, fun _ => rfl⟩

theorem order_append {history : List (τ × M × V)} {v : V} {returned : τ → List (M × V)}
    {phase : τ → Phase M A R V} (ht : (phase t).due = [])
    (h : ∀ u, (history.filter (·.1 = u)).map Prod.snd = returned u ++ (phase u).due) :
    ∀ u, ((history ++ [(t, m, v)]).filter (·.1 = u)).map Prod.snd =
      returned u ++ (Function.update phase t (.returning m v) u).due := by
  intro u
  rw [List.filter_append, List.map_append, h]
  by_cases hu : u = t
  · subst hu
    rw [ht, Function.update_self]
    simp [Phase.due]
  · simp [Function.update_of_ne hu, Ne.symm hu]

theorem order_update {phase : τ → Phase M A R V} {ph : Phase M A R V}
    (ht : (phase t).due = []) (hph : ph.due = []) (u : τ) :
    (Function.update phase t ph u).due = (phase u).due := by
  by_cases hu : u = t
  · rw [hu, Function.update_self, ht, hph]
  · rw [Function.update_of_ne hu]

/-- A call that answers by itself leaves the shared state to the others. -/
theorem enter_alone (h : Linear code act s₀ s) (ht : s.phase t = .idle) {v : V}
    (hc : code m = .alone v) : Linear code act s₀ (enter code s t m) := by
  have hans (s : S) : answer code act s m = (v, s) := by rw [answer, hc]
  have hrun : run (serial code act) s₀ (s.history ++ [(t, m, v)]) =
      run (serial code act) s₀ s.history := by
    rw [run_append]
    exact congrArg Prod.snd (hans _)
  have hfree : s.mutex ≠ some t := by
    have hf := h.fits t
    rwa [ht] at hf
  simp only [enter, hc]
  constructor
  · exact explains_append h.explains t (congrArg Prod.fst (hans _))
  · rw [hrun]
    exact h.free
  · rw [hrun]
    exact Function.forall_update_iff s.phase _ |>.mpr ⟨hfree, fun u _ => h.fits u⟩
  · exact order_append (by rw [ht]; rfl) h.order

theorem enter_guarded (h : Linear code act s₀ s) (ht : s.phase t = .idle) {body : Body A R V}
    (hc : code m = .guarded body) : Linear code act s₀ (enter code s t m) := by
  have hfree : s.mutex ≠ some t := by
    have hf := h.fits t
    rwa [ht] at hf
  simp only [enter, hc]
  constructor
  · exact h.explains
  · exact h.free
  · exact Function.forall_update_iff s.phase _ |>.mpr ⟨⟨hfree, hc⟩, fun u _ => h.fits u⟩
  · intro u
    rw [h.order u, order_update (by rw [ht]; rfl) rfl]

/-- What its body does in one go is what is left to do for who takes the mutex. -/
theorem step_takes (h : Linear code act s₀ s) {body : Body A R V}
    (ht : s.phase t = .waiting m body) (hm : s.mutex = none) :
    Linear code act s₀ { s with
      mutex := some t
      phase := Function.update s.phase t (.inside m body) } := by
  have hf := h.fits t
  rw [ht] at hf
  constructor
  · exact h.explains
  · intro hn
    cases hn
  · refine Function.forall_update_iff s.phase _ |>.mpr ⟨⟨rfl, ?_⟩, fun u hu => ?_⟩
    · rw [answer, hf.2, h.free hm]
    · refine (h.fits u).elsewhere ?_ ?_
      · rw [hm]
        exact (Option.some_ne_none u).symm
      · exact fun he => hu (Option.some.inj he).symm
  · intro u
    rw [h.order u, order_update (by rw [ht]; rfl) rfl]

theorem step_acts (h : Linear code act s₀ s) {a : A} {k : R a → Body A R V}
    (ht : s.phase t = .inside m (.act a k)) :
    Linear code act s₀ { s with
      phase := Function.update s.phase t (.inside m (k (act s.shared a).1))
      shared := (act s.shared a).2 } := by
  have hf := h.fits t
  rw [ht] at hf
  constructor
  · exact h.explains
  · intro hn
    rw [hf.1] at hn
    cases hn
  · refine Function.forall_update_iff s.phase _ |>.mpr ⟨⟨hf.1, hf.2⟩, fun u hu => ?_⟩
    have hne : s.mutex ≠ some u := by
      rw [hf.1]
      exact fun he => hu (Option.some.inj he).symm
    exact (h.fits u).elsewhere hne hne
  · intro u
    rw [h.order u, order_update (by rw [ht]; rfl) rfl]

/-- Leaving the mutex is where the call takes effect. -/
theorem step_leaves (h : Linear code act s₀ s) {v : V} (ht : s.phase t = .inside m (.leave v)) :
    Linear code act s₀ { s with
      mutex := none
      phase := Function.update s.phase t (.returning m v)
      history := s.history ++ [(t, m, v)] } := by
  have hf := h.fits t
  rw [ht] at hf
  have hans : answer code act (run (serial code act) s₀ s.history) m = (v, s.shared) :=
    hf.2.symm
  constructor
  · exact explains_append h.explains t (congrArg Prod.fst hans)
  · intro _
    rw [run_append]
    exact (congrArg Prod.snd hans).symm
  · have hnone (u : τ) : (none : Option τ) ≠ some u := (Option.some_ne_none u).symm
    refine Function.forall_update_iff s.phase _ |>.mpr ⟨hnone t, fun u hu => ?_⟩
    refine (h.fits u).elsewhere ?_ (hnone u)
    rw [hf.1]
    exact fun he => hu (Option.some.inj he).symm
  · exact order_append (by rw [ht]; rfl) h.order

theorem step_returns (h : Linear code act s₀ s) {v : V} (ht : s.phase t = .returning m v) :
    Linear code act s₀ { s with
      phase := Function.update s.phase t .idle
      returned := Function.update s.returned t (s.returned t ++ [(m, v)]) } := by
  have hf := h.fits t
  rw [ht] at hf
  constructor
  · exact h.explains
  · exact h.free
  · exact Function.forall_update_iff s.phase _ |>.mpr ⟨hf, fun u _ => h.fits u⟩
  · intro u
    rw [h.order u]
    by_cases hu : u = t
    · subst hu
      simp [ht, Phase.due]
    · simp [Function.update_of_ne hu]

theorem next_linear (s : State τ M A R V S) (e : Event τ M) (h : Linear code act s₀ s) :
    Linear code act s₀ (next code act s e) := by
  cases e with
  | call t m =>
    unfold next
    dsimp only
    split
    · next ht =>
      cases hc : code m with
      | alone v => exact enter_alone h ht hc
      | guarded body => exact enter_guarded h ht hc
    · exact h
  | step t =>
    simp only [next, step]
    split
    · exact h
    · next m body ht =>
      split
      · next hm => exact step_takes h ht hm
      · exact h
    · next ht => exact step_acts h ht
    · next ht => exact step_leaves h ht
    · next ht => exact step_returns h ht

/-- In every interleaving the calls take effect one after another. -/
theorem run_linear (es : List (Event τ M)) :
    Linear code act s₀ (run (next code act) (initial s₀) es) :=
  run_preserves next_linear initial_linear es

/-- The call a thread is in. -/
def Phase.called : Phase M A R V → Option M
  | .idle => none
  | .waiting m _ | .inside m _ | .returning m _ => some m

theorem next_called {P : τ → M → Prop} {e : Event τ M} (he : ∀ t m, e = .call t m → P t m)
    (hq : ∀ q ∈ s.history, P q.1 q.2.1) (hp : ∀ t, ∀ m ∈ (s.phase t).called, P t m) :
    (∀ q ∈ (next code act s e).history, P q.1 q.2.1) ∧
      ∀ t, ∀ m ∈ ((next code act s e).phase t).called, P t m := by
  have hphase {t : τ} {ph : Phase M A R V} (ht : ∀ m ∈ ph.called, P t m) :
      ∀ u, ∀ m ∈ (Function.update s.phase t ph u).called, P u m :=
    Function.forall_update_iff s.phase (fun u ph => ∀ m ∈ ph.called, P u m) |>.mpr
      ⟨ht, fun u _ => hp u⟩
  have hhistory {t : τ} {m : M} (hm : P t m) (v : V) :
      ∀ q ∈ s.history ++ [(t, m, v)], P q.1 q.2.1 := by
    intro q hmem
    rcases List.mem_append.mp hmem with hmem | hmem
    · exact hq q hmem
    · rw [List.mem_singleton.mp hmem]
      exact hm
  cases e with
  | call t m =>
    have hm := he t m rfl
    have hself : ∀ m' ∈ some m, P t m' := by
      rintro m' ⟨⟩
      exact hm
    simp only [next, enter]
    split
    · split
      · exact ⟨hhistory hm _, hphase hself⟩
      · exact ⟨hq, hphase hself⟩
    · exact ⟨hq, hp⟩
  | step t =>
    have ht := hp t
    simp only [next, step]
    split
    · exact ⟨hq, hp⟩
    · next hc =>
      rw [hc] at ht
      split
      · exact ⟨hq, hphase ht⟩
      · exact ⟨hq, hp⟩
    · next hc =>
      rw [hc] at ht
      exact ⟨hq, hphase ht⟩
    · next hc =>
      rw [hc] at ht
      exact ⟨hhistory (ht _ rfl) _, hphase ht⟩
    · exact ⟨hq, hphase nofun⟩

/-- Only calls that were made have taken effect. -/
theorem history_called {P : τ → M → Prop} {es : List (Event τ M)}
    (he : ∀ t m, .call t m ∈ es → P t m) :
    ∀ q ∈ (run (next code act) (initial s₀) es).history, P q.1 q.2.1 := by
  have hrun {s : State τ M A R V S} (hq : ∀ q ∈ s.history, P q.1 q.2.1)
      (hp : ∀ t, ∀ m ∈ (s.phase t).called, P t m) :
      ∀ q ∈ (run (next code act) s es).history, P q.1 q.2.1 := by
    induction es generalizing s with
    | nil => exact hq
    | cons e es ih =>
      have hfirst : ∀ t m, e = .call t m → P t m := fun t m hm =>
        he t m (hm ▸ List.mem_cons_self)
      obtain ⟨hq, hp⟩ := next_called hfirst hq hp
      exact ih (fun t m hm => he t m (List.mem_cons_of_mem e hm)) hq hp
  exact hrun nofun nofun

/-- A call that has taken effect stays where it is in the order, before the calls to come. -/
theorem history_prefix (s : State τ M A R V S) (es : List (Event τ M)) :
    s.history <+: (run (next code act) s es).history := by
  induction es generalizing s with
  | nil => exact List.prefix_rfl
  | cons e es ih =>
    refine List.IsPrefix.trans ?_ (ih _)
    cases e with
    | call t m =>
      simp only [next, enter]
      split
      · split
        · exact List.prefix_append _ _
        · exact List.prefix_rfl
      · exact List.prefix_rfl
    | step t =>
      simp only [next, step]
      split
      · exact List.prefix_rfl
      · split <;> exact List.prefix_rfl
      · exact List.prefix_rfl
      · exact List.prefix_append _ _
      · exact List.prefix_rfl

end Invariant

end AtomicCalls
