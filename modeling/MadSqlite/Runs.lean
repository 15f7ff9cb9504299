import Mathlib.Data.List.Infix
import Mathlib.Order.Notation

/-! # Runs of event-driven machines

A machine is a total function from a state and an event to the next state. What the
environment decides is part of the event, so a list of events determines a run.
Guards and conditions on single steps are predicates on the state before the step. -/
namespace Runs

variable {S T E F : Type*} {next : S → E → S}

def run (next : S → E → S) (s : S) (es : List E) : S := es.foldl next s

@[simp] theorem run_nil (s : S) : run next s [] = s := rfl
@[simp] theorem run_cons (s : S) (e : E) (es : List E) :
    run next s (e :: es) = run next (next s e) es := rfl

theorem run_append (s : S) (es fs : List E) :
    run next s (es ++ fs) = run next (run next s es) fs := by
  simp [run]

/-- The states of a run without an end. -/
def along (next : S → E → S) (s : S) (f : ℕ → E) : ℕ → S
  | 0 => s
  | n + 1 => next (along next s f n) (f n)

theorem along_add (s : S) (f : ℕ → E) (n k : ℕ) :
    along next s f (n + k) = along next (along next s f n) (fun i => f (n + i)) k := by
  induction k with
  | zero => rfl
  | succ k ih => rw [← Nat.add_assoc, along, ih, along]

theorem along_eq_run (s : S) (f : ℕ → E) (n : ℕ) :
    along next s f n = run next s ((List.range n).map f) := by
  induction n with
  | zero => rfl
  | succ n ih => rw [along, ih, List.range_succ, List.map_append, run_append]; rfl

def AllSteps (next : S → E → S) (C : S → E → Prop) : S → List E → Prop
  | _, [] => True
  | s, e :: es => C s e ∧ AllSteps next C (next s e) es

def AllStates (next : S → E → S) (P : S → Prop) : S → List E → Prop
  | s, [] => P s
  | s, e :: es => P s ∧ AllStates next P (next s e) es

instance decidableAllSteps (C : S → E → Prop) [∀ s e, Decidable (C s e)] :
    ∀ s es, Decidable (AllSteps next C s es)
  | _, [] => isTrue trivial
  | s, e :: es =>
    have := decidableAllSteps C (next s e) es
    inferInstanceAs (Decidable (C s e ∧ AllSteps next C (next s e) es))

instance decidableAllStates (P : S → Prop) [∀ s, Decidable (P s)] :
    ∀ s (es : List E), Decidable (AllStates next P s es)
  | s, [] => inferInstanceAs (Decidable (P s))
  | s, e :: es =>
    have := decidableAllStates P (next s e) es
    inferInstanceAs (Decidable (P s ∧ AllStates next P (next s e) es))

theorem AllStates.first {P : S → Prop} {s : S} {es : List E}
    (h : AllStates next P s es) : P s := by
  cases es with
  | nil => exact h
  | cons e es => exact h.1

theorem AllStates.last {P : S → Prop} {s : S} {es : List E}
    (h : AllStates next P s es) : P (run next s es) := by
  induction es generalizing s with
  | nil => exact h
  | cons e es ih => exact ih h.2

theorem allSteps_iff_split {C : S → E → Prop} {s : S} {es : List E} :
    AllSteps next C s es ↔
      ∀ pre e post, es = pre ++ e :: post → C (run next s pre) e := by
  constructor
  · rintro h pre e post rfl
    induction pre generalizing s with
    | nil => exact h.1
    | cons d pre ih => exact ih h.2
  · intro h
    induction es generalizing s with
    | nil => trivial
    | cons e es ih =>
      refine ⟨h [] e es rfl, ih fun pre d post he => ?_⟩
      exact h (e :: pre) d post (by rw [he]; rfl)

theorem allSteps_append {C : S → E → Prop} {s : S} {es fs : List E} :
    AllSteps next C s (es ++ fs) ↔ AllSteps next C s es ∧ AllSteps next C (run next s es) fs := by
  induction es generalizing s with
  | nil => exact (iff_of_eq (true_and _)).symm
  | cons e es ih => rw [List.cons_append, AllSteps, AllSteps, ih, run_cons, and_assoc]

/-- A condition on the events alone. -/
theorem allSteps_const {C : E → Prop} {s : S} {es : List E} :
    AllSteps next (fun _ e => C e) s es ↔ ∀ e ∈ es, C e := by
  induction es generalizing s with
  | nil => simp [AllSteps]
  | cons e es ih => rw [AllSteps, ih, List.forall_mem_cons]

theorem run_preserves {I : S → Prop} (hstep : ∀ s e, I s → I (next s e)) {s : S}
    (hs : I s) (es : List E) : I (run next s es) := by
  induction es generalizing s with
  | nil => exact hs
  | cons e es ih => exact ih (hstep s e hs)

theorem allStates_of_invariant {I P : S → Prop} (hstep : ∀ s e, I s → I (next s e))
    (hp : ∀ s, I s → P s) {s : S} (hs : I s) (es : List E) : AllStates next P s es := by
  induction es generalizing s with
  | nil => exact hp s hs
  | cons e es ih => exact ⟨hp s hs, ih (hstep s e hs)⟩

theorem allSteps_of_invariant {I : S → Prop} {C : S → E → Prop}
    (hstep : ∀ s e, I s → I (next s e)) (hc : ∀ s e, I s → C s e) {s : S} (hs : I s)
    (es : List E) : AllSteps next C s es := by
  induction es generalizing s with
  | nil => trivial
  | cons e es ih => exact ⟨hc s e hs, ih (hstep s e hs)⟩

theorem allStates_congr {P Q : S → Prop} (hpq : ∀ s, P s ↔ Q s) {s : S} {es : List E} :
    AllStates next P s es ↔ AllStates next Q s es := by
  induction es generalizing s with
  | nil => exact hpq s
  | cons e es ih => exact and_congr (hpq s) ih

/-- When the condition is exactly what a good state needs to stay good, the good
runs are exactly the runs whose steps meet the condition. -/
theorem allStates_iff_allSteps {I P : S → Prop} {C : S → E → Prop}
    (hinv : ∀ s e, I s → I (next s e))
    (hstep : ∀ s e, I s → P s → (P (next s e) ↔ C s e)) {s : S} {es : List E}
    (hi : I s) (hs : P s) : AllStates next P s es ↔ AllSteps next C s es := by
  induction es generalizing s with
  | nil => exact iff_of_true hs trivial
  | cons e es ih =>
    have he := hstep s e hi hs
    constructor
    · rintro ⟨-, h⟩
      exact ⟨he.mp h.first, (ih (hinv s e hi) h.first).mp h⟩
    · rintro ⟨hc, h⟩
      exact ⟨hs, (ih (hinv s e hi) (he.mpr hc)).mpr h⟩

theorem allStates_iff_first_and_steps {I P : S → Prop} {C : S → E → Prop}
    (hinv : ∀ s e, I s → I (next s e))
    (hstep : ∀ s e, I s → P s → (P (next s e) ↔ C s e)) {s : S} {es : List E}
    (hi : I s) : AllStates next P s es ↔ P s ∧ AllSteps next C s es :=
  ⟨fun h => ⟨h.first, (allStates_iff_allSteps hinv hstep hi h.first).mp h⟩,
    fun h => (allStates_iff_allSteps hinv hstep hi h.1).mpr h.2⟩

/-- Two conditions agree on a run when they agree wherever the run has met them so far. -/
theorem allSteps_congr_while {I : S → Prop} {C D : S → E → Prop}
    (hinv : ∀ s e, I s → D s e → I (next s e)) (hcd : ∀ s e, I s → (C s e ↔ D s e)) {s : S}
    {es : List E} (hi : I s) : AllSteps next C s es ↔ AllSteps next D s es := by
  induction es generalizing s with
  | nil => exact Iff.rfl
  | cons e es ih =>
    constructor
    · rintro ⟨hc, h⟩
      have hd := (hcd s e hi).mp hc
      exact ⟨hd, (ih (hinv s e hi hd)).mp h⟩
    · rintro ⟨hd, h⟩
      exact ⟨(hcd s e hi).mpr hd, (ih (hinv s e hi hd)).mpr h⟩

theorem allSteps_congr {I : S → Prop} {C D : S → E → Prop}
    (hinv : ∀ s e, I s → I (next s e)) (hcd : ∀ s e, I s → (C s e ↔ D s e)) {s : S}
    {es : List E} (hi : I s) : AllSteps next C s es ↔ AllSteps next D s es :=
  allSteps_congr_while (fun s e h _ => hinv s e h) hcd hi

/-- A forward simulation under a step condition carries a whole run. -/
theorem run_simulates {next' : T → F → T} {R : S → T → Prop} {f : E → F}
    {C : S → E → Prop} (hstep : ∀ s t e, R s t → C s e → R (next s e) (next' t (f e)))
    {s : S} {t : T} {es : List E} (hr : R s t) (h : AllSteps next C s es) :
    R (run next s es) (run next' t (es.map f)) := by
  induction es generalizing s t with
  | nil => exact hr
  | cons e es ih => exact ih (hstep s t e hr h.1) h.2

end Runs
