import MadSqlite.Runs
import Mathlib.Tactic.TypeStar

/-! # All or nothing

A content that changes at once outside of a transaction and on commit inside of one. To begin
while a transaction is open, and to end one while none is, does nothing. A change lasts when it
is made outside, or when the first end that follows it is a commit. -/
namespace Transactions

open Runs

variable {σ : Type*}

inductive Event (σ : Type*) where
  | begin
  | commit
  | rollback
  | change (work : σ → σ)

structure State (σ : Type*) where
  committed : σ
  pending : Option σ

/-- What a client sees: its own transaction, or the committed content. -/
def State.view (s : State σ) : σ := s.pending.getD s.committed

def next (s : State σ) : Event σ → State σ
  | .begin => ⟨s.committed, some s.view⟩
  | .commit => ⟨s.view, none⟩
  | .rollback => ⟨s.committed, none⟩
  | .change work =>
    match s.pending with
    | none => ⟨work s.committed, none⟩
    | some content => ⟨s.committed, some (work content)⟩

/-- Whether a transaction is open after the events. -/
def inside : Bool → List (Event σ) → Bool
  | opened, [] => opened
  | _, .begin :: es => inside true es
  | _, .commit :: es | _, .rollback :: es => inside false es
  | opened, .change _ :: es => inside opened es

/-- The first end among the events is a commit. -/
def commitsNext : List (Event σ) → Bool
  | [] => false
  | .commit :: _ => true
  | .rollback :: _ => false
  | _ :: es => commitsNext es

/-- The changes that last, in their order. -/
def lasting : Bool → List (Event σ) → List (σ → σ)
  | _, [] => []
  | _, .begin :: es => lasting true es
  | _, .commit :: es | _, .rollback :: es => lasting false es
  | opened, .change work :: es =>
    if opened = false ∨ commitsNext es then work :: lasting opened es else lasting opened es

def applyAll (works : List (σ → σ)) (content : σ) : σ := works.foldl (fun s w => w s) content

@[simp] theorem applyAll_nil (content : σ) : applyAll [] content = content := rfl
@[simp] theorem applyAll_cons (w : σ → σ) (ws : List (σ → σ)) (content : σ) :
    applyAll (w :: ws) content = applyAll ws (w content) := rfl

@[simp] theorem view_none (content : σ) : (⟨content, none⟩ : State σ).view = content := rfl
@[simp] theorem view_some (committed content : σ) :
    (⟨committed, some content⟩ : State σ).view = content := rfl

@[simp] theorem next_change_id (s : State σ) : next s (.change id) = s := by
  obtain ⟨committed, _ | content⟩ := s <;> rfl

theorem next_change_comp (s : State σ) (w v : σ → σ) :
    next (next s (.change w)) (.change v) = next s (.change (v ∘ w)) := by
  obtain ⟨committed, _ | content⟩ := s <;> rfl

theorem next_change_pending (s : State σ) (w : σ → σ) :
    (next s (.change w)).pending.isSome = s.pending.isSome := by
  obtain ⟨committed, _ | content⟩ := s <;> rfl

/-- Over an open transaction the committed content waits for the end, whatever it is. -/
theorem run_committed (es : List (Event σ)) (s : State σ) : (run next s es).committed =
    applyAll (lasting s.pending.isSome es) (if commitsNext es then s.view else s.committed) := by
  induction es generalizing s with
  | nil => rfl
  | cons e es ih =>
    rw [run_cons, ih]
    cases e with
    | begin => rfl
    | commit => simp [next, lasting, commitsNext]
    | rollback => simp [next, lasting, commitsNext]
    | change work =>
      obtain ⟨committed, _ | content⟩ := s
      · simp [next, lasting]
      · cases hc : commitsNext es <;> simp [next, lasting, commitsNext, hc]

theorem run_pending (es : List (Event σ)) (s : State σ) :
    (run next s es).pending.isSome = inside s.pending.isSome es := by
  induction es generalizing s with
  | nil => rfl
  | cons e es ih =>
    rw [run_cons, ih]
    cases e with
    | change work => rw [next_change_pending, inside]
    | _ => rfl

/-- What is seen is what a commit would store. -/
theorem run_view (es : List (Event σ)) (s : State σ) :
    (run next s es).view = (run next s (es ++ [.commit])).committed := by
  rw [run_append]
  rfl

theorem run_changes (works : List (σ → σ)) (s : State σ) :
    run next s (works.map .change) =
      match s.pending with
      | none => ⟨applyAll works s.committed, none⟩
      | some content => ⟨s.committed, some (applyAll works content)⟩ := by
  induction works generalizing s with
  | nil => obtain ⟨committed, _ | content⟩ := s <;> rfl
  | cons work works ih =>
    rw [List.map_cons, run_cons, ih]
    obtain ⟨committed, _ | content⟩ := s <;> rfl

def Event.Ends : Event σ → Prop
  | .commit | .rollback => True
  | _ => False

/-- An open transaction: its begin, and what it has done since. -/
theorem run_open {content : σ} {es : List (Event σ)}
    (h : (run next ⟨content, none⟩ es).pending.isSome) : ∃ pre rest, es = pre ++ .begin :: rest ∧
      run next ⟨content, none⟩ pre = ⟨(run next ⟨content, none⟩ es).committed, none⟩ ∧
      ∀ e ∈ rest, ¬e.Ends := by
  induction es using List.reverseRecOn with
  | nil => cases h
  | append_singleton es e ih =>
    rw [run_append] at h ⊢
    generalize hs : run next ⟨content, none⟩ es = s at h ih ⊢
    obtain ⟨committed, _ | pending⟩ := s
    · cases e with
      | begin => exact ⟨es, [], rfl, hs, by simp⟩
      | _ => cases h
    · obtain ⟨pre, rest, rfl, hpre, hrest⟩ := ih rfl
      have he : ¬e.Ends := by cases e <;> simp [Event.Ends, next] at h ⊢
      have hc : (next ⟨committed, some pending⟩ e).committed = committed := by
        cases e <;> simp [Event.Ends, next] at he ⊢
      refine ⟨pre, rest ++ [e], by simp, ?_, ?_⟩
      · rw [hpre, run_cons, run_nil, hc]
      · intro e' he'
        rcases List.mem_append.mp he' with hm | hm
        · exact hrest e' hm
        · rwa [List.mem_singleton.mp hm]

/-- The part of the events that the committed content shows ends outside of a transaction.
What comes after it, if anything does, is a transaction that has not ended. -/
def ShowsPrefix (content : σ) (es : List (Event σ)) (committed : σ) : Prop :=
  ∃ pre rest, es = pre ++ rest ∧ run next ⟨content, none⟩ pre = ⟨committed, none⟩ ∧
    (rest = [] ∨ ∃ rest', rest = .begin :: rest' ∧ ∀ e ∈ rest', ¬e.Ends)

theorem shows_prefix (content : σ) (es : List (Event σ)) :
    ShowsPrefix content es (run next ⟨content, none⟩ es).committed := by
  by_cases hp : (run next ⟨content, none⟩ es).pending = none
  · refine ⟨es, [], by simp, ?_, .inl rfl⟩
    generalize run next ⟨content, none⟩ es = s at hp
    exact congrArg (State.mk s.committed) hp
  · obtain ⟨pre, rest, hes, hpre, hrest⟩ := run_open (Option.isSome_iff_ne_none.mpr hp)
    exact ⟨pre, .begin :: rest, hes, hpre, .inr ⟨rest, rfl, hrest⟩⟩

end Transactions
