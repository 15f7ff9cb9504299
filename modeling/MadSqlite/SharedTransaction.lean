import MadSqlite.Runs
import Mathlib.Tactic.TypeStar

/-! # One transaction for all callers

Rows that are stored and rows that wait in the open transaction. To begin while one is
open, and to end while none is, does nothing, so whoever ends the transaction decides on
the rows of everybody. -/
namespace SharedTransaction

open Runs

variable {α : Type*}

/-- An insert that fails has no row. -/
inductive Event (α : Type*) where
  | begin
  | commit
  | rollback
  | insert (row : Option α)

structure State (α : Type*) where
  committed : List α
  pending : Option (List α)

def next (s : State α) : Event α → State α
  | .begin => ⟨s.committed, some (s.pending.getD [])⟩
  | .commit => ⟨s.committed ++ s.pending.getD [], none⟩
  | .rollback => ⟨s.committed, none⟩
  | .insert row =>
    match s.pending with
    | none => ⟨s.committed ++ row.toList, none⟩
    | some rows => ⟨s.committed, some (rows ++ row.toList)⟩

def Event.rows : Event α → List α
  | .insert row => row.toList
  | _ => []

def rows (es : List (Event α)) : List α := es.flatMap Event.rows

@[simp] theorem rows_nil : rows ([] : List (Event α)) = [] := rfl
@[simp] theorem rows_cons (e : Event α) (es : List (Event α)) :
    rows (e :: es) = e.rows ++ rows es := rfl

def Event.Ends : Event α → Prop
  | .commit => True
  | .rollback => True
  | _ => False

/-- Until a transaction ends no row is lost. -/
theorem run_rows {es : List (Event α)} (hes : ∀ e ∈ es, ¬e.Ends) (s : State α) :
    (run next s es).committed ++ (run next s es).pending.getD [] =
      s.committed ++ s.pending.getD [] ++ rows es := by
  induction es generalizing s with
  | nil => simp
  | cons e es ih =>
    rw [List.forall_mem_cons] at hes
    rw [run_cons, ih hes.2]
    cases e with
    | begin => simp [next, Event.rows]
    | commit => exact absurd trivial hes.1
    | rollback => exact absurd trivial hes.1
    | insert row => rcases s with ⟨stored, _ | rows⟩ <;> simp [next, Event.rows]

theorem run_inside {es : List (Event α)} (hes : ∀ e ∈ es, ¬e.Ends) (stored waiting : List α) :
    run next ⟨stored, some waiting⟩ es = ⟨stored, some (waiting ++ rows es)⟩ := by
  induction es generalizing waiting with
  | nil => simp
  | cons e es ih =>
    rw [List.forall_mem_cons] at hes
    cases e with
    | begin => simp [next, ih hes.2, Event.rows]
    | commit => exact absurd trivial hes.1
    | rollback => exact absurd trivial hes.1
    | insert row => simp [next, ih hes.2, Event.rows]

theorem run_outside {es : List (Event α)} (hes : ∀ e ∈ es, ∃ row, e = .insert row)
    (stored : List α) : run next ⟨stored, none⟩ es = ⟨stored ++ rows es, none⟩ := by
  induction es generalizing stored with
  | nil => simp
  | cons e es ih =>
    rw [List.forall_mem_cons] at hes
    obtain ⟨⟨row, rfl⟩, hes⟩ := hes
    simp [next, ih hes, Event.rows]

theorem run_commit {es : List (Event α)} (hes : ∀ e ∈ es, ¬e.Ends) (stored : List α) :
    run next ⟨stored, none⟩ (es ++ [.commit]) = ⟨stored ++ rows es, none⟩ := by
  have hrows := run_rows hes ⟨stored, none⟩
  rw [run_append]
  simpa [next] using hrows

theorem run_begin_rollback {es : List (Event α)} (hes : ∀ e ∈ es, ¬e.Ends) (stored : List α) :
    run next ⟨stored, none⟩ (.begin :: es ++ [.rollback]) = ⟨stored, none⟩ := by
  rw [List.cons_append, run_cons, run_append]
  have hin := run_inside hes stored []
  simp [next, hin]

theorem run_late_rollback {es : List (Event α)} (hes : ∀ e ∈ es, ∃ row, e = .insert row)
    (stored : List α) :
    run next ⟨stored, none⟩ (es ++ [.rollback]) = ⟨stored ++ rows es, none⟩ := by
  rw [run_append, run_outside hes]
  rfl

end SharedTransaction
