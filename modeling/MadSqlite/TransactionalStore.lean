import Mathlib.Order.Notation
import Mathlib.Tactic.TypeStar

/-! # A store with one open write transaction

What was last committed, what the writer sees, and whether a write transaction holds the
store. Without one the writer sees the committed content; this is a field. -/
namespace TransactionalStore

@[ext] structure Store (σ : Type*) where
  file : σ
  view : σ
  writing : Bool
  clean : writing = false → view = file

variable {σ : Type*}

namespace Store

def opened (content : σ) : Store σ := ⟨content, content, false, fun _ => rfl⟩

/-- A change inside the write transaction, which it begins when there is none. -/
def write (s : Store σ) (work : σ → σ) : Store σ := ⟨s.file, work s.view, true, nofun⟩
def commit (s : Store σ) : Store σ := ⟨s.view, s.view, false, fun _ => rfl⟩
def rollback (s : Store σ) : Store σ := ⟨s.file, s.file, false, fun _ => rfl⟩

/-- Back to an earlier view of the same transaction, which stays open. -/
def restore (s : Store σ) (view : σ) : Store σ :=
  if s.writing then ⟨s.file, view, true, nofun⟩ else s

@[simp] theorem opened_writing (c : σ) : (opened c).writing = false := rfl
@[simp] theorem write_file (s : Store σ) (w : σ → σ) : (s.write w).file = s.file := rfl
@[simp] theorem write_view (s : Store σ) (w : σ → σ) : (s.write w).view = w s.view := rfl
@[simp] theorem write_writing (s : Store σ) (w : σ → σ) : (s.write w).writing = true := rfl
@[simp] theorem commit_file (s : Store σ) : s.commit.file = s.view := rfl
@[simp] theorem commit_view (s : Store σ) : s.commit.view = s.view := rfl
@[simp] theorem commit_writing (s : Store σ) : s.commit.writing = false := rfl
@[simp] theorem rollback_file (s : Store σ) : s.rollback.file = s.file := rfl
@[simp] theorem rollback_view (s : Store σ) : s.rollback.view = s.file := rfl
@[simp] theorem rollback_writing (s : Store σ) : s.rollback.writing = false := rfl

@[simp] theorem restore_file (s : Store σ) (v : σ) : (s.restore v).file = s.file := by
  unfold restore; split <;> rfl
@[simp] theorem restore_writing (s : Store σ) (v : σ) : (s.restore v).writing = s.writing := by
  unfold restore; split <;> simp_all

@[simp] theorem write_restore_view (s : Store σ) (w : σ → σ) (v : σ) :
    ((s.write w).restore v).view = v := rfl

@[simp] theorem rollback_write (s : Store σ) (w : σ → σ) : (s.write w).rollback = s.rollback := rfl

@[simp] theorem restore_view (s : Store σ) : s.restore s.view = s := by
  unfold restore
  split
  · next h => ext <;> simp [h]
  · rfl

theorem commit_of_clean {s : Store σ} (h : s.writing = false) : s.commit = s := by
  ext
  · exact s.clean h
  · rfl
  · simp [h]

end Store

end TransactionalStore
