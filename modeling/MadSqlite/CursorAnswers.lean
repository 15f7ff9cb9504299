import MadSqlite.CursorRows

/-! # What a move answers

`moveToNext` tests the constant SQLITE_DONE where it means to compare the code of the step,
so a failed step counts as a move. `moveToFirst` takes the error that `sqlite3_reset` passes
on from the step before for a failure of its own and then does not execute the statement. -/
namespace CursorAnswers

open SqliteConnection SqliteRows MadQuery Runs CursorRows

variable {ρ : Type*}

def stepResult (s : State ρ) : ResultCode := (SqliteRows.sqlite3Step s.1.statement s.2).1

/-- `moveToNext` as its callers understand it. -/
structure TellsNext (s : State ρ) : Prop where
  answer : (move s .next).1 = true ↔
    isAfterLast s.1 = false ∧ (stepResult s = SQLITE_ROW ∨ stepResult s = SQLITE_DONE)
  unmoved : isAfterLast s.1 = false → stepResult s ≠ SQLITE_ROW → stepResult s ≠ SQLITE_DONE →
    (move s .next).1 = false ∧ (next s .next).1.position = s.1.position

/-- The step that comes next finds no row and an error in its place. -/
def StepFails (s : State ρ) : Prop :=
  s.1.statement = none ∨
    match s.2.phase with
    | .row run i => run.rows.length ≤ i + 1 ∧ run.answer ≠ none
    | _ => (s.2.runs s.2.started).rows = [] ∧ (s.2.runs s.2.started).answer ≠ none

theorem advance_fails (v : Vdbe ρ) (run : Run ρ) (i : ℕ) :
    ((advance v run i).1 ≠ SQLITE_ROW ∧ (advance v run i).1 ≠ SQLITE_DONE) ↔
      run.rows.length ≤ i ∧ run.answer ≠ none := by
  by_cases hi : i < run.rows.length
  · simp [advance, hi]
  · have hend := run.stepCode_end.2
    simp [advance, hi, hend, not_lt.mp hi]

theorem stepFails_iff (s : State ρ) :
    StepFails s ↔ stepResult s ≠ SQLITE_ROW ∧ stepResult s ≠ SQLITE_DONE := by
  unfold StepFails stepResult SqliteRows.sqlite3Step
  by_cases hn : s.1.statement = none
  · simp [hn, SQLITE_MISUSE]
  · rw [if_neg hn, or_iff_right hn]
    cases s.2.phase with
    | row run i => exact (advance_fails _ _ _).symm
    | ready | halted a =>
      rw [← List.length_eq_zero_iff, ← Nat.le_zero]
      exact (advance_fails _ _ _).symm

theorem tellsNext_iff (s : State ρ) :
    TellsNext s ↔ isAfterLast s.1 = true ∨ ¬StepFails s := by
  rw [stepFails_iff]
  cases hl : isAfterLast s.1 with
  | true =>
    have hm := moveToNext_stays hl
    refine iff_of_true ⟨by simp [hm, hl], ?_⟩ (.inl rfl)
    intro hf
    rw [hl] at hf
    cases hf
  | false =>
    have hm : (move s .next).1 = true := by rw [moveToNext_steps hl]
    constructor
    · intro h
      rcases (h.answer.mp hm).2 with hr | hd
      · exact .inr fun hf => hf.1 hr
      · exact .inr fun hf => hf.2 hd
    · intro h
      have hf := h.resolve_left (by simp)
      refine ⟨iff_of_true hm ⟨hl, ?_⟩, fun _ hr hd => absurd ⟨hr, hd⟩ hf⟩
      by_contra hn
      exact hf (not_or.mp hn)

/-- In every sequence of moves, `moveToNext` is right in each state reached exactly when in
each the cursor is past the end or the step that comes next does not fail. -/
theorem tells_next_iff (statement : Option ℕ) (runs : ℕ → Run ρ) (ms : List Move) :
    AllStates next TellsNext (initial statement runs) ms ↔
      AllStates next (fun s => isAfterLast s.1 = true ∨ ¬StepFails s) (initial statement runs)
        ms :=
  allStates_congr tellsNext_iff

def busyFirst : ℕ → Run ℕ
  | 0 => ⟨[], some (busy (CppStrings.ascii "database is locked")), by decide⟩
  | _ => ⟨[7], none, by decide⟩

/-- The very first step is refused, and the move counts as made. -/
theorem busyFirst_misreported : ¬AllStates next TellsNext (initial (some 0) busyFirst) [] := by
  intro h
  have hm : (move (initial (some 0) busyFirst) .next).1 = true := by decide
  have hs := (h.first.answer.mp hm).2
  exact absurd hs (by decide)

/-- The execution that comes next. -/
def upcoming (s : State ρ) : Run ρ := runsOf s.1.statement s.2.runs s.2.started

/-- `moveToFirst` as its callers understand it. -/
structure Restarts (s : State ρ) : Prop where
  executes : s.1.statement ≠ none → (next s .first).2.started = s.2.started + 1
  position : (next s .first).1.position = 0
  row : current (next s .first) = (upcoming s).rows[0]?
  answer : (move s .first).1 = true ↔ (upcoming s).rows ≠ []

/-- No failed step waits for its error to be passed on by `sqlite3_reset`. -/
def NothingPending (s : State ρ) : Prop := s.1.statement = none ∨ ∀ f, s.2.phase ≠ .halted (some f)

theorem nothingPending_iff (s : State ρ) :
    NothingPending s ↔ (sqlite3Reset s.1.statement s.2).1 = SQLITE_OK := by
  unfold NothingPending sqlite3Reset
  by_cases hn : s.1.statement = none
  · simp [hn]
  · rw [if_neg hn, or_iff_right hn]
    split
    · next a ha =>
      rw [ha]
      cases a <;> simp
    · next ha => exact iff_of_true (fun f hf => ha (some f) hf) rfl

theorem moveToFirst_pending {s : State ρ} (h : ¬NothingPending s) :
    (next s .first).2.started = s.2.started ∧ s.1.statement ≠ none := by
  have hn : s.1.statement ≠ none := fun hn => h (.inl hn)
  have hr : (sqlite3Reset s.1.statement s.2).1 ≠ SQLITE_OK := fun hr =>
    h ((nothingPending_iff s).mpr hr)
  have hm : move s .first = (false, s.1, (sqlite3Reset s.1.statement s.2).2) := by
    simp [move, moveToFirst, hr]
  refine ⟨?_, hn⟩
  rw [next, hm, reset_ready hn]

theorem advance_row (v : Vdbe ρ) (run : Run ρ) :
    ((advance v run 0).1 = SQLITE_ROW ↔ run.rows ≠ []) ∧
      ∀ j, currentRow (some j) (advance v run 0).2 = run.rows[0]? := by
  cases hr : run.rows with
  | nil => simp [advance, hr, run.stepCode_end.2, currentRow]
  | cons row rows => simp [advance, hr, currentRow]

/-- Without a statement nothing is executed and there is no row. -/
theorem restarts_of_null {s : State ρ} (hn : s.1.statement = none) : Restarts s := by
  have hu : upcoming s = ⟨[], none, le_rfl⟩ := by rw [upcoming, runsOf, if_pos hn]
  have hm : move s .first = (false, { s.1 with stepResult := SQLITE_MISUSE, position := 0 },
      { s.2 with steps := SQLITE_MISUSE :: s.2.steps }) := by
    simp [move, moveToFirst, sqlite3Reset, SqliteRows.sqlite3Step, hn, SQLITE_MISUSE,
      SQLITE_ROW]
  constructor
  · exact fun hs => absurd hn hs
  · rw [next, hm]
  · rw [next, hm, hu]
    simp [current, currentRow, hn]
  · rw [hm, hu]
    simp

theorem moveToFirst_executes {s : State ρ} (h : NothingPending s) : Restarts s := by
  have hr := (nothingPending_iff s).mp h
  by_cases hn : s.1.statement = none
  · exact restarts_of_null hn
  · have hu : upcoming s = s.2.runs s.2.started := by rw [upcoming, runsOf, if_neg hn]
    obtain ⟨j, hj⟩ := Option.ne_none_iff_exists'.mp hn
    obtain ⟨v, hv, hm⟩ : ∃ v : Vdbe ρ, v.started = s.2.started + 1 ∧ move s .first =
        (decide ((advance v (upcoming s) 0).1 = SQLITE_ROW),
          stepped s.1 0 (advance v (upcoming s) 0)) := by
      refine ⟨{ s.2 with started := s.2.started + 1, phase := .ready }, rfl, ?_⟩
      simp [move, moveToFirst, hr, reset_ready hn, SqliteRows.sqlite3Step, hn, hu, stepped]
    obtain ⟨hcode, hrow⟩ := advance_row v (upcoming s)
    constructor
    · intro _
      rw [next, hm]
      exact (advance_runs v (upcoming s) 0).2.trans hv
    · rw [next, hm]
      rfl
    · rw [next, hm, current, stepped, hj]
      exact hrow j
    · rw [hm, decide_eq_true_iff, hcode]

theorem restarts_iff (s : State ρ) : Restarts s ↔ NothingPending s := by
  constructor
  · intro h
    by_contra hp
    obtain ⟨hs, hn⟩ := moveToFirst_pending hp
    have := h.executes hn
    omega
  · exact moveToFirst_executes

/-- In every sequence of moves, `moveToFirst` is right in each state reached exactly when in
each no failed step waits for its error to be passed on. -/
theorem restarts_always_iff (statement : Option ℕ) (runs : ℕ → Run ρ) (ms : List Move) :
    AllStates next Restarts (initial statement runs) ms ↔
      AllStates next NothingPending (initial statement runs) ms :=
  allStates_congr restarts_iff

/-- The lock is free again, and the retry reads as an empty result. -/
theorem busyFirst_not_retried :
    ¬AllStates next Restarts (initial (some 0) busyFirst) [.first] := by
  intro h
  have hm := h.last.answer.mpr (by decide)
  exact absurd hm (by decide)

end CursorAnswers
