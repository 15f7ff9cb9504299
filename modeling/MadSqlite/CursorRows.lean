import MadSqlite.MadQuery
import MadSqlite.Runs

/-! # What a cursor visits

A cursor over the executions of a statement, in terms of its place: before any step, at a
row of an execution, or past the end. An execution that ended with an error is reported by
the next `moveToFirst`, which does not start another one. -/
namespace CursorRows

open SqliteConnection SqliteRows MadQuery Runs

variable {ρ : Type*}

inductive Move where
  | first
  | next
  deriving DecidableEq

abbrev State (ρ : Type*) := MadQuery.Impl × Vdbe ρ

def initial (statement : Option ℕ) (runs : ℕ → Run ρ) : State ρ :=
  (.new statement, .prepared runs)

def move (s : State ρ) : Move → Bool × State ρ
  | .first => moveToFirst s.1 s.2
  | .next => moveToNext s.1 s.2

def next (s : State ρ) (m : Move) : State ρ := (move s m).2

def current (s : State ρ) : Option ρ := currentRow s.1.statement s.2

/-- The body of the loop with its visits; none when the fuel is used up. -/
def visitLoop : ℕ → State ρ → Option (List (Option ρ) × State ρ)
  | 0, _ => none
  | fuel + 1, s =>
    if isAfterLast s.1 then some ([], s)
    else (visitLoop fuel (next s .next)).map fun r => (current s :: r.1, r.2)

/-- moveToFirst(); while (!isAfterLast()) { visit; moveToNext(); } -/
def visitAll (fuel : ℕ) (s : State ρ) : Option (List (Option ρ) × State ρ) :=
  visitLoop fuel (next s .first)

inductive Place (ρ : Type*) where
  | before
  | row (run : Run ρ) (i : ℕ)
  | past (pending : Bool)

/-- The abstract cursor. It is past the end with an error pending when the execution it
has left failed and no `moveToFirst` has reported that. -/
structure Cursor (ρ : Type*) where
  runs : ℕ → Run ρ
  used : ℕ
  place : Place ρ

namespace Cursor

def enter (run : Run ρ) (i : ℕ) : Place ρ :=
  if i < run.rows.length then .row run i else .past (run.answer ≠ none)

def restart (c : Cursor ρ) : Cursor ρ :=
  { c with used := c.used + 1, place := enter (c.runs c.used) 0 }

def current (c : Cursor ρ) : Option ρ :=
  match c.place with
  | .row run i => run.rows[i]?
  | _ => none

def isPast (c : Cursor ρ) : Bool :=
  match c.place with
  | .past _ => true
  | _ => false

def move (c : Cursor ρ) : Move → Bool × Cursor ρ
  | .first =>
    match c.place with
    | .past true => (false, { c with place := .past false })
    | _ => (!c.restart.isPast, c.restart)
  | .next =>
    match c.place with
    | .before => (true, c.restart)
    | .row run i => (true, { c with place := enter run (i + 1) })
    | .past _ => (false, c)

def next (c : Cursor ρ) (m : Move) : Cursor ρ := (c.move m).2

end Cursor

/-- A null statement is one without rows whose end is never an error. -/
def runsOf (statement : Option ℕ) (runs : ℕ → Run ρ) : ℕ → Run ρ :=
  if statement = none then fun _ => ⟨[], none, le_rfl⟩ else runs

def abstractInitial (statement : Option ℕ) (runs : ℕ → Run ρ) : Cursor ρ :=
  ⟨runsOf statement runs, 0, .before⟩

def SimPlace (s : State ρ) : Place ρ → Prop
  | .before => s.2.phase = .ready ∧ s.1.stepResult = CURSOR_STEP_UNKNOWN ∧ s.2.steps = []
  | .row run i => s.1.statement ≠ none ∧ s.2.phase = .row run i ∧ i < run.rows.length ∧
      s.1.stepResult = SQLITE_ROW ∧ s.2.steps.head? = some SQLITE_ROW
  | .past pending => 0 ≤ s.1.stepResult ∧ s.1.stepResult ≠ SQLITE_ROW ∧
      s.2.steps.head? = some s.1.stepResult ∧
      if pending then
        s.1.statement ≠ none ∧ ∃ f, s.2.phase = .halted (some f) ∧ s.1.stepResult = f.rc
      else s.1.statement = none ∨ s.2.phase = .ready ∨ s.2.phase = .halted none

structure Sim (s : State ρ) (c : Cursor ρ) : Prop where
  runs : c.runs = runsOf s.1.statement s.2.runs
  used : s.1.statement = none ∨ c.used = s.2.started
  place : SimPlace s c.place

theorem initial_sim (statement : Option ℕ) (runs : ℕ → Run ρ) :
    Sim (initial statement runs) (abstractInitial statement runs) :=
  ⟨rfl, .inr rfl, rfl, rfl, rfl⟩

/-- The cursor after a step that has given this result. -/
def stepped (q : MadQuery.Impl) (position : ℤ) (r : ResultCode × Vdbe ρ) : State ρ :=
  ({ q with stepResult := r.1, position := position }, r.2)

theorem advance_sim {q : MadQuery.Impl} (hq : q.statement ≠ none) (position : ℤ) (v : Vdbe ρ)
    (run : Run ρ) (i : ℕ) :
    SimPlace (stepped q position (advance v run i)) (Cursor.enter run i) := by
  unfold advance Cursor.enter
  split
  · next hi => exact ⟨hq, rfl, hi, rfl, rfl⟩
  · obtain ⟨hn, hr⟩ := run.stepCode_end
    refine ⟨hn, hr, rfl, ?_⟩
    cases ha : run.answer with
    | none => simp [stepped]
    | some f => exact ⟨hq, f, rfl, rfl⟩

/-- A step that does not come from a row starts the next execution. -/
theorem restart_sim {s : State ρ} {c : Cursor ρ} (hr : c.runs = runsOf s.1.statement s.2.runs)
    (hu : s.1.statement = none ∨ c.used = s.2.started) (position : ℤ)
    (hp : s.1.statement ≠ none → ∀ run i, s.2.phase ≠ .row run i) :
    Sim (stepped s.1 position (SqliteRows.sqlite3Step s.1.statement s.2)) c.restart := by
  unfold SqliteRows.sqlite3Step
  split
  · next hn =>
    refine ⟨hr, .inl hn, ?_⟩
    have hrun : c.runs c.used = ⟨[], none, le_rfl⟩ := by rw [hr, runsOf, if_pos hn]
    rw [Cursor.restart, hrun]
    exact ⟨by simp [stepped, SQLITE_MISUSE], by simp [stepped, SQLITE_MISUSE, SQLITE_ROW], rfl,
      .inl hn⟩
  · next hn =>
    have hused := hu.resolve_left hn
    have hrun : c.runs c.used = s.2.runs s.2.started := by rw [hr, runsOf, if_neg hn, hused]
    split
    · next run i hph => exact absurd hph (hp hn run i)
    · obtain ⟨h1, h2⟩ := advance_runs { s.2 with started := s.2.started + 1 }
        (s.2.runs s.2.started) 0
      refine ⟨?_, .inr ?_, ?_⟩
      · rw [stepped, h1]
        exact hr
      · rw [stepped, h2, Cursor.restart, hused]
      · rw [Cursor.restart, hrun]
        exact advance_sim hn position _ _ _

theorem isAfterLast_iff_past {s : State ρ} {c : Cursor ρ} (h : Sim s c) :
    isAfterLast s.1 = c.isPast := by
  have hp := h.place
  unfold Cursor.isPast
  split
  · next pending hc =>
    rw [hc] at hp
    have hu : CURSOR_STEP_UNKNOWN < s.1.stepResult := lt_of_lt_of_le (by decide) hp.1
    simp [isAfterLast, hu, hp.2.1]
  · next hc =>
    cases hpl : c.place with
    | before =>
      rw [hpl] at hp
      simp [isAfterLast, hp.2.1]
    | row run i =>
      rw [hpl] at hp
      simp [isAfterLast, hp.2.2.2.1]
    | past pending => exact absurd hpl (hc pending)

theorem current_eq {s : State ρ} {c : Cursor ρ} (h : Sim s c) : current s = c.current := by
  have hp := h.place
  unfold current Cursor.current currentRow
  cases hpl : c.place with
  | before =>
    rw [hpl] at hp
    rw [hp.1]
    cases s.1.statement <;> rfl
  | row run i =>
    rw [hpl] at hp
    obtain ⟨j, hj⟩ := Option.ne_none_iff_exists'.mp hp.1
    rw [hj, hp.2.1]
  | past pending =>
    rw [hpl] at hp
    split
    · next j run i hj hph => cases pending <;> simp [SimPlace, hj, hph] at hp
    · rfl

theorem reset_ready {s : State ρ} (h : s.1.statement ≠ none) :
    (sqlite3Reset s.1.statement s.2).2 = { s.2 with phase := .ready } := by
  rw [sqlite3Reset, if_neg h]
  split <;> rfl

/-- Only an error that nobody has seen yet makes the reset fail. -/
theorem reset_ok_iff {s : State ρ} {c : Cursor ρ} (h : Sim s c) :
    (sqlite3Reset s.1.statement s.2).1 = SQLITE_OK ↔ ∀ b, c.place = .past b → b = false := by
  have hp := h.place
  unfold sqlite3Reset
  split
  · next hn =>
    apply iff_of_true rfl
    intro b hb
    rw [hb] at hp
    cases b with
    | false => rfl
    | true => exact absurd hn hp.2.2.2.1
  · next hn =>
    cases hpl : c.place with
    | before =>
      rw [hpl] at hp
      simp [hp.1]
    | row run i =>
      rw [hpl] at hp
      simp [hp.2.1]
    | past b =>
      rw [hpl] at hp
      cases b with
      | false =>
        rcases hp.2.2.2 with hq | hq | hq
        · exact absurd hq hn
        · simp [hq]
        · simp [hq]
      | true =>
        obtain ⟨-, f, hf, -⟩ := hp.2.2.2
        simp [hf]

theorem restart_ne_before (c : Cursor ρ) : c.restart.place ≠ .before := by
  unfold Cursor.restart Cursor.enter
  split <;> simp

theorem stepResult_row {s : State ρ} {c : Cursor ρ} (h : Sim s c) (hb : c.place ≠ .before) :
    decide (s.1.stepResult = SQLITE_ROW) = !c.isPast := by
  have hp := h.place
  unfold Cursor.isPast
  cases hpl : c.place with
  | before => exact absurd hpl hb
  | row run i =>
    rw [hpl] at hp
    simp [hp.2.2.2.1]
  | past b =>
    rw [hpl] at hp
    simp [hp.2.1]

theorem moveToFirst_restarts {s : State ρ} {c : Cursor ρ} (h : Sim s c)
    (hok : (sqlite3Reset s.1.statement s.2).1 = SQLITE_OK) :
    (move s .first).1 = (!c.restart.isPast) ∧ Sim (next s .first) c.restart := by
  have hnext : Sim (stepped s.1 0 (SqliteRows.sqlite3Step s.1.statement
      (sqlite3Reset s.1.statement s.2).2)) c.restart := by
    by_cases hn : s.1.statement = none
    · have hv : (sqlite3Reset s.1.statement s.2).2 = s.2 := by
        rw [sqlite3Reset, if_pos hn]
      rw [hv]
      exact restart_sim h.runs h.used 0 fun hs => absurd hn hs
    · rw [reset_ready hn]
      exact restart_sim (s := (s.1, { s.2 with phase := .ready })) h.runs h.used 0
        fun _ _ _ => by simp
  have hmove : move s .first = (decide ((SqliteRows.sqlite3Step s.1.statement
      (sqlite3Reset s.1.statement s.2).2).1 = SQLITE_ROW), stepped s.1 0
        (SqliteRows.sqlite3Step s.1.statement (sqlite3Reset s.1.statement s.2).2)) := by
    simp [move, moveToFirst, hok, stepped]
  rw [next, hmove]
  exact ⟨stepResult_row hnext (restart_ne_before c), hnext⟩

theorem moveToFirst_reports {s : State ρ} {c : Cursor ρ} (h : Sim s c)
    (hpl : c.place = .past true) :
    (move s .first).1 = false ∧ Sim (next s .first) { c with place := .past false } := by
  have hp := h.place
  rw [hpl] at hp
  obtain ⟨h0, hrow, hlast, hs, f, hf, -⟩ := hp
  have hmove : move s .first = (false, s.1, { s.2 with phase := .ready }) := by
    simp [move, moveToFirst, sqlite3Reset, hs, hf]
  rw [next, hmove]
  exact ⟨rfl, h.runs, h.used, h0, hrow, hlast, .inr (.inl rfl)⟩

theorem moveToNext_steps {s : State ρ} (hl : isAfterLast s.1 = false) :
    move s .next =
      (true, stepped s.1 (s.1.position + 1) (SqliteRows.sqlite3Step s.1.statement s.2)) := by
  simp [move, moveToNext, hl, stepped]

theorem moveToNext_stays {s : State ρ} (hl : isAfterLast s.1 = true) :
    move s .next = (false, s) := by
  simp [move, moveToNext, hl]

/-- One call of the cursor is one call of the abstract one. -/
theorem move_sim {s : State ρ} {c : Cursor ρ} (h : Sim s c) (m : Move) :
    (move s m).1 = (c.move m).1 ∧ Sim (next s m) (c.next m) := by
  cases m with
  | first =>
    by_cases hok : (sqlite3Reset s.1.statement s.2).1 = SQLITE_OK
    · have hc : c.move .first = (!c.restart.isPast, c.restart) := by
        have hb := (reset_ok_iff h).mp hok true
        cases hpl : c.place <;> simp_all [Cursor.move]
      rw [Cursor.next, hc]
      exact moveToFirst_restarts h hok
    · obtain ⟨b, hpl, hb⟩ : ∃ b, c.place = .past b ∧ b ≠ false := by
        simpa [reset_ok_iff h] using hok
      obtain rfl : b = true := by simpa using hb
      have hc : c.move .first = (false, { c with place := .past false }) := by
        simp [Cursor.move, hpl]
      rw [Cursor.next, hc]
      exact moveToFirst_reports h hpl
  | next =>
    have hp := h.place
    have hl := isAfterLast_iff_past h
    cases hpl : c.place with
    | before =>
      rw [hpl] at hp
      have hc : c.move .next = (true, c.restart) := by simp [Cursor.move, hpl]
      rw [Cursor.next, hc, next, moveToNext_steps (by simp [hl, Cursor.isPast, hpl])]
      exact ⟨rfl, restart_sim h.runs h.used _ fun _ run i => by simp [hp.1]⟩
    | row run i =>
      rw [hpl] at hp
      obtain ⟨hs, hph, -⟩ := hp
      have hc : c.move .next = (true, { c with place := Cursor.enter run (i + 1) }) := by
        simp [Cursor.move, hpl]
      have hstep : SqliteRows.sqlite3Step s.1.statement s.2 = advance s.2 run (i + 1) := by
        simp [SqliteRows.sqlite3Step, hs, hph]
      obtain ⟨hr, hu⟩ := advance_runs s.2 run (i + 1)
      rw [Cursor.next, hc, next, moveToNext_steps (by simp [hl, Cursor.isPast, hpl]), hstep]
      refine ⟨rfl, ?_, .inr ?_, advance_sim hs _ _ _ _⟩
      · rw [stepped, hr]
        exact h.runs
      · rw [stepped, hu]
        exact h.used.resolve_left hs
    | past b =>
      have hc : c.move .next = (false, c) := by simp [Cursor.move, hpl]
      rw [Cursor.next, hc, next, moveToNext_stays (by simp [hl, Cursor.isPast, hpl])]
      exact ⟨rfl, h⟩

theorem run_sim {s : State ρ} {c : Cursor ρ} (h : Sim s c) (ms : List Move) :
    Sim (run next s ms) (run Cursor.next c ms) := by
  induction ms generalizing s c with
  | nil => exact h
  | cons m ms ih => exact ih (move_sim h m).2

theorem isAfterLast_iff_step {s : State ρ} {c : Cursor ρ} (h : Sim s c) :
    isAfterLast s.1 = true ↔ ∃ rc, s.2.steps.head? = some rc ∧ rc ≠ SQLITE_ROW := by
  have hp := h.place
  rw [isAfterLast_iff_past h, Cursor.isPast]
  cases hpl : c.place with
  | before =>
    rw [hpl] at hp
    simp [hp.2.2]
  | row run i =>
    rw [hpl] at hp
    simp [hp.2.2.2.2]
  | past b =>
    rw [hpl] at hp
    simp [hp.2.2.1, hp.2.1]

theorem reset_ok_of_no_failure {s : State ρ} {c : Cursor ρ} (h : Sim s c)
    (hs : ∀ rc ∈ s.2.steps, rc = SQLITE_ROW ∨ rc = SQLITE_DONE) :
    (sqlite3Reset s.1.statement s.2).1 = SQLITE_OK := by
  rw [reset_ok_iff h]
  intro b hpl
  have hp := h.place
  rw [hpl] at hp
  obtain ⟨-, hrow, hlast, hb⟩ := hp
  cases b with
  | false => rfl
  | true =>
    obtain ⟨-, f, -, hf⟩ := hb
    rcases hs _ (List.mem_of_mem_head? hlast) with hr | hr
    · exact absurd hr hrow
    · exact absurd (hf ▸ hr) f.failed.2.2

@[simp] theorem next_runs (c : Cursor ρ) (m : Move) : (c.next m).runs = c.runs := by
  unfold Cursor.next Cursor.move Cursor.restart
  cases m <;> cases c.place with
  | past b => cases b <;> rfl
  | _ => rfl

theorem run_runs (c : Cursor ρ) (ms : List Move) : (run Cursor.next c ms).runs = c.runs := by
  induction ms generalizing c with
  | nil => rfl
  | cons m ms ih => rw [run_cons, ih, next_runs]

/-- The execution a restart begins. -/
theorem nextRun_eq {s : State ρ} {c : Cursor ρ} (h : Sim s c) {statement : Option ℕ}
    {runs : ℕ → Run ρ} (hr : c.runs = runsOf statement runs) :
    c.runs c.used = runsOf statement runs s.2.started := by
  rcases h.used with hn | hu
  · have h0 := h.runs
    rw [runsOf, if_pos hn] at h0
    rw [← hr, h0]
  · rw [hr, hu]

theorem next_enter {c : Cursor ρ} {r : Run ρ} {i : ℕ} (h : c.place = Cursor.enter r i) :
    (c.next .next).place = Cursor.enter r (i + 1) := by
  by_cases hi : i < r.rows.length
  · rw [Cursor.enter, if_pos hi] at h
    simp [Cursor.next, Cursor.move, h]
  · have hi' : ¬ i + 1 < r.rows.length := by omega
    rw [Cursor.enter, if_neg hi] at h
    rw [Cursor.enter, if_neg hi']
    simp [Cursor.next, Cursor.move, h]

theorem replicate_next_enter {c : Cursor ρ} {r : Run ρ} {i : ℕ} (h : c.place = Cursor.enter r i)
    (k : ℕ) : (run Cursor.next c (List.replicate k .next)).place = Cursor.enter r (i + k) := by
  induction k generalizing c i with
  | zero => exact h
  | succ k ih =>
    rw [List.replicate_succ, run_cons, ih (next_enter h)]
    congr 1
    omega

theorem current_enter {c : Cursor ρ} {r : Run ρ} {i : ℕ} (h : c.place = Cursor.enter r i) :
    c.current = r.rows[i]? := by
  rw [Cursor.current, h, Cursor.enter]
  by_cases hi : i < r.rows.length
  · rw [if_pos hi]
  · rw [if_neg hi, List.getElem?_eq_none (by omega)]

theorem isPast_enter {c : Cursor ρ} {r : Run ρ} {i : ℕ} (h : c.place = Cursor.enter r i) :
    c.isPast = !decide (i < r.rows.length) := by
  rw [Cursor.isPast, h, Cursor.enter]
  by_cases hi : i < r.rows.length <;> simp [hi]

/-- From row `i` on the loop visits what is left of the execution. -/
theorem visitLoop_rows {s : State ρ} {c : Cursor ρ} {r : Run ρ} {i n : ℕ} (h : Sim s c)
    (hpl : c.place = Cursor.enter r i) (hn : r.rows.length - i = n) :
    ∃ s', visitLoop (n + 1) s = some ((r.rows.drop i).map some, s') := by
  have hl := (isAfterLast_iff_past h).trans (isPast_enter hpl)
  induction n generalizing s c i with
  | zero =>
    have hi : r.rows.length ≤ i := by omega
    exact ⟨s, by simp [visitLoop, hl, hi]⟩
  | succ n ih =>
    have hi : i < r.rows.length := by omega
    have hs := (move_sim h .next).2
    have hc := next_enter hpl
    obtain ⟨s', hs'⟩ := ih hs hc (by omega) ((isAfterLast_iff_past hs).trans (isPast_enter hc))
    have hrow : current s = some r.rows[i] := by
      rw [current_eq h, current_enter hpl, List.getElem?_eq_getElem hi]
    refine ⟨s', ?_⟩
    rw [visitLoop, if_neg (by simp [hl, hi]), hs', hrow, List.drop_eq_getElem_cons hi]
    rfl

theorem visitLoop_fuel {f g : ℕ} {s : State ρ} {a b : List (Option ρ) × State ρ}
    (ha : visitLoop f s = some a) (hb : visitLoop g s = some b) : a = b := by
  induction f generalizing g s a b with
  | zero => simp [visitLoop] at ha
  | succ f ih =>
    cases g with
    | zero => simp [visitLoop] at hb
    | succ g =>
      unfold visitLoop at ha hb
      split at ha
      · next hl =>
        rw [if_pos hl] at hb
        exact Option.some.inj (ha.symm.trans hb)
      · next hl =>
        rw [if_neg hl] at hb
        obtain ⟨x, hx, rfl⟩ := Option.map_eq_some_iff.mp ha
        obtain ⟨y, hy, rfl⟩ := Option.map_eq_some_iff.mp hb
        rw [ih hx hy]

theorem moveToFirst_enters {s : State ρ} {c : Cursor ρ} (h : Sim s c)
    (hok : (sqlite3Reset s.1.statement s.2).1 = SQLITE_OK) :
    Sim (next s .first) c.restart ∧ c.restart.place = Cursor.enter (c.runs c.used) 0 :=
  ⟨(moveToFirst_restarts h hok).2, rfl⟩

theorem visitAll_ends {s : State ρ} {c : Cursor ρ} (h : Sim s c) :
    ∃ fuel, (visitAll fuel s).isSome := by
  by_cases hok : (sqlite3Reset s.1.statement s.2).1 = SQLITE_OK
  · obtain ⟨hs, hpl⟩ := moveToFirst_enters h hok
    obtain ⟨s', hv⟩ := visitLoop_rows hs hpl rfl
    exact ⟨_, by rw [visitAll, hv]; rfl⟩
  · obtain ⟨b, hpl, hb⟩ : ∃ b, c.place = .past b ∧ b ≠ false := by
      simpa [reset_ok_iff h] using hok
    obtain rfl : b = true := by simpa using hb
    have hl := isAfterLast_iff_past (moveToFirst_reports h hpl).2
    exact ⟨1, by simp [visitAll, visitLoop, hl, Cursor.isPast]⟩

/-- From any place two calls of `moveToFirst` are enough to start another execution. -/
theorem restarts_again (c : Cursor ρ) :
    ∃ ms, (run Cursor.next c ms).used = c.used + 1 ∧
      (run Cursor.next c ms).place = Cursor.enter (c.runs c.used) 0 := by
  rcases c with ⟨runs, used, _ | ⟨r, i⟩ | pending⟩
  · exact ⟨[.first], rfl, rfl⟩
  · exact ⟨[.first], rfl, rfl⟩
  · cases pending with
    | false => exact ⟨[.first], rfl, rfl⟩
    | true => exact ⟨[.first, .first], rfl, rfl⟩

theorem reaches_execution (c : Cursor ρ) (hc : c.used = 0) (n : ℕ) :
    ∃ ms, (run Cursor.next c ms).used = n + 1 ∧
      (run Cursor.next c ms).place = Cursor.enter (c.runs n) 0 := by
  induction n with
  | zero =>
    obtain ⟨ms, hu, hp⟩ := restarts_again c
    rw [hc] at hu hp
    exact ⟨ms, hu, hp⟩
  | succ n ih =>
    obtain ⟨ms, hu, -⟩ := ih
    obtain ⟨ms', hu', hp'⟩ := restarts_again (run Cursor.next c ms)
    rw [run_runs, hu] at hp'
    rw [hu] at hu'
    exact ⟨ms ++ ms', by rw [run_append, hu'], by rw [run_append, hp']⟩

theorem next_no_row {c : Cursor ρ} (hr : ∀ n, (c.runs n).rows = [])
    (hp : ∀ r i, c.place ≠ .row r i) (m : Move) : ∀ r i, (c.next m).place ≠ .row r i := by
  have hrestart : ∀ r i, c.restart.place ≠ .row r i := by
    simp [Cursor.restart, Cursor.enter, hr]
  unfold Cursor.next Cursor.move
  cases hpl : c.place with
  | before => cases m <;> exact hrestart
  | row r i => exact absurd hpl (hp r i)
  | past pending =>
    cases m with
    | first =>
      cases pending with
      | false => exact hrestart
      | true => simp
    | next => simp [hpl]

/-- A cursor is never at a row exactly when no execution yields one. -/
theorem no_row_iff (statement : Option ℕ) (runs : ℕ → Run ρ) :
    (∀ ms, current (run next (initial statement runs) ms) = none) ↔
      ∀ n, (runsOf statement runs n).rows = [] := by
  have hsim (ms : List Move) := run_sim (initial_sim statement runs) ms
  constructor
  · intro h n
    obtain ⟨ms, -, hp⟩ := reaches_execution (abstractInitial statement runs) rfl n
    have hrow := h ms
    rw [current_eq (hsim ms), current_enter hp] at hrow
    exact List.length_eq_zero_iff.mp (Nat.le_zero.mp (List.getElem?_eq_none_iff.mp hrow))
  · intro h ms
    have hinv : (∀ n, ((run Cursor.next (abstractInitial statement runs) ms).runs n).rows = []) ∧
        ∀ r i, (run Cursor.next (abstractInitial statement runs) ms).place ≠ .row r i := by
      refine run_preserves (I := fun c : Cursor ρ => (∀ n, (c.runs n).rows = []) ∧
        ∀ r i, c.place ≠ .row r i) ?_ ⟨h, by simp [abstractInitial]⟩ ms
      rintro c m ⟨hr, hp⟩
      exact ⟨fun n => by rw [next_runs, hr], next_no_row hr hp m⟩
    rw [current_eq (hsim ms), Cursor.current]
    split
    · next r i hpl => exact absurd hpl (hinv.2 r i)
    · rfl

/-- What a cursor keeps to, wherever the calls so far have brought it. A reset that answers
SQLITE_OK means that no error of a step waits to be reported. -/
structure Refines (statement : Option ℕ) (runs : ℕ → Run ρ) (s : State ρ) (c : Cursor ρ) :
    Prop where
  answers : ∀ m, (move s m).1 = (c.move m).1
  current : current s = c.current
  isAfterLast : isAfterLast s.1 = true ↔ ∃ rc, s.2.steps.head? = some rc ∧ rc ≠ SQLITE_ROW
  moveToNext : (move s .next).1 = true ↔ MadQuery.isAfterLast s.1 = false
  stays : MadQuery.isAfterLast s.1 = true → next s .next = s
  resets : (∀ rc ∈ s.2.steps, rc = SQLITE_ROW ∨ rc = SQLITE_DONE) →
    (sqlite3Reset s.1.statement s.2).1 = SQLITE_OK
  rows : (sqlite3Reset s.1.statement s.2).1 = SQLITE_OK → ∀ k,
    CursorRows.current (run next s (.first :: List.replicate k .next)) =
      (runsOf statement runs s.2.started).rows[k]?
  ends : ∃ fuel, (visitAll fuel s).isSome
  visits : (sqlite3Reset s.1.statement s.2).1 = SQLITE_OK → ∀ fuel r, visitAll fuel s = some r →
    r.1 = (runsOf statement runs s.2.started).rows.map some

theorem refines (statement : Option ℕ) (runs : ℕ → Run ρ) (ms : List Move) :
    Refines statement runs (run next (initial statement runs) ms)
      (run Cursor.next (abstractInitial statement runs) ms) := by
  have h := run_sim (initial_sim statement runs) ms
  have hr : (run Cursor.next (abstractInitial statement runs) ms).runs = runsOf statement runs :=
    run_runs _ ms
  generalize run next (initial statement runs) ms = s at h ⊢
  generalize run Cursor.next (abstractInitial statement runs) ms = c at h hr ⊢
  have hrun := nextRun_eq h hr
  refine ⟨fun m => (move_sim h m).1, current_eq h, isAfterLast_iff_step h, ?_, ?_,
    reset_ok_of_no_failure h, fun hok k => ?_, visitAll_ends h, fun hok fuel r hv => ?_⟩
  · cases hl : MadQuery.isAfterLast s.1 with
    | true => simp [moveToNext_stays hl]
    | false => simp [moveToNext_steps hl]
  · intro hl
    rw [next, moveToNext_stays hl]
  · obtain ⟨hs, hpl⟩ := moveToFirst_enters h hok
    rw [← hrun, run_cons, current_eq (run_sim hs _),
      current_enter (replicate_next_enter hpl k), Nat.zero_add]
  · obtain ⟨hs, hpl⟩ := moveToFirst_enters h hok
    obtain ⟨s', hv'⟩ := visitLoop_rows hs hpl rfl
    rw [visitLoop_fuel hv hv', ← hrun]
    rfl

end CursorRows
