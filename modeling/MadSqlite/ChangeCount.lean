import MadSqlite.MadDatabase
import MadSqlite.Runs

/-! # The number exec returns

`sqlite3_changes` speaks of the last statement that counted its rows, whichever call ran
it. The rows a call changed are the counts of all statements it completed. -/
namespace ChangeCount

open CppStrings SqliteCommands SqliteConnection SqliteConnection.Connection SqliteExec
open MadDatabase Runs

variable {σ : Type*} (g : Grammar)

def otherStmt (env : CommandEnv σ) : Stmt := ⟨[], [], env.writes, env.counts, false⟩

/-- The command is an INSERT, UPDATE or DELETE and comes to its end, with success or not. -/
def Completes (c : Connection σ) (cmd : Command) (env : CommandEnv σ) : Bool :=
  match cmd, env.prepare, env.progress with
  | .other _, none, .lockBusy _ => env.counts
  | .other _, none, .ran r =>
    env.counts &&
      (sqlite3VdbeHalt c (runProgram c (otherStmt env) r) (otherStmt env) r.toHalt).2.1
  | _, _, _ => false

/-- The rows changed by each completed statement of a text, as SQLite counts them. -/
def changeCounts (env : ExecEnv σ) : ℕ → List Command → Connection σ → List ℤ
  | _, [], _ => []
  | i, cmd :: cmds, c =>
    let (a, d) := execCommand c cmd (env i)
    (if Completes c cmd (env i) then [d.nChange] else []) ++
      if a = none then changeCounts env (i + 1) cmds d else []

def execCounts (h : Impl σ) (sql : Bytes) (env : ExecEnv σ) : List ℤ :=
  if upperCaseString sql ∈ transactionKeyWords then []
  else changeCounts env 0 (sqlCommands g sql) (h.db.report none)

structure ExecCall (σ : Type*) where
  sql : Bytes
  env : ExecEnv σ

def next (h : Impl σ) (e : ExecCall σ) : Impl σ := (exec g h e.sql e.env).2

def Counts (h : Impl σ) (e : ExecCall σ) : Prop :=
  (exec g h e.sql e.env).1 = (execCounts g h e.sql e.env).sum

instance (h : Impl σ) (e : ExecCall σ) : Decidable (Counts g h e) :=
  inferInstanceAs (Decidable (_ = _))

/-- When a statement completes, those before it in the text have changed no row; when none
does, the counter is zero from before. A bare transaction word is not executed at all. -/
def CountsWhen (h : Impl σ) (e : ExecCall σ) : Prop :=
  upperCaseString e.sql ∈ transactionKeyWords ∨
    if execCounts g h e.sql e.env = [] then h.db.nChange = 0
    else (execCounts g h e.sql e.env).dropLast.sum = 0

theorem runProgram_nChange (c : Connection σ) (s : Stmt) (r : Ran σ) :
    (runProgram c s r).nChange = c.nChange := by
  unfold runProgram
  split <;> rfl

theorem execCommand_nChange {c : Connection σ} {cmd : Command} {env : CommandEnv σ}
    (h : Completes c cmd env = false) : (execCommand c cmd env).2.nChange = c.nChange := by
  cases hp : env.prepare with
  | some f => cases cmd <;> simp [execCommand, hp]
  | none =>
    cases cmd with
    | syntaxError => simp [execCommand, hp]
    | control t =>
      cases hq : env.progress with
      | notStarted f => simp [execCommand, hp, hq]
      | lockBusy msg => simp [execCommand, hp, hq]
      | ran r => simp [execCommand, hp, hq, runControl_nChange]
    | other ts =>
      cases hq : env.progress with
      | notStarted f => simp [execCommand, hp, hq]
      | lockBusy msg =>
        have hc : env.counts = false := by simpa [Completes, hp, hq] using h
        simp only [execCommand, hp, hq]
        exact halt_nChange c c _ hc
      | ran r =>
        simp only [Completes, hp, hq, Bool.and_eq_false_iff] at h
        simp only [execCommand, hp, hq]
        rcases h with hc | hw
        · exact (halt_nChange _ _ _ hc).trans (runProgram_nChange c _ r)
        · exact (congrArg nChange (halt_waits hw)).trans (runProgram_nChange c _ r)

theorem execCommands_nChange (env : ExecEnv σ) (i : ℕ) (cmds : List Command)
    (c : Connection σ) : (execCommands env i cmds c).2.nChange =
      (changeCounts env i cmds c).getLast?.getD c.nChange := by
  induction cmds generalizing i c with
  | nil => rfl
  | cons cmd cmds ih =>
    have hd : (execCommand c cmd (env i)).2.nChange =
        ((if Completes c cmd (env i) then [(execCommand c cmd (env i)).2.nChange]
          else []).getLast?.getD c.nChange) := by
      split
      · rfl
      · next hc => exact execCommand_nChange (by simpa using hc)
    rw [execCommands, changeCounts]
    generalize execCommand c cmd (env i) = r at hd ⊢
    obtain ⟨a, d⟩ := r
    cases a with
    | some f => simpa using hd
    | none =>
      simp only [ih, if_true, List.getLast?_append, Option.getD_or]
      exact congrArg _ hd

theorem last_eq_sum {l : List ℤ} {n : ℤ} :
    l.getLast?.getD n = l.sum ↔ if l = [] then n = 0 else l.dropLast.sum = 0 := by
  cases l using List.reverseRecOn with
  | nil => simp
  | append_singleton l m => simp

theorem counts_step (h : Impl σ) (e : ExecCall σ) : Counts g h e ↔ CountsWhen g h e := by
  unfold Counts CountsWhen
  by_cases hk : upperCaseString e.sql ∈ transactionKeyWords
  · simp [exec, execCounts, hk]
  · have he : (exec g h e.sql e.env).1 =
        (execCounts g h e.sql e.env).getLast?.getD h.db.nChange := by
      simp only [exec, execInternal, execCounts, hk, if_false]
      exact execCommands_nChange e.env 0 (sqlCommands g e.sql) (h.db.report none)
    rw [he, last_eq_sum, or_iff_right hk]

/-- In every sequence of calls each returns the rows it changed exactly when each call
meets the condition. -/
theorem counts_iff (h : Impl σ) (es : List (ExecCall σ)) :
    AllSteps (next g) (Counts g) h es ↔ AllSteps (next g) (CountsWhen g) h es :=
  allSteps_congr (I := fun _ => True) (fun _ _ _ => trivial) (fun h e _ => counts_step g h e)
    trivial

/-- A grammar in which a text is one command. -/
def wholeText : Grammar :=
  ⟨fun ts => if ts = [] then none else some [], by
    intro ts rest h
    split at h
    · cases h
    · next hn =>
      obtain rfl : [] = rest := Option.some.inj h
      exact List.length_pos_of_ne_nil hn⟩

/-- One row goes, and the text after it has no statement. -/
def deleteThenBlank : List (ExecCall (List ℕ)) :=
  [⟨ascii "DELETE FROM t", fun _ => ⟨none, true, true, .ran (.stored fun _ => [])⟩⟩,
    ⟨[], answers none⟩]

theorem deleteThenBlank_miscounted :
    ¬AllSteps (next wholeText) (Counts wholeText) (Impl.opened [1]) deleteThenBlank := by
  rintro ⟨-, h, -⟩
  exact absurd h (by decide)

end ChangeCount
