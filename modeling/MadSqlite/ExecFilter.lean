import MadSqlite.MadDatabase

/-! # The filter of exec

`exec` turns away the three texts BEGIN, COMMIT and ROLLBACK, in any letter case. SQLite
reads transaction control in many more texts, and a statement of any other kind can end
the transaction it runs in. -/
namespace ExecFilter

open CppStrings SqliteCommands TransactionalStore SqliteConnection SqliteConnection.Connection
open SqliteExec MadDatabase

variable {σ : Type*} (g : Grammar)

def Filtered (sql : Bytes) : Prop := upperCaseString sql ∈ transactionKeyWords

instance (sql : Bytes) : Decidable (Filtered sql) :=
  inferInstanceAs (Decidable (_ ∈ _))

def Rejected (h : Impl σ) (sql : Bytes) : Prop := ∀ env, exec g h sql env = (0, h)

/-- Transaction control is rejected, and the transaction is open after the call exactly
when it was open before. -/
def KeepsTransaction (h : Impl σ) (sql : Bytes) (env : ExecEnv σ) : Prop :=
  (HasTransactionControl g sql → Rejected g h sql) ∧
    (exec g h sql env).2.db.autoCommit = h.db.autoCommit

def Ends (env : CommandEnv σ) : Prop :=
  match env.prepare, env.progress with
  | none, .ran r => r.endsTransaction env.writes = true
  | _, _ => False

def Succeeds (env : CommandEnv σ) : Prop :=
  match env.prepare, env.progress with
  | none, .ran r => r.error = none ∧ r.endsTransaction env.writes = false
  | _, _ => False

def SomeEnds (env : ExecEnv σ) : ℕ → List Command → Prop
  | _, [] => False
  | i, .other _ :: cmds => Ends (env i) ∨ (Succeeds (env i) ∧ SomeEnds env (i + 1) cmds)
  | _, _ :: _ => False

theorem Succeeds.not_ends {env : CommandEnv σ} (hs : Succeeds env) : ¬Ends env := by
  intro he
  unfold Succeeds at hs
  unfold Ends at he
  split at hs
  · next hp hq =>
    rw [hp, hq] at he
    simp [hs.2] at he
  · exact hs

theorem exec_filtered {sql : Bytes} (hf : Filtered sql) (h : Impl σ) : Rejected g h sql :=
  fun _ => if_pos hf

theorem exec_not_filtered {sql : Bytes} (hf : ¬Filtered sql) (h : Impl σ) (env : ExecEnv σ) :
    exec g h sql env = execInternal g h sql env := if_neg hf

theorem execCommand_other {c : Connection σ} (hc : c.autoCommit = false)
    (ts : List SqliteTokens.Token) (env : CommandEnv σ) :
    ∃ a d, execCommand c (.other ts) env = (a, d) ∧
      (d.autoCommit = true ↔ Ends env) ∧ (a = none ↔ Succeeds env) := by
  cases hp : env.prepare with
  | some f =>
    exact ⟨some f, c, by simp [execCommand, hp], by simp [Ends, hp, hc], by simp [Succeeds, hp]⟩
  | none =>
    cases hs : env.progress with
    | notStarted f =>
      exact ⟨some f, c, by simp [execCommand, hp, hs], by simp [Ends, hp, hs, hc],
        by simp [Succeeds, hp, hs]⟩
    | lockBusy msg =>
      let h : Halt := ⟨some (busy msg), .abort, false, 0, none, none⟩
      obtain ⟨a, d, hd, he, -⟩ :=
        halt_in_transaction c ⟨[], [], env.writes, env.counts, false⟩ h hc
      refine ⟨some (busy msg), d, by simp [execCommand, hp, hs, hd, h], ?_,
        by simp [Succeeds, hp, hs]⟩
      have hends : h.endsTransaction env.writes = false := by
        cases env.writes <;> rfl
      simp [Ends, hp, hs, he, hends]
    | ran r =>
      let s : Stmt := ⟨[], [], env.writes, env.counts, false⟩
      have hr : (runProgram c s r).autoCommit = false := by
        unfold runProgram
        split <;> exact hc
      obtain ⟨a, d, hd, he, ha⟩ := halt_in_transaction c s r.toHalt hr
      exact ⟨a, d, by simp [execCommand, hp, hs, hd, s], by simp [Ends, hp, hs, he, s],
        by simp [Succeeds, hp, hs, ha, s]⟩

theorem execCommands_in_transaction (env : ExecEnv σ) {cmds : List Command}
    (hn : ∀ t, .control t ∉ cmds) (i : ℕ) {c : Connection σ} (hc : c.autoCommit = false) :
    (execCommands env i cmds c).2.autoCommit = false ↔ ¬SomeEnds env i cmds := by
  induction cmds generalizing i c with
  | nil => simp [execCommands, SomeEnds, hc]
  | cons cmd cmds ih =>
    cases cmd with
    | control t => exact absurd List.mem_cons_self (hn t)
    | syntaxError =>
      have hs : ∃ f, execCommand c .syntaxError (env i) = (some f, c) := by
        cases hp : (env i).prepare <;> exact ⟨_, by simp only [execCommand, hp]; rfl⟩
      obtain ⟨f, hf⟩ := hs
      simp [execCommands, hf, SomeEnds, hc]
    | other ts =>
      obtain ⟨a, d, hd, he, ha⟩ := execCommand_other hc ts (env i)
      simp only [execCommands, hd, SomeEnds]
      cases a with
      | some f =>
        have hns : ¬Succeeds (env i) := fun hs => by simpa using ha.mpr hs
        simp [← he, hns]
      | none =>
        have hs := ha.mp rfl
        have hdc : d.autoCommit = false := by
          by_contra hd
          exact hs.not_ends (he.mp (by simpa using hd))
        rw [ih (fun t hm => hn t (List.mem_cons_of_mem _ hm)) (i + 1) hdc]
        simp [hs, hs.not_ends]

theorem execCommand_autoCommit {c : Connection σ} (hc : c.autoCommit = true) {cmd : Command}
    (hn : ∀ t, cmd ≠ .control t) (env : CommandEnv σ) :
    (execCommand c cmd env).2.autoCommit = true := by
  cases cmd with
  | control t => exact absurd rfl (hn t)
  | syntaxError => cases hp : env.prepare <;> simp [execCommand, hp, hc]
  | other ts =>
    cases hp : env.prepare with
    | some f => simp [execCommand, hp, hc]
    | none =>
      cases hs : env.progress with
      | notStarted f => simp [execCommand, hp, hs, hc]
      | lockBusy msg =>
        simp only [execCommand, hp, hs]
        exact halt_autoCommit _ _ _ hc
      | ran r =>
        simp only [execCommand, hp, hs]
        refine halt_autoCommit _ _ _ ?_
        unfold runProgram
        split <;> exact hc

theorem execCommands_autoCommit (env : ExecEnv σ) {cmds : List Command}
    (hn : ∀ t, .control t ∉ cmds) (i : ℕ) {c : Connection σ} (hc : c.autoCommit = true) :
    (execCommands env i cmds c).2.autoCommit = true := by
  induction cmds generalizing i c with
  | nil => exact hc
  | cons cmd cmds ih =>
    have hd := execCommand_autoCommit hc
      (fun t he => hn t (he ▸ List.mem_cons_self)) (env i)
    rw [execCommands]
    split
    · next d he =>
      rw [he] at hd
      exact ih (fun t hm => hn t (List.mem_cons_of_mem _ hm)) (i + 1) hd
    · next f d he => rwa [he] at hd

/-- A text with transaction control that the filter lets through reaches SQLite: a failing
prepare shows in the error message of the connection. -/
theorem control_not_rejected {h : Impl σ} {sql : Bytes} (hf : ¬Filtered sql)
    (hc : HasTransactionControl g sql) : ¬Rejected g h sql := by
  intro hr
  let f : Failure := ⟨SQLITE_NOMEM, 1 :: h.db.errMsg, by decide⟩
  let env : ExecEnv σ := fun _ => ⟨some f, false, false, .notStarted f⟩
  have he := hr env
  rw [exec_not_filtered g hf] at he
  obtain ⟨t, ht⟩ := hc
  obtain ⟨cmd, cmds, hs⟩ := List.exists_cons_of_ne_nil (List.ne_nil_of_mem ht)
  have hx : execCommand (h.db.report none) cmd (env 0) = (some f, h.db.report none) := by
    cases cmd <;> rfl
  have hm : (execInternal g h sql env).2.db.errMsg = 1 :: h.db.errMsg := by
    simp only [execInternal, sqlite3Exec, hs, execCommands, hx]
    rfl
  rw [he] at hm
  exact List.cons_ne_self _ _ hm.symm

theorem exec_autoCommit (h : Impl σ) {sql : Bytes} (hf : ¬Filtered sql)
    (hc : ¬HasTransactionControl g sql) (env : ExecEnv σ) :
    (exec g h sql env).2.db.autoCommit = h.db.autoCommit ↔
      h.db.autoCommit = true ∨ ¬SomeEnds env 0 (sqlCommands g sql) := by
  have hn : ∀ t, .control t ∉ sqlCommands g sql := fun t ht => hc ⟨t, ht⟩
  have hx : (exec g h sql env).2.db.autoCommit =
      (execCommands env 0 (sqlCommands g sql) (h.db.report none)).2.autoCommit := by
    rw [exec_not_filtered g hf]
    rfl
  rw [hx]
  cases ha : h.db.autoCommit with
  | true =>
    have ha' : (h.db.report none).autoCommit = true := ha
    simp [execCommands_autoCommit env hn 0 ha']
  | false =>
    have ha' : (h.db.report none).autoCommit = false := ha
    simp [execCommands_in_transaction env hn 0 ha']

/-- `exec` keeps the transaction exactly when the text is one of the three it turns away,
or has no transaction control and no statement of it ends an open transaction. -/
theorem keeps_transaction_iff (h : Impl σ) (sql : Bytes) (env : ExecEnv σ) :
    KeepsTransaction g h sql env ↔ Filtered sql ∨ (¬HasTransactionControl g sql ∧
      (h.db.autoCommit = true ∨ ¬SomeEnds env 0 (sqlCommands g sql))) := by
  by_cases hf : Filtered sql
  · have hr := exec_filtered g hf h
    exact iff_of_true ⟨fun _ => hr, by rw [hr env]⟩ (.inl hf)
  · by_cases hc : HasTransactionControl g sql
    · simp [KeepsTransaction, hf, hc, control_not_rejected g hf hc]
    · simp [KeepsTransaction, hf, hc, exec_autoCommit g h hf hc]

theorem begin_semicolon_opens :
    ¬KeepsTransaction .controlOnly (Impl.opened ()) (ascii "BEGIN;") (answers none) := by
  rintro ⟨-, hk⟩
  exact absurd hk (by decide)

end ExecFilter
