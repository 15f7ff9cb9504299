import MadSqlite.AtomicCalls
import MadSqlite.HandleCalls

/-! # Inserts, executions and queries of many threads

The code of the three calls that use the connection in the scope of one guard only, call of
SQLite by call of SQLite, and what any number of threads get out of them. -/
namespace HandleAtomic

open CppStrings ContentValues SqliteCommands SqliteConnection SqliteConnection.Connection
open SqliteExec MadDatabase AtomicCalls Runs
open HandleCalls hiding next

variable {σ : Type*}

/-- A call of SQLite with its arguments, and with what decides how it goes. -/
inductive Action (σ : Type*) where
  | prepareV2 (sql : Bytes) (writes counts : Bool) (answer : Answer)
  | bind (stmt : Option ℕ) (i : ℕ) (v : BindCall) (answer : Answer)
  | step (stmt : Option ℕ) (progress : Stmt → Progress σ)
  | exec (sql : Bytes) (env : ExecEnv σ)
  | changes
  | errmsg

@[reducible] def Answers : Action σ → Type
  | .prepareV2 _ _ _ _ => Answer × Option ℕ
  | .bind _ _ _ _ | .exec _ _ => Answer
  | .step _ _ => ResultCode
  | .changes => ℤ
  | .errmsg => Bytes

/-- The connection after a call of SQLite, and the answer. -/
def onConnection {α : Type} (h : Impl σ) (r : α × Connection σ) : α × Impl σ :=
  (r.1, { h with db := r.2 })

def act (g : Grammar) (h : Impl σ) : (a : Action σ) → Answers a × Impl σ
  | .prepareV2 sql writes counts answer =>
    let (rc, stmt, c) := sqlite3PrepareV2 h.db sql writes counts answer
    ((rc, stmt), { h with db := c })
  | .bind stmt i v answer => onConnection h (sqlite3Bind h.db stmt i v answer)
  | .step stmt progress => onConnection h (sqlite3Step h.db stmt progress)
  | .exec sql env => onConnection h (sqlite3Exec g h.db sql env)
  | .changes => (h.db.nChange, h)
  | .errmsg => (h.db.errMsg, h)

/-- `errorMessage` says whether `sqlite3_exec` has memory for the message of a failure. -/
inductive Call (σ : Type*) where
  | insert (c : InsertCall σ)
  | exec (sql : Bytes) (env : ExecEnv σ) (errorMessage : Bool)
  | query (sql : Bytes) (args : List Bytes) (env : QueryEnv)

inductive Result where
  | inserted (b : Bool)
  | changed (n : ℤ)
  | statement (stmt : Option ℕ)
  deriving DecidableEq

abbrev CallBody (σ : Type*) := Body (Action σ) Answers Result
abbrev CallCode (σ : Type*) := Code (Action σ) Answers Result

def bindLoop (p : Platform) (env : InsertEnv σ) (cv : ContentValues.Impl) (stmt : Option ℕ) :
    ℕ → List Bytes → CallBody σ
  | _, [] =>
    .act (.step stmt env.step) fun (rc : ResultCode) => .leave (.inserted (rc = SQLITE_DONE))
  | i, key :: keys =>
    match bindCall p cv key with
    | .error _ => .leave (.inserted false)
    | .ok none => bindLoop p env cv stmt (i + 1) keys
    | .ok (some v) => .act (.bind stmt (i + 1) v (env.bind (i + 1) v)) fun (rc : Answer) =>
        if rc = none then bindLoop p env cv stmt (i + 1) keys else .leave (.inserted true)

def insert (p : Platform) (table : Bytes) (cv : ContentValues.Impl) (env : InsertEnv σ) :
    CallCode σ :=
  if isEmpty cv then .alone (.inserted false)
  else
    let ks := keys env.order cv
    let sql := insertSql table ks
    .guarded (.act (.prepareV2 sql true true (env.prepare sql)) fun (r : Answer × Option ℕ) =>
      if r.1 = none then bindLoop p env cv r.2 0 ks
      else .act .errmsg fun _ => .leave (.inserted false))

def exec (sql : Bytes) (env : ExecEnv σ) (errorMessage : Bool) : CallCode σ :=
  if upperCaseString sql ∈ transactionKeyWords then .alone (.changed 0)
  else
    let changes : CallBody σ := .act .changes fun (n : ℤ) => .leave (.changed n)
    .guarded (.act (.exec sql env) fun (rc : Answer) =>
      if rc = none ∨ errorMessage then changes else .act .errmsg fun _ => changes)

def bindArgs (env : QueryEnv) (stmt : Option ℕ) : ℕ → List Bytes → CallBody σ
  | _, [] => .leave (.statement stmt)
  | i, str :: args =>
    let v := BindCall.text str (toInt str.length)
    .act (.bind stmt (i + 1) v (env.bind (i + 1) v)) fun _ => bindArgs env stmt (i + 1) args

def query (sql : Bytes) (args : List Bytes) (env : QueryEnv) : CallCode σ :=
  .guarded (.act (.prepareV2 sql env.writes env.counts (env.prepare sql))
    fun (r : Answer × Option ℕ) =>
      if r.1 = none then bindArgs env r.2 0 args
      else .act .errmsg fun _ => bindArgs env r.2 0 args)

def code (p : Platform) : Call σ → CallCode σ
  | .insert c => insert p c.table c.values.impl c.env
  | .exec sql env errorMessage => exec sql env errorMessage
  | .query sql args env => query sql args env

/-- The same call as a whole. -/
def perform (p : Platform) (g : Grammar) (h : Impl σ) : Call σ → Result × Impl σ
  | .insert c => (.inserted (insertValues p h c).1, (insertValues p h c).2)
  | .exec sql env _ => (.changed (MadDatabase.exec g h sql env).1, (MadDatabase.exec g h sql env).2)
  | .query sql args env =>
    (.statement (MadDatabase.query h sql args env).1, (MadDatabase.query h sql args env).2)

section Whole

variable (p : Platform) (g : Grammar)

/-- What is left of an insert after its bind loop. -/
def finishInsert (h : Impl σ) (stmt : Option ℕ) (env : InsertEnv σ) :
    Bool × Connection σ → Result × Impl σ
  | (false, d) => (.inserted true, { h with db := d })
  | (true, d) =>
    (.inserted ((sqlite3Step d stmt env.step).1 = SQLITE_DONE),
      { h with db := (sqlite3Step d stmt env.step).2 })

theorem bindLoop_eval {env : InsertEnv σ} {cv : ContentValues.Impl} {stmt : Option ℕ} {i : ℕ}
    {ks : List Bytes} {h : Impl σ} {r : Bool × Connection σ}
    (hr : MadDatabase.bindLoop p env cv stmt i ks h.db = .ok r) :
    (bindLoop p env cv stmt i ks).eval (act g) h = finishInsert h stmt env r := by
  induction ks generalizing i h with
  | nil =>
    cases hr
    rfl
  | cons key ks ih =>
    unfold MadDatabase.bindLoop at hr
    unfold bindLoop
    cases hc : bindCall p cv key with
    | error e => simp [hc] at hr
    | ok v =>
      cases v with
      | none =>
        simp only [hc] at hr ⊢
        exact ih hr
      | some v =>
        simp only [hc] at hr ⊢
        rw [eval_act, act]
        cases hb : sqlite3Bind h.db stmt (i + 1) v (env.bind (i + 1) v) with
        | mk a d =>
          rw [hb] at hr
          cases a with
          | none => exact ih hr
          | some f =>
            cases hr
            rfl

theorem insert_eval (h : Impl σ) (c : InsertCall σ) :
    answer (code p) (act g) h (.insert c) = perform p g h (.insert c) := by
  have hs := insertValues_spec p h c
  simp only [answer, code, insert, perform]
  generalize insertValues p h c = v at hs ⊢
  unfold MadDatabase.insert at hs
  by_cases he : isEmpty c.values.impl = true
  · rw [if_pos he] at hs ⊢
    cases hs
    rfl
  · rw [if_neg he] at hs ⊢
    dsimp only at hs ⊢
    rw [eval_act, act]
    generalize insertSql c.table (keys c.env.order c.values.impl) = sql at hs ⊢
    cases hp : sqlite3PrepareV2 h.db sql true true (c.env.prepare sql) with
    | mk a r =>
      obtain ⟨stmt, d⟩ := r
      rw [hp] at hs
      cases a with
      | some f =>
        cases hs
        rfl
      | none =>
        dsimp only at hs ⊢
        cases hl : MadDatabase.bindLoop p c.env c.values.impl stmt 0
            (keys c.env.order c.values.impl) d with
        | error e => simp [hl] at hs
        | ok q =>
          rw [if_pos rfl, bindLoop_eval p g (h := { h with db := d }) hl]
          rw [hl] at hs
          obtain ⟨b, e⟩ := q
          cases b <;> cases hs <;> rfl

theorem exec_eval (h : Impl σ) (sql : Bytes) (env : ExecEnv σ) (errorMessage : Bool) :
    answer (code p) (act g) h (.exec sql env errorMessage) =
      perform p g h (.exec sql env errorMessage) := by
  simp only [answer, code, exec, perform, MadDatabase.exec]
  split
  · next hc =>
    split at hc
    · next hk =>
      cases hc
      simp only [if_pos hk]
    · cases hc
  · next hc =>
    split at hc
    · cases hc
    · next hk =>
      cases hc
      rw [eval_act, act]
      simp only [if_neg hk]
      split <;> rfl

theorem bindArgs_eval (env : QueryEnv) (stmt : Option ℕ) (i : ℕ) (args : List Bytes)
    (h : Impl σ) : (bindArgs env stmt i args).eval (act g) h =
      (.statement stmt, { h with db := MadDatabase.bindArgs env stmt i args h.db }) := by
  induction args generalizing i h with
  | nil => rfl
  | cons str args ih =>
    rw [bindArgs, eval_act, act, ih]
    rfl

theorem query_eval (h : Impl σ) (sql : Bytes) (args : List Bytes) (env : QueryEnv) :
    answer (code p) (act g) h (.query sql args env) = perform p g h (.query sql args env) := by
  simp only [answer, code, query, perform, MadDatabase.query]
  rw [eval_act, act]
  cases hp : sqlite3PrepareV2 h.db sql env.writes env.counts (env.prepare sql) with
  | mk a r =>
    cases a with
    | none => exact bindArgs_eval g env _ 0 args _
    | some f => exact bindArgs_eval g env _ 0 args _

/-- The code of a call, run by a thread that nobody interrupts, is the call. -/
theorem answer_eq (h : Impl σ) (m : Call σ) : answer (code p) (act g) h m = perform p g h m := by
  cases m with
  | insert c => exact insert_eval p g h c
  | exec sql env errorMessage => exact exec_eval p g h sql env errorMessage
  | query sql args env => exact query_eval p g h sql args env

variable {τ : Type*}

/-- A call after the calls before it. -/
def performed (h : Impl σ) (q : τ × Call σ × Result) : Impl σ := (perform p g h q.2.1).2

theorem serial_eq : serial (code p) (act g) = performed (τ := τ) (σ := σ) p g :=
  funext fun h => funext fun q => congrArg Prod.snd (answer_eq p g h q.2.1)

variable [DecidableEq τ]

/-- The calls in the order in which they have left the mutex: each has answered what it answers
when the ones before it are done, and when nobody is inside the handle is as they leave it. A
thread's calls are in the order of the thread. -/
structure OneAfterAnother (h₀ : Impl σ)
    (s : State τ (Call σ) (Action σ) Answers Result (Impl σ)) : Prop where
  answers : AllSteps (performed p g) (fun h q => (perform p g h q.2.1).1 = q.2.2) h₀ s.history
  handle : s.mutex = none → s.shared = run (performed p g) h₀ s.history
  order : ∀ t, (s.history.filter (·.1 = t)).map Prod.snd = s.returned t ++ (s.phase t).due

theorem oneAfterAnother_run (h₀ : Impl σ) (es : List (Event τ (Call σ))) :
    OneAfterAnother p g h₀ (run (next (code p) (act g)) (initial h₀) es) := by
  have hl : Linear (code p) (act g) h₀ (run (next (code p) (act g)) (initial h₀) es) :=
    run_linear es
  refine ⟨?_, ?_, hl.order⟩
  · have hans := hl.explains
    rw [Explains, serial_eq] at hans
    simpa only [answer_eq] using hans
  · rw [← serial_eq]
    exact hl.free

/-- Threads that insert, execute and query through one handle, in any interleaving of their
calls of SQLite, get what the calls give one after another. A call that has taken effect comes
before every call that takes effect later. -/
theorem one_after_another (h₀ : Impl σ) (es : List (Event τ (Call σ))) :
    OneAfterAnother p g h₀ (run (next (code p) (act g)) (initial h₀) es) ∧
      ∀ before after, es = before ++ after →
        (run (next (code p) (act g)) (initial h₀) before).history <+:
          (run (next (code p) (act g)) (initial h₀) es).history := by
  refine ⟨oneAfterAnother_run p g h₀ es, ?_⟩
  rintro before after rfl
  rw [run_append]
  exact history_prefix _ after

end Whole

end HandleAtomic
