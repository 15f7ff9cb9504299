import MadSqlite.SqliteCalls

/-! # What getError tells

`getError` looks at the text of the last message on the connection. A failed call goes
unnoticed when it leaves one of the two success texts, or none, or when a later call of
the same operation succeeds. -/
namespace ErrorText

open CppStrings ContentValues SqliteCommands SqliteConnection SqliteConnection.Connection
open SqliteExec MadDatabase HandleCalls SqliteCalls Runs

variable {σ : Type*} (p : Platform) (g : Grammar)

inductive Operation (σ : Type*) where
  | insert (c : InsertCall σ)
  | exec (sql : Bytes) (env : ExecEnv σ)
  | query (sql : Bytes) (args : List Bytes) (env : QueryEnv)
  | transaction (c : Call σ)

def next (h : Impl σ) : Operation σ → Impl σ
  | .insert c => insertNext p h c
  | .exec sql env => (exec g h sql env).2
  | .query sql args env => (query h sql args env).2
  | .transaction c => HandleCalls.next p g h c

/-- The calls of an operation the caller may ask about; those that control a transaction
have no result to explain. -/
def log (h : Impl σ) : Operation σ → List SqliteCall
  | .insert c => insertLog p h c
  | .exec sql env => execLog g h sql env
  | .query sql args env => queryLog h sql args env
  | .transaction _ => []

def Tells (h : Impl σ) (op : Operation σ) : Prop :=
  log p g h op ≠ [] → (getError (next p g h op) = [] ↔ ∀ q ∈ log p g h op, ¬q.Failed)

/-- `getError` takes such a message for no error. -/
def Silent (msg : Bytes) : Prop := cStr msg = [] ∨ cStr msg = msgOk ∨ cStr msg = msgUnknown

instance (msg : Bytes) : Decidable (Silent msg) :=
  inferInstanceAs (Decidable (_ ∨ _))

/-- A call that fails leaves a text that says so. -/
def Telling (q : SqliteCall) : Prop := q.Failed → ∀ m ∈ q.msg, ¬Silent m

def argCalls : ℕ → List Bytes → List (ℕ × BindCall)
  | _, [] => []
  | i, str :: args => (i + 1, .text str (toInt str.length)) :: argCalls (i + 1) args

/-- The text compiles to a statement, unless there is nothing to bind, and when one of the
arguments is refused the last one is, with a text that says so. -/
def QueryTells (sql : Bytes) (args : List Bytes) (env : QueryEnv) : Prop :=
  match env.prepare sql with
  | some f => ¬Silent f.msg
  | none =>
    if isBlank sql then args = []
    else (∀ q ∈ argCalls 0 args, env.bind q.1 q.2 = none) ∨
      ∃ q ∈ (argCalls 0 args).getLast?, ∃ f ∈ env.bind q.1 q.2, ¬Silent f.msg

def TellsWhen (h : Impl σ) : Operation σ → Prop
  | .insert c => ∀ q ∈ insertLog p h c, Telling q
  | .exec sql env => ∀ q ∈ execLog g h sql env, Telling q
  | .query sql args env => QueryTells sql args env
  | .transaction _ => True

theorem getError_eq_nil {h : Impl σ} : getError h = [] ↔ Silent h.db.errMsg := by
  unfold getError Silent
  split
  · next hm => exact iff_of_true rfl (.inr hm)
  · next hm => exact (or_iff_left hm).symm

theorem silent_ok : Silent msgOk := .inr (.inl (by decide))
theorem silent_unknown : Silent msgUnknown := .inr (.inr (by decide))

/-- The case of an operation whose last call is the only one that can have failed. -/
theorem tells_last {h : Impl σ} {l oks : List SqliteCall} {q : SqliteCall} (hl : l = oks ++ [q])
    (ho : ∀ o ∈ oks, ¬o.Failed) (hm : q.msg = some h.db.errMsg)
    (hok : ¬q.Failed → Silent h.db.errMsg) :
    (getError h = [] ↔ ∀ o ∈ l, ¬o.Failed) ↔ ∀ o ∈ l, Telling o := by
  have hall : (∀ o ∈ l, ¬o.Failed) ↔ ¬q.Failed := by
    rw [hl, List.forall_mem_append, List.forall_mem_singleton]
    exact and_iff_right ho
  have htell : (∀ o ∈ l, Telling o) ↔ (q.Failed → ¬Silent h.db.errMsg) := by
    have hoks : ∀ o ∈ oks, Telling o := fun o hm hf => absurd hf (ho o hm)
    rw [hl, List.forall_mem_append, List.forall_mem_singleton, and_iff_right hoks, Telling, hm]
    simp
  rw [hall, htell, getError_eq_nil]
  by_cases hf : q.Failed
  · simp [hf]
  · simp [hf, hok hf]

theorem insert_tells (h : Impl σ) (c : InsertCall σ) :
    Tells p g h (.insert c) ↔ ∀ q ∈ insertLog p h c, Telling q := by
  by_cases he : isEmpty c.values.impl = true
  · have hl : insertLog p h c = [] := by simp [insertLog, he]
    simp [Tells, log, hl]
  · obtain ⟨oks, q, hl, ho, hm, hlast⟩ := insertLog_last p h (by simpa using he)
    have hne : insertLog p h c ≠ [] := by simp [hl]
    have hoks : ∀ o ∈ oks, ¬o.Failed := fun o hm hf => hf.1 (ho o hm).1
    rw [Tells, log, forall_prop_of_true hne]
    apply tells_last hl hoks hm
    intro hnf
    generalize (insertValues p h c).1 = b at hlast
    cases hlast with
    | prepare _ _ hf => exact absurd hf hnf
    | bind _ _ _ hf => exact absurd hf hnf
    | step _ _ _ hf => exact absurd hf hnf
    | done _ _ _ _ hu =>
      rw [hm] at hu
      exact Option.some.inj hu ▸ silent_unknown

theorem exec_tells (h : Impl σ) (sql : Bytes) (env : ExecEnv σ) :
    Tells p g h (.exec sql env) ↔ ∀ q ∈ execLog g h sql env, Telling q := by
  by_cases hk : upperCaseString sql ∈ transactionKeyWords
  · simp [Tells, log, execLog, hk]
  · have hl : execLog g h sql env =
        [] ++ [⟨.exec, (sqlite3Exec g h.db sql env).1.rc,
          some (exec g h sql env).2.db.errMsg⟩] := by
      simp [execLog, exec, execInternal, hk]
    have hne : execLog g h sql env ≠ [] := by simp [hl]
    rw [Tells, log, forall_prop_of_true hne]
    apply tells_last hl (by simp) rfl
    intro hnf
    rw [answer_failed, not_not] at hnf
    have he : (next p g h (.exec sql env)).db.errMsg = msgOk := by
      simpa [next, exec, execInternal, hk] using sqlite3Exec_ok hnf
    exact he ▸ silent_ok

theorem bindArgs_null (env : QueryEnv) (i : ℕ) (args : List Bytes) (c : Connection σ) :
    bindArgs env none i args c = c ∧
      ((∀ q ∈ bindArgsLog env none i args c, ¬q.Failed) ↔ args = []) := by
  cases args with
  | nil => simp [bindArgs, bindArgsLog]
  | cons str args =>
    constructor
    · induction args generalizing i str with
      | nil => rfl
      | cons str' args ih => exact ih (i + 1) str'
    · simp only [bindArgsLog, List.mem_cons, forall_eq_or_imp, reduceCtorEq, iff_false, not_and]
      exact fun hn => absurd (.of_rc (f := misuse) rfl) hn

theorem sqlite3Bind_errMsg (c : Connection σ) (j i : ℕ) (v : BindCall) (a : Answer) :
    (sqlite3Bind c (some j) i v a).2.errMsg = (c.report a).errMsg ∧
      (sqlite3Bind c (some j) i v a).1 = a := by
  cases a <;> exact ⟨rfl, rfl⟩

/-- The message is the last bind call's. -/
theorem bindArgs_errMsg (env : QueryEnv) (j i : ℕ) (args : List Bytes) (c : Connection σ) :
    (bindArgs env (some j) i args c).errMsg =
      match (argCalls i args).getLast? with
      | none => c.errMsg
      | some q => (c.report (env.bind q.1 q.2)).errMsg := by
  induction args generalizing i c with
  | nil => rfl
  | cons str args ih =>
    rw [bindArgs, ih, argCalls]
    cases args with
    | nil => exact (sqlite3Bind_errMsg c j _ _ _).1
    | cons str' args => rw [argCalls, List.getLast?_cons_cons]; rfl

theorem bindArgsLog_failed (env : QueryEnv) (j i : ℕ) (args : List Bytes) (c : Connection σ) :
    (∀ q ∈ bindArgsLog env (some j) i args c, ¬q.Failed) ↔
      ∀ q ∈ argCalls i args, env.bind q.1 q.2 = none := by
  induction args generalizing i c with
  | nil => simp [bindArgsLog, argCalls]
  | cons str args ih =>
    rw [bindArgsLog, argCalls, List.forall_mem_cons, List.forall_mem_cons, ih, bindLog,
      answer_failed, (sqlite3Bind_errMsg c j _ _ _).2, not_not]

theorem prepareLog_failed (c : Connection σ) (sql : Bytes) (writes counts : Bool) (a : Answer) :
    (prepareLog c sql writes counts a).Failed ↔ a ≠ none := by
  have h1 : (sqlite3PrepareV2 c sql writes counts a).1 = a := by
    unfold sqlite3PrepareV2
    split <;> rfl
  rw [prepareLog, answer_failed, h1]

/-- Of several answers the last one decides the message, and it may hide the others. -/
theorem last_tells (calls : List (ℕ × BindCall)) (bind : ℕ → BindCall → Answer)
    {c : Connection σ} (hc : c.errMsg = msgOk) :
    ((Silent (match calls.getLast? with
        | none => c.errMsg
        | some q => (c.report (bind q.1 q.2)).errMsg) ↔ ∀ q ∈ calls, bind q.1 q.2 = none) ↔
      (∀ q ∈ calls, bind q.1 q.2 = none) ∨
        ∃ q ∈ calls.getLast?, ∃ f ∈ bind q.1 q.2, ¬Silent f.msg) := by
  cases hl : calls.getLast? with
  | none =>
    have hn : calls = [] := List.getLast?_eq_none_iff.mp hl
    simp [hn, hc, silent_ok]
  | some q =>
    have hq : q ∈ calls := List.mem_of_getLast? hl
    by_cases hall : ∀ q ∈ calls, bind q.1 q.2 = none
    · have hm : (c.report (bind q.1 q.2)).errMsg = msgOk := by rw [hall q hq]; rfl
      simp only [hm]
      exact iff_of_true (iff_of_true silent_ok hall) (.inl hall)
    · simp only [hall, iff_false, false_or]
      cases hb : bind q.1 q.2 with
      | none => simp [report, silent_ok, hb]
      | some f => simp [report, hb]

theorem query_tells (h : Impl σ) (sql : Bytes) (args : List Bytes) (env : QueryEnv) :
    Tells p g h (.query sql args env) ↔ QueryTells sql args env := by
  have hne : queryLog h sql args env ≠ [] := by simp [queryLog]
  rw [Tells, log, forall_prop_of_true hne, getError_eq_nil, next]
  unfold queryLog query QueryTells
  rw [List.forall_mem_cons, prepareLog_failed]
  cases hp : env.prepare sql with
  | some f => simp [sqlite3PrepareV2, bindArgs_null, report]
  | none =>
    cases hb : isBlank sql with
    | true => simp [sqlite3PrepareV2, hb, bindArgs_null, report, silent_ok]
    | false =>
      simp only [sqlite3PrepareV2, hb, and_self, if_true, bindArgs_errMsg, bindArgsLog_failed,
        ne_eq, not_true_eq_false, not_false_eq_true, true_and, Bool.false_eq_true, if_false]
      exact last_tells (argCalls 0 args) env.bind rfl

theorem tells_step (h : Impl σ) (op : Operation σ) : Tells p g h op ↔ TellsWhen p g h op := by
  cases op with
  | insert c => exact insert_tells p g h c
  | exec sql env => exact exec_tells p g h sql env
  | query sql args env => exact query_tells p g h sql args env
  | transaction c => simp [Tells, TellsWhen, log]

/-- In every history `getError` is right about each operation exactly when a failing call
leaves a telling text and no later call of the operation writes over it. -/
theorem tells_iff (h : Impl σ) (ops : List (Operation σ)) :
    AllSteps (next p g) (Tells p g) h ops ↔ AllSteps (next p g) (TellsWhen p g) h ops :=
  allSteps_congr (I := fun _ => True) (fun _ _ _ => trivial) (fun h op _ => tells_step p g h op)
    trivial

/-- The first argument is refused, the second one is bound. -/
def firstRefused : List (Operation (List ℕ)) :=
  [.query (ascii "SELECT ?,?") [ascii "a", ascii "b"] ⟨fun _ => none, false, false, fun i _ =>
    if i = 1 then some stringTooBig else none⟩]

theorem firstRefused_silent : ¬AllSteps (next .noConversion .controlOnly)
    (Tells .noConversion .controlOnly) (Impl.opened []) firstRefused := by
  rintro ⟨h, -⟩
  exact absurd (h (by decide)) (by decide)

end ErrorText
