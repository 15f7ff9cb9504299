import MadSqlite.HandleCalls

/-! # The SQLite calls of an operation

What `insert`, `exec` and `query` call in SQLite, in order: what each call answers and the
message it leaves on the connection. A bind to a null statement reaches no connection and
leaves none. -/
namespace SqliteCalls

open CppStrings ContentValues SqliteCommands HandleTable SqliteConnection
open SqliteConnection.Connection SqliteExec MadDatabase HandleCalls

variable {σ : Type*} (p : Platform) (g : Grammar)

inductive Function where
  | prepareV2 | bind | step | exec
  deriving DecidableEq, Repr

structure SqliteCall where
  function : Function
  rc : ResultCode
  msg : Option Bytes
  deriving DecidableEq

def SqliteCall.Failed (q : SqliteCall) : Prop :=
  q.rc ≠ SQLITE_OK ∧ q.rc ≠ SQLITE_ROW ∧ q.rc ≠ SQLITE_DONE

instance (q : SqliteCall) : Decidable q.Failed :=
  inferInstanceAs (Decidable (_ ∧ _))

def prepareLog (c : Connection σ) (sql : Bytes) (writes counts : Bool) (a : Answer) :
    SqliteCall :=
  let (r, _, d) := sqlite3PrepareV2 c sql writes counts a
  ⟨.prepareV2, r.rc, some d.errMsg⟩

def bindLog (c : Connection σ) (stmt : Option ℕ) (i : ℕ) (v : BindCall) (a : Answer) :
    SqliteCall :=
  let (r, d) := sqlite3Bind c stmt i v a
  ⟨.bind, r.rc, stmt.map fun _ => d.errMsg⟩

def stepLog (c : Connection σ) (stmt : Option ℕ) (p : Stmt → Progress σ) : SqliteCall :=
  let (rc, d) := sqlite3Step c stmt p
  ⟨.step, rc, stmt.map fun _ => d.errMsg⟩

/-- The calls of the bind loop, up to the first one that fails. -/
def bindLoopLog (env : InsertEnv σ) (cv : ContentValues.Impl) (stmt : Option ℕ) :
    ℕ → List Bytes → Connection σ → List SqliteCall
  | _, [], _ => []
  | i, key :: keys, c =>
    match bindCall p cv key with
    | .error _ => []
    | .ok none => bindLoopLog env cv stmt (i + 1) keys c
    | .ok (some v) =>
      bindLog c stmt (i + 1) v (env.bind (i + 1) v) ::
        match sqlite3Bind c stmt (i + 1) v (env.bind (i + 1) v) with
        | (none, d) => bindLoopLog env cv stmt (i + 1) keys d
        | (some _, _) => []

def insertLog (h : Impl σ) (c : InsertCall σ) : List SqliteCall :=
  let cv := c.values.impl
  if isEmpty cv then []
  else
    let ks := keys c.env.order cv
    let sql := insertSql c.table ks
    prepareLog h.db sql true true (c.env.prepare sql) ::
      match sqlite3PrepareV2 h.db sql true true (c.env.prepare sql) with
      | (some _, _, _) => []
      | (none, stmt, d) =>
        bindLoopLog p c.env cv stmt 0 ks d ++
          match bindLoop p c.env cv stmt 0 ks d with
          | .ok (true, e) => [stepLog e stmt c.env.step]
          | _ => []

def execLog (h : Impl σ) (sql : Bytes) (env : ExecEnv σ) : List SqliteCall :=
  if upperCaseString sql ∈ transactionKeyWords then []
  else
    let (a, d) := sqlite3Exec g h.db sql env
    [⟨.exec, a.rc, some d.errMsg⟩]

/-- The loop of `query` goes on after a failed bind. -/
def bindArgsLog (env : QueryEnv) (stmt : Option ℕ) :
    ℕ → List Bytes → Connection σ → List SqliteCall
  | _, [], _ => []
  | i, str :: args, c =>
    let v := BindCall.text str (toInt str.length)
    bindLog c stmt (i + 1) v (env.bind (i + 1) v) ::
      bindArgsLog env stmt (i + 1) args (sqlite3Bind c stmt (i + 1) v (env.bind (i + 1) v)).2

def queryLog (h : Impl σ) (sql : Bytes) (args : List Bytes) (env : QueryEnv) : List SqliteCall :=
  let (_, stmt, c) := sqlite3PrepareV2 h.db sql env.writes env.counts (env.prepare sql)
  prepareLog h.db sql env.writes env.counts (env.prepare sql) :: bindArgsLog env stmt 0 args c

@[simp] theorem answer_failed (fn : Function) (a : Answer) (m : Option Bytes) :
    (⟨fn, a.rc, m⟩ : SqliteCall).Failed ↔ a ≠ none := by
  cases a with
  | none => simp [SqliteCall.Failed]
  | some f => simpa only [SqliteCall.Failed, Answer.rc, ne_eq, reduceCtorEq, not_false_eq_true,
      iff_true] using f.failed

theorem SqliteCall.Failed.of_rc {q : SqliteCall} {f : Failure} (h : q.rc = f.rc) : q.Failed := by
  rw [SqliteCall.Failed, h]
  exact f.failed

/-- A step is done, or its code is an error. -/
theorem sqlite3Step_result (c : Connection σ) (stmt : Option ℕ) (p : Stmt → Progress σ) :
    ((sqlite3Step c stmt p).1 = SQLITE_DONE ∧ (sqlite3Step c stmt p).2.errMsg = msgUnknown) ∨
      ∃ f : Failure, (sqlite3Step c stmt p).1 = f.rc := by
  unfold sqlite3Step
  split
  · exact .inr ⟨misuse, rfl⟩
  · next i s hs =>
    split
    · next f hp => exact .inr ⟨f, rfl⟩
    · next msg hp => exact .inr ⟨busy msg, rfl⟩
    · next r hp =>
      dsimp only
      generalize sqlite3VdbeHalt _ _ s r.toHalt = q
      obtain ⟨a, halted, d⟩ := q
      cases a with
      | none => exact .inl ⟨rfl, rfl⟩
      | some f => exact .inr ⟨f, rfl⟩

theorem bindLoopLog_succeeds {cv : ContentValues.Impl} (h : WellFormed cv) (env : InsertEnv σ)
    (j : ℕ) {i : ℕ} {ks : List Bytes} (c : Connection σ) (hk : ∀ k ∈ ks, k ∈ cv._keys)
    (hb : ∀ q ∈ bindCalls cv i ks, env.bind q.1 q.2 = none) :
    ∀ o ∈ bindLoopLog p env cv (some j) i ks c, o.rc = SQLITE_OK ∧ o.function = .bind := by
  induction ks generalizing i c with
  | nil => simp [bindLoopLog]
  | cons key ks ih =>
    have hks : ∀ k ∈ ks, k ∈ cv._keys := fun k hm => hk k (List.mem_cons_of_mem key hm)
    have hv := bindCall_eq p h (hk key List.mem_cons_self)
    cases hc : valueBindCall cv key with
    | none =>
      simp only [bindCalls, hc] at hb
      simp only [bindLoopLog, hv, hc]
      exact ih c hks hb
    | some v =>
      simp only [bindCalls, hc, List.mem_cons, forall_eq_or_imp] at hb
      simp only [bindLoopLog, hv, hc, hb.1, List.mem_cons, forall_eq_or_imp]
      exact ⟨⟨rfl, rfl⟩, ih _ hks hb.2⟩

theorem bindLoopLog_fails {cv : ContentValues.Impl} (h : WellFormed cv) (env : InsertEnv σ)
    (j : ℕ) {i : ℕ} {ks : List Bytes} (c : Connection σ) (hk : ∀ k ∈ ks, k ∈ cv._keys)
    (hb : ¬∀ q ∈ bindCalls cv i ks, env.bind q.1 q.2 = none) :
    ∃ oks q d, bindLoopLog p env cv (some j) i ks c = oks ++ [q] ∧
      (∀ o ∈ oks, o.rc = SQLITE_OK ∧ o.function = .bind) ∧ q.function = .bind ∧ q.Failed ∧
      q.msg = some d.errMsg ∧ bindLoop p env cv (some j) i ks c = .ok (false, d) := by
  induction ks generalizing i c with
  | nil => exact absurd (by simp [bindCalls]) hb
  | cons key ks ih =>
    have hks : ∀ k ∈ ks, k ∈ cv._keys := fun k hm => hk k (List.mem_cons_of_mem key hm)
    have hv := bindCall_eq p h (hk key List.mem_cons_self)
    cases hc : valueBindCall cv key with
    | none =>
      simp only [bindCalls, hc] at hb
      simp only [bindLoopLog, bindLoop, hv, hc]
      exact ih c hks hb
    | some v =>
      simp only [bindLoopLog, bindLoop, hv, hc]
      cases ha : env.bind (i + 1) v with
      | some f =>
        refine ⟨[], _, c.report (some f), rfl, by simp, rfl, ?_, rfl, rfl⟩
        exact .of_rc (f := f) rfl
      | none =>
        simp only [bindCalls, hc, List.mem_cons, forall_eq_or_imp, ha, true_and] at hb
        obtain ⟨oks, q, d, hl, ho, hq⟩ := ih _ hks hb
        refine ⟨_ :: oks, q, d, congrArg (bindLog c (some j) (i + 1) v none :: ·) hl, ?_, hq⟩
        simpa only [List.mem_cons, forall_eq_or_imp] using ⟨⟨rfl, rfl⟩, ho⟩

/-- The call an insert ends with, and the result it has then. -/
inductive LastCall (c : InsertCall σ) : SqliteCall → Bool → Prop where
  | prepare {q} : ¬Prepared c → q.function = .prepareV2 → q.Failed → LastCall c q false
  | bind {q} : Prepared c → ¬BindsSucceed c.values.impl c.env → q.function = .bind → q.Failed →
      LastCall c q true
  | done {q} : Prepared c → BindsSucceed c.values.impl c.env → q.function = .step →
      q.rc = SQLITE_DONE → q.msg = some msgUnknown → LastCall c q true
  | step {q} : Prepared c → BindsSucceed c.values.impl c.env → q.function = .step → q.Failed →
      LastCall c q false

theorem insertLog_last (h : Impl σ) {c : InsertCall σ} (he : isEmpty c.values.impl = false) :
    ∃ oks q, insertLog p h c = oks ++ [q] ∧
      (∀ o ∈ oks, o.rc = SQLITE_OK ∧ o.function ≠ .step) ∧
      q.msg = some (insertValues p h c).2.db.errMsg ∧ LastCall c q (insertValues p h c).1 := by
  have hs := insertValues_spec p h c
  have hw := c.values.wellFormed
  have hk : ∀ k ∈ keys c.env.order c.values.impl, k ∈ c.values.impl._keys :=
    fun k hm => mem_keys.mp hm
  cases hp : insertPrepare c.table c.values.impl c.env with
  | some f =>
    rw [insert_notPrepared p h c.table he hp] at hs
    rw [← Except.ok.inj hs]
    have hn : ¬Prepared c := fun hr => by simp [hr.2] at hp
    unfold insertPrepare at hp
    refine ⟨[], ⟨.prepareV2, f.rc, some f.msg⟩, ?_, by simp, rfl, .prepare hn rfl f.failed⟩
    simp [insertLog, he, prepareLog, sqlite3PrepareV2, hp, report, Answer.rc]
  | none =>
    have hr : Prepared c := ⟨he, hp⟩
    have hprep := prepare_insert h c.table hp
    set ks := keys c.env.order c.values.impl with hks
    set d := withStmt h.db { insertStmt c.table c.values.impl c.env with bound := [] }
    have hlog : insertLog p h c = prepareLog h.db (insertSql c.table ks) true true none ::
        (bindLoopLog p c.env c.values.impl (some h.db.stmts.next) 0 ks d ++
          match bindLoop p c.env c.values.impl (some h.db.stmts.next) 0 ks d with
          | .ok (true, e) => [stepLog e (some h.db.stmts.next) c.env.step]
          | _ => []) := by
      simp only [insertLog, he, Bool.false_eq_true, if_false, ← hks, hprep]
      unfold insertPrepare at hp
      rw [hp]
    have hfirst : (prepareLog h.db (insertSql c.table ks) true true none).rc = SQLITE_OK ∧
        (prepareLog h.db (insertSql c.table ks) true true none).function ≠ .step := by
      simp [prepareLog, sqlite3PrepareV2, insertSql_not_blank]
    by_cases hb : BindsSucceed c.values.impl c.env
    · have hloop := bindLoop_succeeds p hw c.env h.db
        { insertStmt c.table c.values.impl c.env with bound := [] } hk hb
      have hoks := bindLoopLog_succeeds p hw c.env h.db.stmts.next d hk hb
      have hins := insert_stepped p h c.table hw he hp hb
      rw [hs] at hins
      simp only [List.append_nil] at hloop
      rw [Except.ok.inj hins, hlog, hloop]
      refine ⟨_ :: bindLoopLog p c.env c.values.impl (some h.db.stmts.next) 0 ks d, _, rfl, ?_,
        rfl, ?_⟩
      · rw [List.forall_mem_cons]
        exact ⟨hfirst, fun o ho => ⟨(hoks o ho).1, by simp [(hoks o ho).2]⟩⟩
      · rcases sqlite3Step_result (withStmt h.db (insertStmt c.table c.values.impl c.env))
          (some h.db.stmts.next) c.env.step with ⟨hd, hm⟩ | ⟨f, hf⟩
        · rw [hd, decide_eq_true rfl]
          exact .done hr hb rfl hd (congrArg some hm)
        · rw [hf, decide_eq_false f.failed.2.2]
          exact .step hr hb rfl (.of_rc hf)
    · obtain ⟨oks, q, e, hl, ho, hq, hqf, hm, hloop⟩ :=
        bindLoopLog_fails p hw c.env h.db.stmts.next d hk hb
      have hins : MadDatabase.insert p h c.table c.values.impl c.env =
          .ok (true, { h with db := e }) := by
        simp only [MadDatabase.insert, he, Bool.false_eq_true, if_false, ← hks, hprep, hloop]
      rw [hs] at hins
      rw [Except.ok.inj hins, hlog, hl, hloop]
      refine ⟨_ :: oks, q, by rw [List.append_nil]; rfl, ?_, hm, .bind hr hb hq hqf⟩
      rw [List.forall_mem_cons]
      exact ⟨hfirst, fun o hm => ⟨(ho o hm).1, by simp [(ho o hm).2]⟩⟩

end SqliteCalls
