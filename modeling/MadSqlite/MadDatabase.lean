import MadSqlite.SqliteExec

/-! # The database handle

`MadDatabase::Impl` over one connection. Each call gets what SQLite answers in it as an
argument; the log lines it prints have no effect and are left out. -/
namespace MadDatabase

open CppStrings ContentValues SqliteTokens SqliteCommands HandleTable TransactionalStore
open SqliteConnection SqliteConnection.Connection SqliteExec

variable {σ : Type*}

structure Impl (σ : Type*) where
  db : Connection σ
  isInTransaction : Bool

def Impl.opened (content : σ) : Impl σ := ⟨.opened content, false⟩

/-- What `sqlite3_open` makes of a file: its content, the answer, and whether it creates
the file when there is none. -/
structure OpenEnv (σ : Type*) where
  content : σ
  answer : Answer
  creates : Bool

def Impl.new (env : OpenEnv σ) : Impl σ :=
  ⟨(Connection.opened env.content).report env.answer, false⟩

structure Platform where
  lib : FloatLibrary
  build : Build

def Platform.noConversion : Platform :=
  ⟨⟨fun _ => .ok 0, fun _ => .ok 0, fun _ => 0, fun _ => 0, fun _ => [], fun _ => [],
    fun _ => .ok 0, fun _ => none⟩, .other⟩

/-- The destructor closes the connection and drops what `sqlite3_close` answers. -/
def destructor (h : Impl σ) : Remains σ := (sqlite3Close h.db).2

def getError (h : Impl σ) : Bytes :=
  if cStr h.db.errMsg = msgOk ∨ cStr h.db.errMsg = msgUnknown then [] else cStr h.db.errMsg

def execInternal (g : Grammar) (h : Impl σ) (sql : Bytes) (env : ExecEnv σ) : ℤ × Impl σ :=
  let (_, c) := sqlite3Exec g h.db sql env
  (c.nChange, { h with db := c })

def transactionKeyWords : List Bytes := [ascii "BEGIN", ascii "COMMIT", ascii "ROLLBACK"]

def exec (g : Grammar) (h : Impl σ) (sql : Bytes) (env : ExecEnv σ) : ℤ × Impl σ :=
  if upperCaseString sql ∈ transactionKeyWords then (0, h) else execInternal g h sql env

def beginTransaction (g : Grammar) (h : Impl σ) (env : ExecEnv σ) : Impl σ :=
  if h.isInTransaction = false then
    { (execInternal g h (ascii "BEGIN") env).2 with isInTransaction := true }
  else h

def rollbackTransaction (g : Grammar) (h : Impl σ) (env : ExecEnv σ) : Impl σ :=
  if h.isInTransaction then
    { (execInternal g h (ascii "ROLLBACK") env).2 with isInTransaction := false }
  else h

def commitTransaction (g : Grammar) (h : Impl σ) (env : ExecEnv σ) : Impl σ :=
  if h.isInTransaction then
    { (execInternal g h (ascii "COMMIT") env).2 with isInTransaction := false }
  else h

def appendKey (back : Bytes) (s : Bytes × Bytes) (key : Bytes) : Bytes × Bytes :=
  let sql := s.1 ++ (ascii "[" ++ key ++ ascii "] ")
  if key = back then (sql ++ ascii ")", s.2 ++ ascii "?);")
  else (sql ++ ascii ",", s.2 ++ ascii "?,")

def insertSql (table : Bytes) (keys : List Bytes) : Bytes :=
  let s := keys.foldl (appendKey (keys.getLast?.getD []))
    (ascii "INSERT INTO [" ++ table ++ ascii "] (", ascii " VALUES (")
  s.1 ++ s.2

def toInt (n : ℕ) : Int32 := Int32.ofNat n

def bindCall (p : Platform) (cv : ContentValues.Impl) (key : Bytes) :
    Except CppError (Option BindCall) := do
  match ← typeForKey cv key with
  | .none => return none
  | .int => return some (.int64 (← getAsInteger p.lib p.build cv key))
  | .real => return some (.double (← getAsReal p.lib p.build cv key))
  | .text =>
    let text ← getAsText p.lib p.build cv key
    return some (.text text (toInt text.length))
  | .blob =>
    let vector ← getAsBlob cv key
    return some (.blob (if vector = [] then none else some vector) (toInt vector.length))

structure InsertEnv (σ : Type*) where
  order : HashOrder
  prepare : Bytes → Answer
  bind : ℕ → BindCall → Answer
  step : Stmt → Progress σ

/-- The bind loop from position `i` on, and whether it got to the end. -/
def bindLoop (p : Platform) (env : InsertEnv σ) (cv : ContentValues.Impl) (stmt : Option ℕ) :
    ℕ → List Bytes → Connection σ → Except CppError (Bool × Connection σ)
  | _, [], c => .ok (true, c)
  | i, key :: keys, c =>
    match bindCall p cv key with
    | .error e => .error e
    | .ok none => bindLoop p env cv stmt (i + 1) keys c
    | .ok (some v) =>
      match sqlite3Bind c stmt (i + 1) v (env.bind (i + 1) v) with
      | (none, d) => bindLoop p env cv stmt (i + 1) keys d
      | (some _, d) => .ok (false, d)

def insert (p : Platform) (h : Impl σ) (table : Bytes) (cv : ContentValues.Impl)
    (env : InsertEnv σ) : Except CppError (Bool × Impl σ) :=
  if isEmpty cv then .ok (false, h)
  else
    let ks := keys env.order cv
    let sql := insertSql table ks
    match sqlite3PrepareV2 h.db sql true true (env.prepare sql) with
    | (some _, _, c) => .ok (false, { h with db := c })
    | (none, stmt, c) =>
      match bindLoop p env cv stmt 0 ks c with
      | .error e => .error e
      -- The source returns -1, which is true as a bool.
      | .ok (false, d) => .ok (true, { h with db := d })
      | .ok (true, d) =>
        let (rc, e) := sqlite3Step d stmt env.step
        .ok (rc = SQLITE_DONE, { h with db := e })

structure QueryEnv where
  prepare : Bytes → Answer
  writes : Bool
  counts : Bool
  bind : ℕ → BindCall → Answer

def bindArgs (env : QueryEnv) (stmt : Option ℕ) :
    ℕ → List Bytes → Connection σ → Connection σ
  | _, [], c => c
  | i, str :: args, c =>
    let v := BindCall.text str (toInt str.length)
    bindArgs env stmt (i + 1) args (sqlite3Bind c stmt (i + 1) v (env.bind (i + 1) v)).2

/-- The statement of the new cursor, null when it could not be prepared. -/
def query (h : Impl σ) (sql : Bytes) (args : List Bytes) (env : QueryEnv) :
    Option ℕ × Impl σ :=
  let (_, stmt, c) := sqlite3PrepareV2 h.db sql env.writes env.counts (env.prepare sql)
  (stmt, { h with db := bindArgs env stmt 0 args c })

theorem bindArgs_ids (env : QueryEnv) (stmt : Option ℕ) (i : ℕ) (args : List Bytes)
    (c : Connection σ) : (bindArgs env stmt i args c).stmts.ids = c.stmts.ids := by
  induction args generalizing i c with
  | nil => rfl
  | cons str args ih =>
    rw [bindArgs, ih]
    cases stmt with
    | none => rfl
    | some j =>
      cases env.bind (i + 1) (.text str (toInt str.length)) with
      | none => exact Table.ids_update _ _ _
      | some f => rfl

theorem query_ids (h : Impl σ) (sql : Bytes) (args : List Bytes) (env : QueryEnv) :
    (query h sql args env).2.db.stmts.ids =
        h.db.stmts.ids ++ (query h sql args env).1.toList ∧
      ∀ j ∈ (query h sql args env).1, j = h.db.stmts.next := by
  simp only [query, bindArgs_ids, sqlite3PrepareV2]
  split
  · exact ⟨Table.ids_add _ _, by simp⟩
  · exact ⟨by simp [report], by simp⟩

def dataBindCall (d : Data) : Option BindCall :=
  match d.dataType with
  | .none => none
  | .int => some (.int64 d.dataInt)
  | .real => some (.double d.dataReal)
  | .text => some (.text d.dataText (toInt d.dataText.length))
  | .blob =>
    some (.blob (if d.dataBlob = [] then none else some d.dataBlob) (toInt d.dataBlob.length))

def valueBindCall (cv : ContentValues.Impl) (key : Bytes) : Option BindCall :=
  match getData cv key with
  | .ok d => dataBindCall d
  | .error _ => none

/-- Reading a value by its own type neither converts nor throws, whatever the build. -/
theorem bindCall_eq (p : Platform) {cv : ContentValues.Impl} (h : WellFormed cv) {key : Bytes}
    (hk : key ∈ cv._keys) : bindCall p cv key = .ok (valueBindCall cv key) := by
  obtain ⟨i, d, -, -, hd⟩ := getData_ok h hk
  have hc : containsKey cv key = true := by simpa [containsKey] using hk
  have ht : typeForKey cv key = .ok d.dataType := by simp [typeForKey, hc, hd, Except.map]
  unfold bindCall
  rw [ht]
  cases hty : d.dataType <;>
    simp [valueBindCall, dataBindCall, getAsInteger, getAsReal, getAsText, getAsBlob, hc, hd, hty,
      bind, Except.bind, pure, Except.pure, Except.map]

def bindCalls (cv : ContentValues.Impl) : ℕ → List Bytes → List (ℕ × BindCall)
  | _, [] => []
  | i, key :: keys =>
    match valueBindCall cv key with
    | none => bindCalls cv (i + 1) keys
    | some v => (i + 1, v) :: bindCalls cv (i + 1) keys

def BindsSucceed (cv : ContentValues.Impl) (env : InsertEnv σ) : Prop :=
  ∀ q ∈ bindCalls cv 0 (keys env.order cv), env.bind q.1 q.2 = none

instance (cv : ContentValues.Impl) (env : InsertEnv σ) : Decidable (BindsSucceed cv env) := by
  unfold BindsSucceed; infer_instance

theorem sqlite3Bind_withStmt (c : Connection σ) (s : Stmt) (i : ℕ) (v : BindCall) :
    sqlite3Bind (withStmt c s) (some c.stmts.next) i v none =
      (none, withStmt c { s with bound := (i, v) :: s.bound }) := by
  simp only [sqlite3Bind, update_withStmt]
  rfl

theorem bindLoop_succeeds (p : Platform) {cv : ContentValues.Impl} (h : WellFormed cv)
    (env : InsertEnv σ) (c : Connection σ) (s : Stmt) {i : ℕ} {ks : List Bytes}
    (hk : ∀ k ∈ ks, k ∈ cv._keys) (hb : ∀ q ∈ bindCalls cv i ks, env.bind q.1 q.2 = none) :
    bindLoop p env cv (some c.stmts.next) i ks (withStmt c s) =
      .ok (true, withStmt c { s with bound := (bindCalls cv i ks).reverse ++ s.bound }) := by
  induction ks generalizing i s with
  | nil => rfl
  | cons key ks ih =>
    have hks : ∀ k ∈ ks, k ∈ cv._keys := fun k hm => hk k (List.mem_cons_of_mem key hm)
    have hv := bindCall_eq p h (hk key List.mem_cons_self)
    cases hc : valueBindCall cv key with
    | none =>
      simp only [bindCalls, hc] at hb ⊢
      simp only [bindLoop, hv, hc]
      exact ih s hks hb
    | some v =>
      simp only [bindCalls, hc, List.mem_cons, forall_eq_or_imp] at hb ⊢
      simp only [bindLoop, hv, hc, hb.1, sqlite3Bind_withStmt]
      rw [ih _ hks hb.2]
      simp

/-- The calls before the first one that is refused. -/
def acceptedCalls (bind : ℕ → BindCall → Answer) (qs : List (ℕ × BindCall)) :
    List (ℕ × BindCall) :=
  qs.takeWhile fun q => bind q.1 q.2 = none

/-- The first answer that is a refusal. -/
def refusal (bind : ℕ → BindCall → Answer) (qs : List (ℕ × BindCall)) : Answer :=
  qs.findSome? fun q => bind q.1 q.2

theorem refusal_eq_none {bind : ℕ → BindCall → Answer} {qs : List (ℕ × BindCall)} :
    refusal bind qs = none ↔ ∀ q ∈ qs, bind q.1 q.2 = none :=
  List.findSome?_eq_none_iff

theorem acceptedCalls_all {bind : ℕ → BindCall → Answer} {qs : List (ℕ × BindCall)}
    (h : ∀ q ∈ qs, bind q.1 q.2 = none) : acceptedCalls bind qs = qs :=
  List.takeWhile_eq_self_iff.mpr fun q hq => decide_eq_true (h q hq)

theorem bindLoop_fails (p : Platform) {cv : ContentValues.Impl} (h : WellFormed cv)
    (env : InsertEnv σ) (c : Connection σ) (s : Stmt) {i : ℕ} {ks : List Bytes}
    (hk : ∀ k ∈ ks, k ∈ cv._keys) {f : Failure}
    (hf : refusal env.bind (bindCalls cv i ks) = some f) :
    bindLoop p env cv (some c.stmts.next) i ks (withStmt c s) = .ok (false, (withStmt c { s with
      bound := (acceptedCalls env.bind (bindCalls cv i ks)).reverse ++ s.bound }).report
        (some f)) := by
  induction ks generalizing i s with
  | nil => cases hf
  | cons key ks ih =>
    have hks : ∀ k ∈ ks, k ∈ cv._keys := fun k hm => hk k (List.mem_cons_of_mem key hm)
    have hv := bindCall_eq p h (hk key List.mem_cons_self)
    cases hc : valueBindCall cv key with
    | none =>
      simp only [bindCalls, hc] at hf ⊢
      simp only [bindLoop, hv, hc]
      exact ih s hks hf
    | some v =>
      simp only [bindCalls, hc, refusal, List.findSome?_cons] at hf
      simp only [bindLoop, bindCalls, hv, hc, acceptedCalls, List.takeWhile_cons]
      cases ha : env.bind (i + 1) v with
      | some f' =>
        rw [ha] at hf
        cases hf
        rfl
      | none =>
        rw [ha] at hf
        simp only [sqlite3Bind_withStmt, decide_true, if_true]
        rw [ih _ hks hf]
        simp [acceptedCalls]

theorem insertSql_prefix (table : Bytes) (ks : List Bytes) :
    ∃ rest, insertSql table ks = ascii "INSERT INTO [" ++ rest := by
  have hfold : ∀ (back : Bytes) (ks : List Bytes) (s : Bytes × Bytes),
      ∃ rest, (ks.foldl (appendKey back) s).1 = s.1 ++ rest := by
    intro back ks
    induction ks with
    | nil => exact fun s => ⟨[], by simp⟩
    | cons key ks ih =>
      intro s
      obtain ⟨rest, hr⟩ := ih (appendKey back s key)
      rw [List.foldl_cons, hr]
      unfold appendKey
      split <;> exact ⟨_, by simp only [List.append_assoc]; rfl⟩
  obtain ⟨rest, hr⟩ := hfold (ks.getLast?.getD []) ks
    (ascii "INSERT INTO [" ++ table ++ ascii "] (", ascii " VALUES (")
  have hs : insertSql table ks = (ascii "INSERT INTO [" ++ table ++ ascii "] (" ++ rest) ++ _ :=
    congrArg (· ++ _) hr
  exact ⟨_, by rw [hs]; simp only [List.append_assoc]; rfl⟩

/-- The first token is the word INSERT, so the text never prepares to a null statement. -/
theorem insertSql_not_blank (table : Bytes) (ks : List Bytes) :
    isBlank (insertSql table ks) = false := by
  obtain ⟨rest, hr⟩ := insertSql_prefix table ks
  have hc : cStr (ascii "INSERT INTO [" ++ rest) = ascii "INSERT INTO [" ++ cStr rest := rfl
  have hl : (ascii "INSERT INTO [" ++ cStr rest).length = 12 + (cStr rest).length + 1 := by
    rw [List.length_append]
    have h13 : (ascii "INSERT INTO [").length = 13 := rfl
    omega
  rw [hr, isBlank, hc, tokenize, hl]
  rfl

def insertStmt (table : Bytes) (cv : ContentValues.Impl) (env : InsertEnv σ) : Stmt :=
  ⟨insertSql table (keys env.order cv), (bindCalls cv 0 (keys env.order cv)).reverse,
    true, true, false⟩

def insertPrepare (table : Bytes) (cv : ContentValues.Impl) (env : InsertEnv σ) : Answer :=
  env.prepare (insertSql table (keys env.order cv))

def insertProgress (table : Bytes) (cv : ContentValues.Impl) (env : InsertEnv σ) : Progress σ :=
  env.step (insertStmt table cv env)

inductive InsertPath (h : Impl σ) (table : Bytes) (cv : ContentValues.Impl)
    (env : InsertEnv σ) : Bool × Impl σ → Prop where
  | empty : isEmpty cv = true → InsertPath h table cv env (false, h)
  | notPrepared {f} : isEmpty cv = false → insertPrepare table cv env = some f →
      InsertPath h table cv env (false, { h with db := h.db.report (some f) })
  | notBound {b f} : isEmpty cv = false → insertPrepare table cv env = none →
      ¬BindsSucceed cv env → InsertPath h table cv env
        (true, { h with
          db := (withStmt h.db { insertStmt table cv env with bound := b }).report (some f) })
  | notStarted {f} : isEmpty cv = false → insertPrepare table cv env = none →
      BindsSucceed cv env → insertProgress table cv env = .notStarted f →
      InsertPath h table cv env
        (false, { h with db := { withStmt h.db (insertStmt table cv env) with errMsg := f.msg } })
  | lockBusy {msg} : isEmpty cv = false → insertPrepare table cv env = none →
      BindsSucceed cv env → insertProgress table cv env = .lockBusy msg →
      InsertPath h table cv env (false, { h with
        db := { withStmt h.db (activate (insertStmt table cv env)) with errMsg := msg } })
  | ran {r a d n m} : isEmpty cv = false → insertPrepare table cv env = none →
      BindsSucceed cv env → insertProgress table cv env = .ran r →
      HaltEffect (withStmt h.db (insertStmt table cv env))
        (runProgram (withStmt h.db (insertStmt table cv env)) (insertStmt table cv env) r)
        r.toHalt a d →
      InsertPath h table cv env (a = none, { h with db := { d with nChange := n, errMsg := m } })

theorem insert_notPrepared (p : Platform) (h : Impl σ) (table : Bytes)
    {cv : ContentValues.Impl} {env : InsertEnv σ} (he : isEmpty cv = false) {f : Failure}
    (hp : insertPrepare table cv env = some f) :
    insert p h table cv env = .ok (false, { h with db := h.db.report (some f) }) := by
  unfold insertPrepare at hp
  simp [insert, he, sqlite3PrepareV2, hp]

theorem prepare_insert (h : Impl σ) (table : Bytes) {cv : ContentValues.Impl}
    {env : InsertEnv σ} (hp : insertPrepare table cv env = none) :
    sqlite3PrepareV2 h.db (insertSql table (keys env.order cv)) true true
        (env.prepare (insertSql table (keys env.order cv))) =
      (none, some h.db.stmts.next, withStmt h.db { insertStmt table cv env with bound := [] }) := by
  unfold insertPrepare at hp
  simp [sqlite3PrepareV2, hp, insertSql_not_blank, withStmt, report, insertStmt]

theorem insert_notBound (p : Platform) (h : Impl σ) (table : Bytes)
    {cv : ContentValues.Impl} {env : InsertEnv σ} (hw : WellFormed cv)
    (he : isEmpty cv = false) (hp : insertPrepare table cv env = none) {f : Failure}
    (hf : refusal env.bind (bindCalls cv 0 (keys env.order cv)) = some f) :
    insert p h table cv env = .ok (true, { h with
      db := (withStmt h.db { insertStmt table cv env with
        bound := (acceptedCalls env.bind (bindCalls cv 0 (keys env.order cv))).reverse }).report
          (some f) }) := by
  have hl := bindLoop_fails p hw env h.db { insertStmt table cv env with bound := [] }
    (fun k hk => mem_keys.mp hk) hf
  simp only [List.append_nil] at hl
  simp [insert, he, prepare_insert h table hp, hl]

theorem insert_stepped (p : Platform) (h : Impl σ) (table : Bytes)
    {cv : ContentValues.Impl} {env : InsertEnv σ} (hw : WellFormed cv)
    (he : isEmpty cv = false) (hp : insertPrepare table cv env = none)
    (hb : BindsSucceed cv env) :
    let r := sqlite3Step (withStmt h.db (insertStmt table cv env)) (some h.db.stmts.next) env.step
    insert p h table cv env = .ok (r.1 = SQLITE_DONE, { h with db := r.2 }) := by
  have hl := bindLoop_succeeds p hw env h.db { insertStmt table cv env with bound := [] }
    (fun k hk => mem_keys.mp hk) hb
  simp only [List.append_nil] at hl
  simp only [insert, he, prepare_insert h table hp, hl]
  rfl

theorem insert_path (p : Platform) (h : Impl σ) (table : Bytes) {cv : ContentValues.Impl}
    (hw : WellFormed cv) (env : InsertEnv σ) :
    ∃ r, insert p h table cv env = .ok r ∧ InsertPath h table cv env r := by
  by_cases he : isEmpty cv = true
  · exact ⟨_, by rw [insert, if_pos he], .empty he⟩
  · have he' : isEmpty cv = false := by simpa using he
    cases hp : insertPrepare table cv env with
    | some f => exact ⟨_, insert_notPrepared p h table he' hp, .notPrepared he' hp⟩
    | none =>
      by_cases hb : BindsSucceed cv env
      · have hi := insert_stepped p h table hw he' hp hb
        cases hs : insertProgress table cv env with
        | notStarted f =>
          rw [step_notStarted _ _ hs] at hi
          simp only [f.failed.2.2, decide_false] at hi
          exact ⟨_, hi, .notStarted he' hp hb hs⟩
        | lockBusy msg =>
          rw [step_lockBusy _ _ hs] at hi
          exact ⟨_, hi, .lockBusy he' hp hb hs⟩
        | ran r =>
          obtain ⟨a, d, n, m, hf, hr⟩ := step_ran h.db rfl rfl hs
          rw [hr] at hi
          simp only [stepCode_eq_done] at hi
          exact ⟨_, hi, .ran he' hp hb hs hf⟩
      · obtain ⟨f, hf⟩ := Option.ne_none_iff_exists'.mp (mt refusal_eq_none.mp hb)
        exact ⟨_, insert_notBound p h table hw he' hp hf, .notBound he' hp hb⟩

end MadDatabase
