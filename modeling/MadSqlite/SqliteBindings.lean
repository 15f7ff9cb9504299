import MadSqlite.ContentMap
import MadSqlite.SqliteCalls
import MadSqlite.SqliteValues

/-! # The bind calls of an operation

The bind calls of `insert` and `query` with their arguments and answers, in order, and what they
leave in the statement. The loop of an insert ends with the first one that fails, the loop of a
query goes on. -/
namespace SqliteBindings

open CppStrings ContentValues ContentMap SqliteCommands HandleTable SqliteConnection
open SqliteConnection.Connection SqliteExec MadDatabase HandleCalls SqliteCalls SqliteValues Runs

variable {σ : Type*} (p : Platform)

/-- An insert comes with the calls that have filled its container. -/
def insertCall (table : Bytes) (calls : List ContentMap.Call) (env : InsertEnv σ) :
    InsertCall σ :=
  ⟨table, run ContentMap.next .new calls, env⟩

def contents (calls : List ContentMap.Call) : Contents := run apply ∅ calls

theorem contents_agrees (calls : List ContentMap.Call) :
    Agrees (run ContentMap.next .new calls).impl (contents calls) :=
  run_agrees empty_agrees calls

def insertKeys (calls : List ContentMap.Call) (env : InsertEnv σ) : List Bytes :=
  keys env.order (run ContentMap.next .new calls).impl

/-- The value of a parameter; one that has not been bound is NULL. -/
def parameter (limit : LengthLimit) (s : Stmt) (i : ℕ) : SqlValue :=
  ((s.bound.lookup i).bind (bindValue limit)).getD .null

/-- The statement that an insert has made, as it leaves it in the connection. -/
def insertedStmt (h : MadDatabase.Impl σ) (c : InsertCall σ) : Option Stmt :=
  (insertValues p h c).2.db.stmts.find? h.db.stmts.next

/-- The statement of the cursor that a query returns. -/
def queriedStmt (h : MadDatabase.Impl σ) (sql : Bytes) (args : List Bytes) (env : QueryEnv) :
    Option Stmt :=
  (query h sql args env).1.bind fun i => (query h sql args env).2.db.stmts.find? i

structure Binding where
  parameter : ℕ
  value : BindCall
  answer : Answer

def Binding.call (b : Binding) : ℕ × BindCall := (b.parameter, b.value)

/-- What has got into the statement. -/
def accepted (bs : List Binding) : List (ℕ × BindCall) :=
  (bs.filter fun b => b.answer = none).map Binding.call

def bindLoopBindings (env : InsertEnv σ) (cv : ContentValues.Impl) (stmt : Option ℕ) :
    ℕ → List Bytes → Connection σ → List Binding
  | _, [], _ => []
  | i, key :: keys, c =>
    match bindCall p cv key with
    | .error _ => []
    | .ok none => bindLoopBindings env cv stmt (i + 1) keys c
    | .ok (some v) =>
      match sqlite3Bind c stmt (i + 1) v (env.bind (i + 1) v) with
      | (none, d) => ⟨i + 1, v, none⟩ :: bindLoopBindings env cv stmt (i + 1) keys d
      | (some f, _) => [⟨i + 1, v, some f⟩]

def insertBindings (h : MadDatabase.Impl σ) (c : InsertCall σ) : List Binding :=
  let cv := c.values.impl
  if isEmpty cv then []
  else
    let ks := keys c.env.order cv
    let sql := insertSql c.table ks
    match sqlite3PrepareV2 h.db sql true true (c.env.prepare sql) with
    | (some _, _, _) => []
    | (none, stmt, d) => bindLoopBindings p c.env cv stmt 0 ks d

def bindArgsBindings (env : QueryEnv) (stmt : Option ℕ) :
    ℕ → List Bytes → Connection σ → List Binding
  | _, [], _ => []
  | i, str :: args, c =>
    let v := BindCall.text str (toInt str.length)
    let r := sqlite3Bind c stmt (i + 1) v (env.bind (i + 1) v)
    ⟨i + 1, v, r.1⟩ :: bindArgsBindings env stmt (i + 1) args r.2

def queryBindings (h : MadDatabase.Impl σ) (sql : Bytes) (args : List Bytes) (env : QueryEnv) :
    List Binding :=
  let (_, stmt, c) := sqlite3PrepareV2 h.db sql env.writes env.counts (env.prepare sql)
  bindArgsBindings env stmt 0 args c

def argument (str : Bytes) : BindCall := .text str (toInt str.length)

def acceptedFrom (bind : ℕ → BindCall → Answer) : ℕ → List Bytes → List (ℕ × BindCall)
  | _, [] => []
  | i, str :: args =>
    if bind (i + 1) (argument str) = none then
      acceptedFrom bind (i + 1) args ++ [(i + 1, argument str)]
    else acceptedFrom bind (i + 1) args

/-- The bind calls are those of the log, with their codes. -/
theorem bindLoopLog_bindings (env : InsertEnv σ) (cv : ContentValues.Impl) (stmt : Option ℕ)
    (i : ℕ) (ks : List Bytes) (c : Connection σ) :
    (bindLoopLog p env cv stmt i ks c).map SqliteCall.rc =
      (bindLoopBindings p env cv stmt i ks c).map fun b => b.answer.rc := by
  induction ks generalizing i c with
  | nil => rfl
  | cons key ks ih =>
    unfold bindLoopLog bindLoopBindings
    cases bindCall p cv key with
    | error e => rfl
    | ok value =>
      cases value with
      | none => exact ih (i + 1) c
      | some v =>
        dsimp only
        generalize hb : sqlite3Bind c stmt (i + 1) v (env.bind (i + 1) v) = r
        obtain ⟨a, d⟩ := r
        cases a with
        | none => simpa [bindLog, hb] using ih (i + 1) d
        | some f => simp [bindLog, hb]

theorem bindArgsLog_bindings (env : QueryEnv) (stmt : Option ℕ) (i : ℕ) (args : List Bytes)
    (c : Connection σ) : (bindArgsLog env stmt i args c).map SqliteCall.rc =
      (bindArgsBindings env stmt i args c).map fun b => b.answer.rc := by
  induction args generalizing i c with
  | nil => rfl
  | cons str args ih =>
    rw [bindArgsLog, bindArgsBindings, List.map_cons, List.map_cons, ih]
    rfl

/-- A length below two gigabytes comes through the narrowing as it is. -/
theorem setStr_short (limit : LengthLimit) (enc : Encoding) {z : Bytes} (hz : z.length < 2 ^ 31) :
    sqlite3VdbeMemSetStr limit enc z (toInt z.length) =
      if limit.iLimit < z.length then none else some z := by
  have hn : (toInt z.length).toInt = z.length := Int32.toInt_ofNat_of_lt hz
  rw [setStr_of_nonneg (by omega), hn, Int.toNat_natCast, List.take_length]

/-- Where the call is accepted, exactly these lengths bind the whole text. -/
theorem setStr_whole_iff {limit : LengthLimit} {enc : Encoding} {z : Bytes}
    (h : sqlite3VdbeMemSetStr limit enc z (toInt z.length) ≠ none) :
    sqlite3VdbeMemSetStr limit enc z (toInt z.length) = some z ↔ z.length < 2 ^ 31 := by
  constructor
  · intro he
    exact (setStr_length he).trans_lt limit.lt
  · intro hz
    rw [setStr_short limit enc hz] at h ⊢
    split at h
    · exact absurd rfl h
    · next hl => exact if_neg hl

def upToFailure : List Binding → List Binding
  | [] => []
  | b :: bs => b :: if b.answer = none then upToFailure bs else []

/-- A value goes through the bind function of its own type. -/
def bindCallOf : Value → BindCall
  | .int v => .int64 v
  | .real v => .double v
  | .text z => .text z (toInt z.length)
  | .blob z => .blob (if z = [] then none else some z) (toInt z.length)

/-- The calls that bind these values to the parameters from `i + 1` on. -/
def numbered (bind : ℕ → BindCall → Answer) (i : ℕ) (vs : List BindCall) : List Binding :=
  (vs.zipIdx (i + 1)).map fun q => ⟨q.2, q.1, bind q.2 q.1⟩

theorem numbered_cons (bind : ℕ → BindCall → Answer) (i : ℕ) (v : BindCall)
    (vs : List BindCall) :
    numbered bind i (v :: vs) = ⟨i + 1, v, bind (i + 1) v⟩ :: numbered bind (i + 1) vs := rfl

theorem exists_getElem?_cons {α : Type*} {P : ℕ → α → Prop} (a : α) (l : List α) :
    (∃ j x, (a :: l)[j]? = some x ∧ P j x) ↔ P 0 a ∨ ∃ j x, l[j]? = some x ∧ P (j + 1) x := by
  rw [← Nat.or_exists_add_one]
  simp

theorem mem_numbered {bind : ℕ → BindCall → Answer} {i : ℕ} {vs : List BindCall} {b : Binding} :
    b ∈ numbered bind i vs ↔
      ∃ j v, vs[j]? = some v ∧ b = ⟨i + j + 1, v, bind (i + j + 1) v⟩ := by
  induction vs generalizing i with
  | nil => simp [numbered]
  | cons w vs ih =>
    have hshift (j : ℕ) : i + 1 + j + 1 = i + (j + 1) + 1 := by omega
    rw [numbered_cons, List.mem_cons, ih, exists_getElem?_cons]
    simp only [hshift, Nat.add_zero]

theorem dataBindCall_data (v : Value) : dataBindCall v.data = some (bindCallOf v) := by
  cases v <;> rfl

theorem valueBindCall_lookup {cv : ContentValues.Impl} {m : Contents} (h : Agrees cv m)
    {key : Bytes} {v : Value} (hv : m.lookup key = some v) :
    valueBindCall cv key = some (bindCallOf v) := by
  have hg := h.getData key
  rw [hv] at hg
  rw [valueBindCall, hg]
  exact dataBindCall_data v

theorem bindCall_lookup {cv : ContentValues.Impl} {m : Contents} (h : Agrees cv m) {key : Bytes}
    {v : Value} (hv : m.lookup key = some v) : bindCall p cv key = .ok (some (bindCallOf v)) := by
  have hk := (h.mem key).mpr (Finmap.mem_of_lookup_eq_some hv)
  rw [bindCall_eq p h.wellFormed hk, valueBindCall_lookup h hv]

theorem bindCalls_lookup {cv : ContentValues.Impl} {m : Contents} (h : Agrees cv m) {i : ℕ}
    {ks : List Bytes} {vs : List Value} (hv : ks.map m.lookup = vs.map some) :
    bindCalls cv i ks = ((vs.map bindCallOf).zipIdx (i + 1)).map fun q => (q.2, q.1) := by
  induction ks generalizing i vs with
  | nil =>
    obtain rfl : vs = [] := by simpa using hv.symm
    rfl
  | cons key ks ih =>
    cases vs with
    | nil => simp at hv
    | cons v vs =>
      simp only [List.map_cons, List.cons.injEq] at hv
      rw [bindCalls, valueBindCall_lookup h hv.1]
      exact congrArg ((i + 1, bindCallOf v) :: ·) (ih hv.2)

theorem bindLoopBindings_eq {cv : ContentValues.Impl} {m : Contents} (h : Agrees cv m)
    (env : InsertEnv σ) (j : ℕ) {i : ℕ} {ks : List Bytes} {vs : List Value} (c : Connection σ)
    (hv : ks.map m.lookup = vs.map some) : bindLoopBindings p env cv (some j) i ks c =
      upToFailure (numbered env.bind i (vs.map bindCallOf)) := by
  induction ks generalizing i vs c with
  | nil =>
    obtain rfl : vs = [] := by simpa using hv.symm
    rfl
  | cons key ks ih =>
    cases vs with
    | nil => simp at hv
    | cons v vs =>
      simp only [List.map_cons, List.cons.injEq] at hv
      rw [bindLoopBindings, bindCall_lookup p h hv.1, List.map_cons, numbered_cons, upToFailure]
      cases ha : env.bind (i + 1) (bindCallOf v) with
      | none =>
        simp only [sqlite3Bind, ha, if_true]
        rw [ih _ hv.2]
      | some f => simp [sqlite3Bind, ha]

/-- Every key of the container has the value last put for it. -/
theorem exists_values {cv : ContentValues.Impl} {m : Contents} (h : Agrees cv m) (o : HashOrder) :
    ∃ vs : List Value, (keys o cv).map m.lookup = vs.map some := by
  have hall : ∀ key ∈ keys o cv, ∃ v, m.lookup key = some v := by
    intro key hk
    exact Finmap.mem_iff.mp ((h.mem key).mp (mem_keys.mp hk))
  generalize keys o cv = ks at hall
  induction ks with
  | nil => exact ⟨[], rfl⟩
  | cons key ks ih =>
    rw [List.forall_mem_cons] at hall
    obtain ⟨v, hv⟩ := hall.1
    obtain ⟨vs, hvs⟩ := ih hall.2
    exact ⟨v :: vs, by rw [List.map_cons, hv, hvs, List.map_cons]⟩

theorem value_at {ks : List Bytes} {m : Contents} {vs : List Value}
    (hvs : ks.map m.lookup = vs.map some) (i : ℕ) (v : Value) :
    vs[i]? = some v ↔ ∃ key, ks[i]? = some key ∧ m.lookup key = some v := by
  have hi := congrArg (·[i]?) hvs
  simp only [List.getElem?_map] at hi
  cases hk : ks[i]? <;> cases hx : vs[i]? <;> simp_all

theorem insertBindings_eq (h : MadDatabase.Impl σ) {c : InsertCall σ} {m : Contents}
    (ha : Agrees c.values.impl m) (hp : Prepared c) {vs : List Value}
    (hv : (keys c.env.order c.values.impl).map m.lookup = vs.map some) :
    insertBindings p h c = upToFailure (numbered c.env.bind 0 (vs.map bindCallOf)) := by
  have hprep := prepare_insert h c.table hp.2
  simp only [insertBindings, hp.1, Bool.false_eq_true, if_false, hprep]
  exact bindLoopBindings_eq p ha c.env _ _ hv

theorem accepted_upToFailure (bind : ℕ → BindCall → Answer) (i : ℕ) (vs : List BindCall) :
    accepted (upToFailure (numbered bind i vs)) =
      acceptedCalls bind ((vs.zipIdx (i + 1)).map fun q => (q.2, q.1)) := by
  induction vs generalizing i with
  | nil => rfl
  | cons v vs ih =>
    rw [numbered_cons, upToFailure, List.zipIdx_cons, List.map_cons]
    cases ha : bind (i + 1) v with
    | none =>
      have hrest := ih (i + 1)
      simp only [accepted, acceptedCalls] at hrest ⊢
      simp [Binding.call, ha, hrest]
    | some f => simp [accepted, acceptedCalls, ha]

/-- A parameter is bound when its call and those before it are accepted. -/
theorem lookup_acceptedCalls {bind : ℕ → BindCall → Answer} {k i : ℕ} {vs : List BindCall}
    {w : BindCall} (hw : vs[i]? = some w)
    (ha : ∀ j ≤ i, ∀ x, vs[j]? = some x → bind (k + j + 1) x = none) :
    (acceptedCalls bind ((vs.zipIdx (k + 1)).map fun q => (q.2, q.1))).reverse.lookup
      (k + i + 1) = some w := by
  induction vs generalizing k i with
  | nil => cases hw
  | cons v vs ih =>
    have hv : bind (k + 1) v = none := ha 0 (Nat.zero_le i) v rfl
    have hcons : acceptedCalls bind (((v :: vs).zipIdx (k + 1)).map fun q => (q.2, q.1)) =
        (k + 1, v) :: acceptedCalls bind ((vs.zipIdx (k + 1 + 1)).map fun q => (q.2, q.1)) := by
      simp [acceptedCalls, hv]
    rw [hcons, List.reverse_cons, List.lookup_append]
    cases i with
    | zero =>
      obtain rfl : v = w := Option.some.inj hw
      have hnone : (acceptedCalls bind
          ((vs.zipIdx (k + 1 + 1)).map fun q => (q.2, q.1))).reverse.lookup (k + 0 + 1) = none := by
        rw [List.lookup_eq_none_iff]
        intro q hq
        have hmem := (List.takeWhile_sublist _).subset (List.mem_reverse.mp hq)
        obtain ⟨r, hr, rfl⟩ := List.mem_map.mp hmem
        have hle := (List.mem_zipIdx hr).1
        simp
        omega
      rw [hnone]
      simp
    | succ i =>
      have hshift (j : ℕ) : k + 1 + j + 1 = k + (j + 1) + 1 := by omega
      have hrest := ih (k := k + 1) (i := i) hw fun j hj x hx => by
        rw [hshift]
        exact ha (j + 1) (Nat.succ_le_succ hj) x hx
      rw [← hshift, hrest]
      rfl

theorem refusal_of_mem {bind : ℕ → BindCall → Answer} {i : ℕ} {vs : List BindCall} {b : Binding}
    {f : Failure} (hb : b ∈ upToFailure (numbered bind i vs)) (hf : b.answer = some f) :
    refusal bind ((vs.zipIdx (i + 1)).map fun q => (q.2, q.1)) = some f := by
  induction vs generalizing i with
  | nil => cases hb
  | cons v vs ih =>
    rw [numbered_cons, upToFailure, List.mem_cons] at hb
    rw [List.zipIdx_cons, List.map_cons, refusal, List.findSome?_cons]
    dsimp only at hb ⊢
    cases ha : bind (i + 1) v with
    | none =>
      rw [if_pos ha] at hb
      rcases hb with rfl | hb
      · cases ha.symm.trans hf
      · exact ih hb
    | some f' =>
      rw [if_neg (by simp [ha])] at hb
      rcases hb with rfl | hb
      · exact ha.symm.trans hf
      · cases hb

/-- The statement is there after the insert, with the text and with what the bind loop has put
into it before the first refusal. -/
theorem insertedStmt_prepared (h : MadDatabase.Impl σ) {c : InsertCall σ} (hp : Prepared c) :
    ∃ s, insertedStmt p h c = some s ∧
      s.sql = insertSql c.table (keys c.env.order c.values.impl) ∧
      s.bound = (acceptedCalls c.env.bind
        (bindCalls c.values.impl 0 (keys c.env.order c.values.impl))).reverse := by
  unfold insertedStmt
  cases hf : refusal c.env.bind
      (bindCalls c.values.impl 0 (keys c.env.order c.values.impl)) with
  | some f =>
    have hi := insert_notBound p h c.table c.values.wellFormed hp.1 hp.2 hf
    rw [insertValues_spec] at hi
    rw [Except.ok.inj hi]
    exact ⟨_, Table.find?_add h.db.stmts _, rfl, rfl⟩
  | none =>
    have hb : BindsSucceed c.values.impl c.env := refusal_eq_none.mp hf
    rw [acceptedCalls_all hb]
    have hpath := insertValues_path p h c
    generalize insertValues p h c = r at hpath
    cases hpath with
    | empty he => simp [hp.1] at he
    | notPrepared _ hp' => simp [hp.2] at hp'
    | notBound _ _ hb' => exact absurd hb hb'
    | notStarted => exact ⟨_, Table.find?_add h.db.stmts _, rfl, rfl⟩
    | lockBusy => exact ⟨_, Table.find?_add h.db.stmts _, rfl, rfl⟩
    | ran _ _ _ _ he =>
      have hs := (RanEffect.of_halt he).stmts
      refine ⟨insertStmt c.table c.values.impl c.env, ?_, rfl, rfl⟩
      dsimp only
      rw [hs]
      exact Table.find?_add h.db.stmts _

theorem insertedStmt_unprepared (h : MadDatabase.Impl σ) {c : InsertCall σ} (hp : ¬Prepared c) :
    insertedStmt p h c = none := by
  have hnext : h.db.stmts.find? h.db.stmts.next = none := Table.find?_next h.db.stmts
  unfold insertedStmt
  have hpath := insertValues_path p h c
  generalize insertValues p h c = r at hpath
  cases hpath with
  | empty => exact hnext
  | notPrepared => exact hnext
  | notBound he hp' => exact absurd ⟨he, hp'⟩ hp
  | notStarted he hp' => exact absurd ⟨he, hp'⟩ hp
  | lockBusy he hp' => exact absurd ⟨he, hp'⟩ hp
  | ran he hp' => exact absurd ⟨he, hp'⟩ hp

/-- The accepted calls are what is bound to the statement that the insert leaves. -/
theorem insertedStmt_bound (h : MadDatabase.Impl σ) {c : InsertCall σ} {m : Contents}
    (ha : Agrees c.values.impl m) (hp : Prepared c) :
    ∃ s, insertedStmt p h c = some s ∧
      s.sql = insertSql c.table (keys c.env.order c.values.impl) ∧
      s.bound = (accepted (insertBindings p h c)).reverse := by
  obtain ⟨vs, hv⟩ := exists_values ha c.env.order
  obtain ⟨s, hs, hsql, hbound⟩ := insertedStmt_prepared p h hp
  refine ⟨s, hs, hsql, ?_⟩
  rw [hbound, insertBindings_eq p h ha hp hv, accepted_upToFailure, bindCalls_lookup ha hv]

/-- A refused call is the last one and ends the insert. -/
theorem insert_refused (h : MadDatabase.Impl σ) {c : InsertCall σ} {m : Contents}
    (ha : Agrees c.values.impl m) (hp : Prepared c) {b : Binding} {f : Failure}
    (hb : b ∈ insertBindings p h c) (hf : b.answer = some f) :
    (insertValues p h c).1 = true ∧ (insertValues p h c).2.db.errMsg = f.msg := by
  obtain ⟨vs, hv⟩ := exists_values ha c.env.order
  rw [insertBindings_eq p h ha hp hv] at hb
  have hr := refusal_of_mem hb hf
  rw [← bindCalls_lookup ha hv] at hr
  have hi := insert_notBound p h c.table c.values.wellFormed hp.1 hp.2 hr
  rw [insertValues_spec] at hi
  rw [Except.ok.inj hi]
  exact ⟨rfl, rfl⟩

/-- The statement `query` gets for a text. -/
def Compiles (sql : Bytes) (env : QueryEnv) : Prop := env.prepare sql = none ∧ isBlank sql = false

instance (sql : Bytes) (env : QueryEnv) : Decidable (Compiles sql env) :=
  inferInstanceAs (Decidable (_ ∧ _))

theorem bindArgsBindings_eq (env : QueryEnv) (stmt : Option ℕ) (i : ℕ) (args : List Bytes)
    (c : Connection σ) : bindArgsBindings env stmt i args c =
      numbered (fun i v => if stmt = none then some misuse else env.bind i v) i
        (args.map fun str => .text str (toInt str.length)) := by
  induction args generalizing i c with
  | nil => rfl
  | cons str args ih =>
    have hb : (sqlite3Bind c stmt (i + 1) (.text str (toInt str.length))
        (env.bind (i + 1) (.text str (toInt str.length)))).1 =
        if stmt = none then some misuse else env.bind (i + 1) (.text str (toInt str.length)) := by
      cases stmt with
      | none => rfl
      | some j => cases env.bind (i + 1) (.text str (toInt str.length)) <;> rfl
    rw [bindArgsBindings, List.map_cons, numbered_cons, ← hb, ih]

theorem queryBindings_eq (h : MadDatabase.Impl σ) (sql : Bytes) (args : List Bytes)
    (env : QueryEnv) : queryBindings h sql args env =
      numbered (fun i v => if Compiles sql env then env.bind i v else some misuse) 0
        (args.map fun str => .text str (toInt str.length)) := by
  unfold queryBindings sqlite3PrepareV2
  by_cases hc : Compiles sql env
  · have hc' : env.prepare sql = none ∧ isBlank sql = false := hc
    simp only [if_pos hc', if_pos hc, bindArgsBindings_eq]
    rfl
  · have hc' : ¬(env.prepare sql = none ∧ isBlank sql = false) := hc
    simp only [if_neg hc', if_neg hc, bindArgsBindings_eq]
    rfl

theorem bindArgs_stmts (env : QueryEnv) {t : Table Stmt} {s : Stmt} {i : ℕ} {args : List Bytes}
    {c : Connection σ} (hc : c.stmts = t.add s) :
    (bindArgs env (some t.next) i args c).stmts =
      t.add { s with bound := acceptedFrom env.bind i args ++ s.bound } := by
  induction args generalizing i s c with
  | nil => simpa [bindArgs, acceptedFrom] using hc
  | cons str args ih =>
    have harg : BindCall.text str (toInt str.length) = argument str := rfl
    rw [bindArgs, harg, acceptedFrom]
    cases ha : env.bind (i + 1) (argument str) with
    | none =>
      have hs : (sqlite3Bind c (some t.next) (i + 1) (argument str) none).2.stmts =
          t.add { s with bound := (i + 1, argument str) :: s.bound } := by
        simp only [sqlite3Bind, report, hc, Table.update_add]
      rw [ih hs]
      simp
    | some f =>
      have hs : (sqlite3Bind c (some t.next) (i + 1) (argument str) (some f)).2.stmts =
          t.add s := hc
      rw [ih hs]
      simp

theorem query_stmt (h : MadDatabase.Impl σ) {sql : Bytes} (args : List Bytes) {env : QueryEnv}
    (hc : Compiles sql env) : (query h sql args env).1 = some h.db.stmts.next ∧
      queriedStmt h sql args env =
        some ⟨sql, acceptedFrom env.bind 0 args, env.writes, env.counts, false⟩ := by
  have hc' : env.prepare sql = none ∧ isBlank sql = false := hc
  have hq : (query h sql args env).1 = some h.db.stmts.next := by
    simp only [query, sqlite3PrepareV2, if_pos hc']
  have hs : (query h sql args env).2.db.stmts = h.db.stmts.add
      ⟨sql, acceptedFrom env.bind 0 args, env.writes, env.counts, false⟩ := by
    simp only [query, sqlite3PrepareV2, if_pos hc']
    rw [bindArgs_stmts (t := h.db.stmts) env rfl, List.append_nil]
  exact ⟨hq, by rw [queriedStmt, hq, hs, Option.bind_some, Table.find?_add]⟩

theorem queriedStmt_not_compiled (h : MadDatabase.Impl σ) {sql : Bytes} (args : List Bytes)
    {env : QueryEnv} (hc : ¬Compiles sql env) : queriedStmt h sql args env = none := by
  have hc' : ¬(env.prepare sql = none ∧ isBlank sql = false) := hc
  simp only [queriedStmt, query, sqlite3PrepareV2, if_neg hc', Option.bind_none]

/-- The parameters below `i + 1` are not touched from position `i` on. -/
theorem lookup_acceptedFrom_lt (bind : ℕ → BindCall → Answer) {i j : ℕ} (args : List Bytes)
    (hj : j ≤ i) : (acceptedFrom bind i args).lookup j = none := by
  induction args generalizing i with
  | nil => rfl
  | cons str args ih =>
    unfold acceptedFrom
    have hne : (j == i + 1) = false := by simp; omega
    split
    · rw [List.lookup_append, ih (by omega)]
      simp [List.lookup_cons, hne]
    · exact ih (by omega)

theorem lookup_acceptedFrom (bind : ℕ → BindCall → Answer) {i j : ℕ} {args : List Bytes}
    {str : Bytes} (hs : args[j]? = some str) : (acceptedFrom bind i args).lookup (i + j + 1) =
      if bind (i + j + 1) (argument str) = none then some (argument str) else none := by
  induction args generalizing i j with
  | nil => cases hs
  | cons a args ih =>
    unfold acceptedFrom
    cases j with
    | zero =>
      cases hs
      have hlt := lookup_acceptedFrom_lt bind (i := i + 1) args le_rfl
      split
      · simp [List.lookup_append, hlt]
      · simp [hlt]
    | succ j =>
      have hi : i + (j + 1) + 1 = i + 1 + j + 1 := by omega
      have hrest := ih (i := i + 1) (j := j) hs
      have hne : (i + 1 + j + 1 == i + 1) = false := by simp; omega
      rw [hi]
      split
      · rw [List.lookup_append, hrest]
        simp [List.lookup_cons, hne]
      · exact hrest

theorem acceptedFrom_eq (bind : ℕ → BindCall → Answer) (i : ℕ) (args : List Bytes) :
    acceptedFrom bind i args = (accepted (numbered bind i (args.map argument))).reverse := by
  induction args generalizing i with
  | nil => rfl
  | cons str args ih =>
    rw [acceptedFrom, List.map_cons, numbered_cons]
    by_cases ha : bind (i + 1) (argument str) = none
    · rw [if_pos ha, ih]
      simp [accepted, Binding.call, ha]
    · rw [if_neg ha, ih]
      simp [accepted, ha]

/-- The accepted calls are what is bound to the statement of the cursor. -/
theorem queriedStmt_bound (h : MadDatabase.Impl σ) {sql : Bytes} (args : List Bytes)
    {env : QueryEnv} (hc : Compiles sql env) : ∃ s, queriedStmt h sql args env = some s ∧
      s.bound = (accepted (queryBindings h sql args env)).reverse := by
  refine ⟨_, (query_stmt h args hc).2, ?_⟩
  dsimp only
  rw [acceptedFrom_eq, queryBindings_eq]
  simp only [if_pos hc]
  rfl

end SqliteBindings
