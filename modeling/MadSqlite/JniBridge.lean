import MadSqlite.JniDatabases
import MadSqlite.JniQueries
import MadSqlite.JniSearch

/-! # The bridge as one machine

The functions of the bridge that make something or let it go, over all databases and queries of
a process. A call on a pointer that stands for nothing is undefined, and a run that makes one
has no state. The moves and the readings of a query make nothing and are left out. -/
namespace JniBridge

open CppStrings HandleTable SqliteConnection SqliteConnection.Connection SqliteExec SqliteCommands
open SqliteBindings MadDatabase DatabaseSet ModifiedUtf8 JniInsert
open HandleCalls hiding Call next

variable {σ : Type*} (d : Directory) (p : Platform) (g : Grammar)

/-- `remains` is what the destructor has left of the connection of a database that is gone, and
`made` counts the statements that calls on a database have made. -/
structure State (σ : Type*) where
  databases : JniDatabases.State σ
  queries : Table (ℕ × Option MadQuery.Impl)
  remains : ℕ → Option (Remains σ)
  made : ℕ → ℕ

def initial (files : Bytes → Bool) : State σ :=
  ⟨JniDatabases.initial files, .empty, fun _ => none, fun _ => 0⟩

def State.objects (s : State σ) : Table (Object σ) := s.databases.registry.objects

/-- A call on the pointer of a database. -/
inductive Call (σ : Type*) where
  | begin (env : ExecEnv σ)
  | commit (env : ExecEnv σ)
  | rollback (env : ExecEnv σ)
  | insert (table : JString) (keys : List (Option JString)) (values : List JObject)
      (env : InsertEnv σ)
  | exec (sql : JString) (env : ExecEnv σ)
  | query (query : JString) (args : Option (List (Option JString))) (env : QueryEnv)

/-- The object on the heap that a query returns. -/
def newQuery (statement : Option ℕ) : Option MadQuery.Impl :=
  (JniQueries.moveConstruct (some (.new statement))).1

/-- The database after a call, and the new object if the call was a query. -/
def call (db : Impl σ) : Call σ → Except JniError (Option (Option MadQuery.Impl) × Impl σ)
  | .begin env => .ok (none, beginTransaction g db env)
  | .commit env => .ok (none, commitTransaction g db env)
  | .rollback env => .ok (none, rollbackTransaction g db env)
  | .insert table keys values env =>
    (JniInsert.insert p db table keys values env).map fun r => (none, r.2)
  | .exec sql env => .ok (none, (MadDatabase.exec g db (cStr (encode sql)) env).2)
  | .query query args env =>
    (JniSearch.query db query args env).map fun r => (some (newQuery r.1), r.2)

/-- The statements that a call makes. -/
def makes : Call σ → ℕ
  | .insert table keys values env =>
    match putLoop keys values keys.length 0 .new with
    | .ok contentValues => if Prepared ⟨cStr (encode table), contentValues, env⟩ then 1 else 0
    | .error _ => 0
  | .query query _ env => if Compiles (cStr (encode query)) env then 1 else 0
  | _ => 0

inductive Event (σ : Type*) where
  | openDatabase (absPath : Option Bytes) (env : OpenEnv σ) (a : JniDatabases.Allocator)
  | closeDatabase (dbPtr : ℕ)
  | setFile (absolute : Bytes) (present : Bool)
  | call (dbPtr : ℕ) (c : Call σ)
  | closeQuery (nativePtr : ℕ)

/-- The destructors run of the databases that were there before and are gone. -/
def settle (s : State σ) (databases : JniDatabases.State σ) : State σ :=
  { s with
    databases := databases
    remains := fun h =>
      match s.objects.find? h, databases.registry.objects.find? h with
      | some o, none => some (destructor o.impl)
      | _, _ => s.remains h }

/-- The database behind a pointer. -/
def target (s : State σ) (dbPtr : ℕ) : Option (ℕ × Object σ) :=
  (JniDatabases.database s.databases dbPtr).bind fun h =>
    (s.objects.find? h).map fun o => (h, o)

def setImpl (databases : JniDatabases.State σ) (h : ℕ) (db : Impl σ) : JniDatabases.State σ :=
  { databases with
    registry := { databases.registry with
      objects := databases.registry.objects.update h fun o => { o with impl := db } } }

def addQuery (queries : Table (ℕ × Option MadQuery.Impl)) (h : ℕ) :
    Option (Option MadQuery.Impl) → Table (ℕ × Option MadQuery.Impl)
  | none => queries
  | some q => queries.add (h, q)

/-- The state after a call that has left the database so and made so many statements. -/
def called (s : State σ) (h : ℕ) (q : Option (Option MadQuery.Impl)) (db : Impl σ) (n : ℕ) :
    State σ :=
  { s with
    databases := setImpl s.databases h db
    queries := addQuery s.queries h q
    made := Function.update s.made h (s.made h + n) }

def step (s : State σ) : Event σ → Except JniError (State σ)
  | .openDatabase absPath env a =>
    .ok (settle s (JniDatabases.next d s.databases (.openDatabase absPath env a)))
  | .closeDatabase dbPtr =>
    .ok (settle s (JniDatabases.next d s.databases (.closeDatabase dbPtr)))
  | .setFile absolute present =>
    .ok (settle s (JniDatabases.next d s.databases (.setFile absolute present)))
  | .call dbPtr c =>
    match target s dbPtr with
    | none => .error .undefined
    | some (h, o) =>
      match call p g o.impl c with
      | .error e => .error e
      | .ok (q, db) => .ok (called s h q db (makes c))
  | .closeQuery nativePtr =>
    if nativePtr ∈ s.queries.ids then
      .ok { s with queries := s.queries.remove nativePtr }
    else .error .undefined

/-- The connection of a database, while it has not been freed. -/
def connection (s : State σ) (h : ℕ) : Option (Connection σ) :=
  match s.objects.find? h with
  | some o => some o.impl.db
  | none =>
    match s.remains h with
    | some (.opened c) => some c
    | _ => none

def Owns (s : State σ) (n h j : ℕ) : Prop :=
  ∃ q, (n, (h, some q)) ∈ s.queries.entries ∧ q.statement = some j

/-- Nothing is used after it was freed, and nothing is freed that has statements. -/
structure Sound (s : State σ) : Prop where
  usable : ∀ n h j, Owns s n h j → ∃ c, connection s h = some c ∧ j ∈ c.stmts.ids
  distinct : ∀ n n' h j, Owns s n h j → Owns s n' h j → n = n'
  accounted : ∀ h c, connection s h = some c → c.unfinalised = s.made h
  freed : ∀ h, h < s.objects.next → (connection s h = none ↔
    h ∉ s.objects.ids ∧ s.made h = 0)

section Calls

variable {db db' : Impl σ}

theorem exec_stmts (db : Impl σ) (sql : Bytes) (env : ExecEnv σ) :
    (MadDatabase.exec g db sql env).2.db.stmts = db.db.stmts := by
  unfold MadDatabase.exec
  split
  · rfl
  · exact sqlite3Exec_stmts g db.db sql env

theorem query_statement (db : Impl σ) (sql : Bytes) (args : List Bytes) (env : QueryEnv) :
    (MadDatabase.query db sql args env).1 = if Compiles sql env then some db.db.stmts.next else
      none := by
  by_cases hc : Compiles sql env
  · have hp : env.prepare sql = none ∧ isBlank sql = false := hc
    simp only [MadDatabase.query, sqlite3PrepareV2, if_pos hc, if_pos hp]
  · have hp : ¬(env.prepare sql = none ∧ isBlank sql = false) := hc
    simp only [MadDatabase.query, sqlite3PrepareV2, if_neg hc, if_neg hp]

/-- What a call adds to the statements of its database. -/
structure Adds (db : Impl σ) (c : Call σ) (q : Option (Option MadQuery.Impl)) (db' : Impl σ)
    (new : List ℕ) : Prop where
  ids : db'.db.stmts.ids = db.db.stmts.ids ++ new
  size : new.length = makes c
  owned : ∀ i j, q = some (some i) → i.statement = some j → j ∈ new ∧ j ∉ db.db.stmts.ids

theorem adds_nothing {c : Call σ} (hc : makes c = 0) (hi : db'.db.stmts.ids = db.db.stmts.ids) :
    Adds db c none db' [] :=
  ⟨by rw [hi, List.append_nil], hc.symm, by simp⟩

theorem call_adds {c : Call σ} {q : Option (Option MadQuery.Impl)}
    (hcall : call p g db c = .ok (q, db')) : ∃ new, Adds db c q db' new := by
  cases c with
  | begin env =>
    cases hcall
    exact ⟨[], adds_nothing rfl (control_effect p g db (.begin env) (by simp)).ids⟩
  | commit env =>
    cases hcall
    exact ⟨[], adds_nothing rfl (control_effect p g db (.commit env) (by simp)).ids⟩
  | rollback env =>
    cases hcall
    exact ⟨[], adds_nothing rfl (control_effect p g db (.rollback env) (by simp)).ids⟩
  | exec sql env =>
    cases hcall
    exact ⟨[], adds_nothing rfl (congrArg Table.ids (exec_stmts g db _ env))⟩
  | insert table keys values env =>
    simp only [call, JniInsert.insert, if_true] at hcall
    cases hput : putLoop keys values keys.length 0 .new with
    | error e =>
      rw [hput] at hcall
      cases hcall
    | ok contentValues =>
      rw [hput] at hcall
      cases hcall
      have hids := insertNext_ids p db ⟨cStr (encode table), contentValues, env⟩
      refine ⟨_, hids, ?_, by simp⟩
      simp only [makes, hput]
      split <;> rfl
  | query query args env =>
    simp only [call, JniSearch.query] at hcall
    cases hargs : JniSearch.argsOf args with
    | error e =>
      rw [hargs] at hcall
      cases hcall
    | ok argsVector =>
      rw [hargs] at hcall
      cases hcall
      obtain ⟨hids, hnext⟩ := query_ids db (cStr (encode query)) argsVector env
      refine ⟨_, hids, ?_, ?_⟩
      · rw [query_statement, makes]
        split <;> rfl
      · rintro i j hq hj
        obtain rfl : MadQuery.Impl.new (MadDatabase.query db (cStr (encode query)) argsVector
            env).1 = i := by simpa [newQuery, JniQueries.moveConstruct] using hq
        have hstatement : (MadDatabase.query db (cStr (encode query)) argsVector env).1 = some j :=
          hj
        refine ⟨Option.mem_toList.mpr hstatement, ?_⟩
        rw [hnext j hstatement]
        exact db.db.stmts.next_not_mem

end Calls

/-- Objects come from those of the table before, with what they own. -/
structure SameImpls (before after : Table (Object σ)) : Prop where
  next : after.next = before.next
  kept : ∀ h o, after.find? h = some o → ∃ o', before.find? h = some o' ∧ o'.impl = o.impl

section Databases

variable {r : DatabaseSet.State σ} {t t' t'' : Table (Object σ)}

theorem SameImpls.refl (t : Table (Object σ)) : SameImpls t t := ⟨rfl, fun _ o hf => ⟨o, hf, rfl⟩⟩

theorem SameImpls.trans (h : SameImpls t t') (h' : SameImpls t' t'') : SameImpls t t'' := by
  refine ⟨h'.next.trans h.next, fun i o hf => ?_⟩
  obtain ⟨o', hf', ho'⟩ := h'.kept i o hf
  obtain ⟨o'', hf'', ho''⟩ := h.kept i o' hf'
  exact ⟨o'', hf'', ho''.trans ho'⟩

theorem setCount_objects (r : DatabaseSet.State σ) (h : ℕ) (f : ℕ → ℕ) :
    SameImpls r.objects (setCount r h f).objects := by
  refine ⟨rfl, fun i o hf => ?_⟩
  by_cases he : i = h
  · subst he
    rw [setCount, Table.find?_update_self, Option.map_eq_some_iff] at hf
    obtain ⟨o', ho', rfl⟩ := hf
    exact ⟨o', ho', rfl⟩
  · rw [setCount, Table.find?_update_of_ne _ he] at hf
    exact ⟨o, hf, rfl⟩

theorem close_objects (r : DatabaseSet.State σ) (h : ℕ) :
    SameImpls r.objects (close r h).objects := by
  refine ⟨rfl, fun i o hf => ?_⟩
  by_cases he : i = h
  · simp [close, he] at hf
  · rw [close, Table.find?_remove_of_ne he] at hf
    exact ⟨o, hf, rfl⟩

theorem drop_objects (r : DatabaseSet.State σ) (h : ℕ) :
    SameImpls r.objects (DatabaseRegistry.drop r h).objects := by
  have hrelease := setCount_objects r h (· - 1)
  unfold DatabaseRegistry.drop
  split
  · exact .refl _
  · split
    · rw [sweep_objects]
      exact hrelease.trans (close_objects (release r h) h)
    · exact hrelease

theorem drops_objects (ptrs : List (Option ℕ)) (r : DatabaseSet.State σ) :
    SameImpls r.objects (ptrs.foldl JniDatabases.dropPtr r).objects := by
  induction ptrs generalizing r with
  | nil => exact .refl _
  | cons ptr ptrs ih =>
    cases ptr with
    | none => exact ih r
    | some h => exact (drop_objects r h).trans (ih _)

theorem openHandle_objects (r : DatabaseSet.State σ) (absPath : Option Bytes) (env : OpenEnv σ) :
    SameImpls r.objects (JniDatabases.openHandle d r absPath env).2.objects ∨
      ∃ o : Object σ, o.impl = .new env ∧
        (JniDatabases.openHandle d r absPath env).2.objects = r.objects.add o := by
  cases absPath with
  | none => exact .inr ⟨_, rfl, rfl⟩
  | some path =>
    simp only [JniDatabases.openHandle, DatabaseRegistry.openDatabase]
    split
    · split
      · next h hk =>
        split
        · exact .inr ⟨_, rfl, publish_objects d _ _ _ _⟩
        · refine .inl ?_
          unfold lock
          split
          · exact .refl _
          · exact setCount_objects r h (· + 1)
      · exact .inr ⟨_, rfl, publish_objects d _ _ _ _⟩
    · exact .inr ⟨_, rfl, publish_objects d _ _ _ _⟩

theorem mem_ids_of_find? {i : ℕ} {o : Object σ} (h : t.find? i = some o) : i ∈ t.ids :=
  Table.mem_ids.mpr ⟨o, Table.mem_of_find? h⟩

/-- The databases of a state and of the next one: the old ones have the same connections, or
are gone, and the new ones have no statements. -/
structure Carries (before after : JniDatabases.State σ) : Prop where
  le : before.registry.objects.next ≤ after.registry.objects.next
  kept : ∀ h o, after.registry.objects.find? h = some o → h < before.registry.objects.next →
    ∃ o', before.registry.objects.find? h = some o' ∧ o'.impl = o.impl
  fresh : ∀ h o, after.registry.objects.find? h = some o → before.registry.objects.next ≤ h →
    o.impl.db.unfinalised = 0
  gone : ∀ h, before.registry.objects.next ≤ h → h < after.registry.objects.next →
    h ∈ after.registry.objects.ids

theorem carries_same {before after : JniDatabases.State σ}
    (h : SameImpls before.registry.objects after.registry.objects) : Carries before after := by
  refine ⟨h.next.ge, fun i o hf _ => h.kept i o hf, fun i o hf hle => ?_, fun i hle hlt => ?_⟩
  · obtain ⟨o', ho', -⟩ := h.kept i o hf
    have hlt := Table.lt_next (mem_ids_of_find? ho')
    omega
  · rw [h.next] at hlt
    omega

/-- A new database has no statements. -/
theorem carries_add {before after : JniDatabases.State σ} {o : Object σ} {env : OpenEnv σ}
    (ho : o.impl = .new env)
    (hadd : after.registry.objects = before.registry.objects.add o) : Carries before after := by
  have hnext : after.registry.objects.next = before.registry.objects.next + 1 := by
    rw [hadd]
    rfl
  refine ⟨by omega, fun i o' hf hlt => ?_, fun i o' hf hle => ?_, fun i hle hlt => ?_⟩
  · rw [hadd, Table.find?_add_of_ne _ hlt.ne] at hf
    exact ⟨o', hf, rfl⟩
  · have hlt := Table.lt_next (mem_ids_of_find? hf)
    obtain rfl : i = before.registry.objects.next := by omega
    rw [hadd, Table.find?_add] at hf
    obtain rfl : o = o' := Option.some.inj hf
    rw [ho]
    rfl
  · obtain rfl : i = before.registry.objects.next := by omega
    simp [hadd]

theorem databases_carry (s : JniDatabases.State σ) (e : JniDatabases.Event σ) :
    Carries s (JniDatabases.next d s e) := by
  cases e with
  | setFile absolute present => exact carries_same (.refl _)
  | closeDatabase dbPtr => exact carries_same (drops_objects _ s.registry)
  | openDatabase absPath env a =>
    rcases openHandle_objects d s.registry absPath env with hs | ⟨o, ho, hadd⟩
    · exact carries_same hs
    · exact carries_add ho hadd

end Databases

/-- What there is of a database has the statements that were made on it. -/
def Accounts (s : State σ) (h : ℕ) : Prop :=
  match s.objects.find? h, s.remains h with
  | some o, _ => o.impl.db.unfinalised = s.made h
  | none, some (.opened c) => c.unfinalised = s.made h ∧ s.made h ≠ 0
  | none, some (.freed _) => s.made h = 0
  | none, none => s.made h = 0 ∧ s.objects.next ≤ h

structure Invariant (s : State σ) : Prop where
  accounts : ∀ h, Accounts s h
  past : ∀ h, s.remains h ≠ none → h < s.objects.next
  usable : ∀ n h j, Owns s n h j → ∃ c, connection s h = some c ∧ j ∈ c.stmts.ids
  distinct : ∀ n n' h j, Owns s n h j → Owns s n' h j → n = n'

section Steps

variable {s s' : State σ}

theorem initial_invariant (files : Bytes → Bool) : Invariant (initial files : State σ) := by
  refine ⟨fun h => ⟨rfl, Nat.zero_le h⟩, fun h hn => absurd rfl hn, ?_, ?_⟩
  · rintro n h j ⟨q, hm, -⟩
    cases hm
  · rintro n n' h j ⟨q, hm, -⟩
    cases hm

theorem destructor_cases (db : Impl σ) :
    (db.db.unfinalised = 0 ∧ ∃ content, destructor db = .freed content) ∨
      (db.db.unfinalised ≠ 0 ∧ ∃ c, destructor db = .opened c ∧ c.stmts = db.db.stmts) := by
  unfold destructor sqlite3Close
  split
  · next hu => exact .inl ⟨hu, _, rfl⟩
  · next hu => exact .inr ⟨hu, _, rfl, rfl⟩

/-- A database that is not there after databases were opened and closed. -/
theorem settle_remains {after : JniDatabases.State σ} {h : ℕ} {o : Object σ}
    (hf : s.objects.find? h = some o) (hn : after.registry.objects.find? h = none) :
    (settle s after).remains h = some (destructor o.impl) := by
  simp only [settle, hf, hn]

theorem settle_remains_of_gone {after : JniDatabases.State σ} {h : ℕ}
    (hf : s.objects.find? h = none) : (settle s after).remains h = s.remains h := by
  simp only [settle, hf]

theorem Carries.find?_of_gone {before after : JniDatabases.State σ} (hc : Carries before after)
    {h : ℕ} (hn : before.registry.objects.find? h = none)
    (hlt : h < before.registry.objects.next) : after.registry.objects.find? h = none := by
  cases hf : after.registry.objects.find? h with
  | none => rfl
  | some o =>
    obtain ⟨o', ho', -⟩ := hc.kept h o hf hlt
    rw [hn] at ho'
    cases ho'

theorem Invariant.made_of_fresh (hs : Invariant s) {h : ℕ} (hle : s.objects.next ≤ h) :
    s.made h = 0 := by
  have hacc := hs.accounts h
  have hn : s.objects.find? h = none :=
    Table.find?_eq_none.mpr fun hm => absurd (Table.lt_next hm) (Nat.not_lt.mpr hle)
  have hr : s.remains h = none := by
    by_contra hr
    exact absurd (hs.past h hr) (Nat.not_lt.mpr hle)
  rw [Accounts, hn, hr] at hacc
  exact hacc.1

theorem settle_accounts (hs : Invariant s) {after : JniDatabases.State σ}
    (hc : Carries s.databases after) (h : ℕ) : Accounts (settle s after) h := by
  have hacc := hs.accounts h
  unfold Accounts at hacc ⊢
  cases hf : (settle s after).objects.find? h with
  | some o =>
    by_cases hlt : h < s.objects.next
    · obtain ⟨o', ho', hi⟩ := hc.kept h o hf hlt
      rw [show s.objects.find? h = some o' from ho'] at hacc
      exact (congrArg (fun i => i.db.unfinalised) hi.symm).trans hacc
    · have hle := Nat.not_lt.mp hlt
      exact (hc.fresh h o hf hle).trans (hs.made_of_fresh hle).symm
  | none =>
    have hn : after.registry.objects.find? h = none := hf
    cases hb : s.objects.find? h with
    | some o =>
      rw [hb] at hacc
      rw [settle_remains hb hn]
      rcases destructor_cases o.impl with ⟨hu, content, hd⟩ | ⟨hu, c, hd, hstmts⟩
      · rw [hd]
        exact hacc.symm.trans hu
      · have hcount : c.unfinalised = o.impl.db.unfinalised := by rw [unfinalised, hstmts]; rfl
        rw [hd]
        exact ⟨hcount.trans hacc, fun hz => hu (hacc.trans hz)⟩
    | none =>
      rw [hb] at hacc
      rw [settle_remains_of_gone hb]
      cases hr : s.remains h with
      | some r =>
        rw [hr] at hacc
        cases r <;> exact hacc
      | none =>
        rw [hr] at hacc
        refine ⟨hacc.1, Nat.not_lt.mp fun hlt => ?_⟩
        exact Table.find?_eq_none.mp hf (hc.gone h hacc.2 hlt)

/-- Opening and closing databases leaves the statements of every connection that has some. -/
theorem settle_connection (hs : Invariant s) {after : JniDatabases.State σ}
    (hc : Carries s.databases after) {h j : ℕ} {c : Connection σ} (hconn : connection s h = some c)
    (hj : j ∈ c.stmts.ids) : ∃ c', connection (settle s after) h = some c' ∧ j ∈ c'.stmts.ids := by
  unfold connection at hconn ⊢
  cases hb : s.objects.find? h with
  | some o =>
    rw [hb] at hconn
    obtain rfl : o.impl.db = c := Option.some.inj hconn
    cases hf : (settle s after).objects.find? h with
    | some o' =>
      obtain ⟨o'', ho'', hi⟩ := hc.kept h o' hf (Table.lt_next (mem_ids_of_find? hb))
      obtain rfl : o = o'' := Option.some.inj (hb.symm.trans ho'')
      exact ⟨_, rfl, by rw [← hi]; exact hj⟩
    | none =>
      have hn : after.registry.objects.find? h = none := hf
      rw [settle_remains hb hn]
      rcases destructor_cases o.impl with ⟨hu, -⟩ | ⟨-, c, hd, hstmts⟩
      · rw [unfinalised, Table.size_eq_zero_iff] at hu
        rw [hu] at hj
        cases hj
      · rw [hd]
        exact ⟨c, rfl, hstmts ▸ hj⟩
  | none =>
    rw [hb] at hconn
    have hr : s.remains h ≠ none := by
      rintro hr
      rw [hr] at hconn
      cases hconn
    have hf : (settle s after).objects.find? h = none := hc.find?_of_gone hb (hs.past h hr)
    rw [hf, settle_remains_of_gone hb]
    exact ⟨c, hconn, hj⟩

theorem settle_invariant (hs : Invariant s) {after : JniDatabases.State σ}
    (hc : Carries s.databases after) : Invariant (settle s after) := by
  refine ⟨settle_accounts hs hc, fun h hr => ?_, fun n h j ho => ?_, hs.distinct⟩
  · by_cases hb : s.objects.find? h = none
    · rw [settle_remains_of_gone hb] at hr
      exact (hs.past h hr).trans_le hc.le
    · obtain ⟨o, ho⟩ := Option.ne_none_iff_exists'.mp hb
      exact (Table.lt_next (mem_ids_of_find? ho)).trans_le hc.le
  · obtain ⟨c, hconn, hj⟩ := hs.usable n h j ho
    exact settle_connection hs hc hconn hj

theorem target_object {dbPtr h : ℕ} {o : Object σ} (ht : target s dbPtr = some (h, o)) :
    s.objects.find? h = some o := by
  obtain ⟨i, -, hi⟩ := Option.bind_eq_some_iff.mp ht
  obtain ⟨o', ho', he⟩ := Option.map_eq_some_iff.mp hi
  cases he
  exact ho'

section Called

variable {h n : ℕ} {o : Object σ} {q : Option (Option MadQuery.Impl)} {db : Impl σ}

theorem called_object (hf : s.objects.find? h = some o) :
    (called s h q db n).objects.find? h = some { o with impl := db } := by
  have hu := Table.find?_update_self s.objects h fun o => { o with impl := db }
  rw [hf] at hu
  exact hu

theorem called_object_of_ne {h' : ℕ} (hne : h' ≠ h) :
    (called s h q db n).objects.find? h' = s.objects.find? h' :=
  Table.find?_update_of_ne _ hne

theorem called_owns (s : State σ) (h : ℕ) (q : Option (Option MadQuery.Impl)) (db : Impl σ)
    (n i h' j : ℕ) : Owns (called s h q db n) i h' j ↔ Owns s i h' j ∨
      (i = s.queries.next ∧ h' = h ∧ ∃ r, q = some (some r) ∧ r.statement = some j) := by
  unfold Owns called addQuery
  cases q with
  | none => simp
  | some q =>
    simp only [Table.mem_entries_add]
    constructor
    · rintro ⟨r, hm | hm, hr⟩
      · exact .inl ⟨r, hm, hr⟩
      · cases hm
        exact .inr ⟨rfl, rfl, r, rfl, hr⟩
    · rintro (⟨r, hm, hr⟩ | ⟨rfl, rfl, r, hq, hr⟩)
      · exact ⟨r, .inl hm, hr⟩
      · cases hq
        exact ⟨r, .inr rfl, hr⟩

theorem called_connection (hf : s.objects.find? h = some o) :
    connection (called s h q db n) h = some db.db := by
  rw [connection, called_object hf]

theorem called_connection_of_ne {h' : ℕ} (hne : h' ≠ h) :
    connection (called s h q db n) h' = connection s h' := by
  rw [connection, connection, called_object_of_ne hne]
  rfl

theorem called_invariant (hs : Invariant s) {c : Call σ} {new : List ℕ}
    (hf : s.objects.find? h = some o) (hadds : Adds o.impl c q db new) :
    Invariant (called s h q db (makes c)) := by
  have hold {n h' j : ℕ} (ho : Owns s n h' j) : ∃ c', connection (called s h q db (makes c)) h' =
      some c' ∧ j ∈ c'.stmts.ids := by
    obtain ⟨c', hc', hj⟩ := hs.usable n h' j ho
    by_cases hne : h' = h
    · subst hne
      rw [connection, hf] at hc'
      obtain rfl : o.impl.db = c' := Option.some.inj hc'
      exact ⟨_, called_connection hf, hadds.ids ▸ List.mem_append_left _ hj⟩
    · exact ⟨c', (called_connection_of_ne hne).trans hc', hj⟩
  have hnew {n' j : ℕ} (ho : Owns s n' h j) {r : MadQuery.Impl} (hq : q = some (some r))
      (hr : r.statement = some j) : False := by
    obtain ⟨c', hc', hj⟩ := hs.usable n' h j ho
    rw [connection, hf] at hc'
    obtain rfl : o.impl.db = c' := Option.some.inj hc'
    exact (hadds.owned r j hq hr).2 hj
  refine ⟨fun h' => ?_, fun h' hr => hs.past h' hr, fun n h' j ho => ?_,
    fun n n' h' j ho ho' => ?_⟩
  · have hacc := hs.accounts h'
    unfold Accounts at hacc ⊢
    by_cases hne : h' = h
    · subst hne
      rw [hf] at hacc
      rw [called_object hf]
      have hsize : db.db.unfinalised = o.impl.db.unfinalised + makes c := by
        rw [unfinalised, unfinalised, Table.size_eq_ids, Table.size_eq_ids, hadds.ids,
          List.length_append, hadds.size]
      have hacc' : o.impl.db.unfinalised = s.made h' := hacc
      simp only [called, Function.update_self]
      rw [hsize, hacc']
    · rw [called_object_of_ne hne]
      simp only [called, Function.update_of_ne hne]
      exact hacc
  · rcases (called_owns s h q db (makes c) n h' j).mp ho with ho | ⟨-, rfl, r, hq, hr⟩
    · exact hold ho
    · exact ⟨_, called_connection hf, hadds.ids ▸
        List.mem_append_right _ (hadds.owned r j hq hr).1⟩
  · rcases (called_owns s h q db (makes c) n h' j).mp ho with hn | ⟨rfl, rfl, r, hq, hr⟩
    · rcases (called_owns s h q db (makes c) n' h' j).mp ho' with hn' | ⟨-, rfl, r, hq, hr⟩
      · exact hs.distinct n n' h' j hn hn'
      · exact (hnew hn hq hr).elim
    · rcases (called_owns s h' q db (makes c) n' h' j).mp ho' with hn' | ⟨rfl, -, -⟩
      · exact (hnew hn' hq hr).elim
      · rfl

end Called

theorem step_invariant (hs : Invariant s) {e : Event σ} (hstep : step d p g s e = .ok s') :
    Invariant s' := by
  cases e with
  | openDatabase absPath env a =>
    cases hstep
    exact settle_invariant hs (databases_carry d _ _)
  | closeDatabase dbPtr =>
    cases hstep
    exact settle_invariant hs (databases_carry d _ _)
  | setFile absolute present =>
    cases hstep
    exact settle_invariant hs (databases_carry d _ _)
  | call dbPtr c =>
    simp only [step] at hstep
    cases ht : target s dbPtr with
    | none =>
      rw [ht] at hstep
      cases hstep
    | some r =>
      obtain ⟨h, o⟩ := r
      rw [ht] at hstep
      dsimp only at hstep
      cases hcall : call p g o.impl c with
      | error e =>
        rw [hcall] at hstep
        cases hstep
      | ok r =>
        obtain ⟨q, db⟩ := r
        rw [hcall] at hstep
        cases hstep
        obtain ⟨new, hadds⟩ := call_adds p g hcall
        exact called_invariant hs (target_object ht) hadds
  | closeQuery nativePtr =>
    rw [step] at hstep
    split at hstep
    · cases hstep
      have hsub {n h j : ℕ} (ho : Owns { s with queries := s.queries.remove nativePtr } n h j) :
          Owns s n h j := by
        obtain ⟨q, hm, hq⟩ := ho
        exact ⟨q, (Table.mem_entries_remove.mp hm).1, hq⟩
      exact ⟨hs.accounts, hs.past, fun n h j ho => hs.usable n h j (hsub ho),
        fun n n' h j ho ho' => hs.distinct n n' h j (hsub ho) (hsub ho')⟩
    · cases hstep

theorem run_invariant (hs : Invariant s) {es : List (Event σ)}
    (hrun : es.foldlM (step d p g) s = .ok s') : Invariant s' := by
  induction es generalizing s with
  | nil =>
    cases hrun
    exact hs
  | cons e es ih =>
    rw [List.foldlM_cons] at hrun
    cases hstep : step d p g s e with
    | error err =>
      rw [hstep] at hrun
      cases hrun
    | ok s₁ =>
      rw [hstep] at hrun
      exact ih (step_invariant d p g hs hstep) hrun

end Steps

/-- In every state a run comes to, an open query has its statement on a connection that was not
freed, and a connection is freed with its database exactly when nothing was prepared on it: an
insert or a query that compiled keeps it for good, whatever is closed. -/
theorem statements_accounted (files : Bytes → Bool) {es : List (Event σ)} {s : State σ}
    (hrun : es.foldlM (step d p g) (initial files) = .ok s) : Sound s := by
  have hs := run_invariant d p g (initial_invariant files) hrun
  refine ⟨hs.usable, hs.distinct, fun h c hc => ?_, fun h hlt => ?_⟩
  · have hacc := hs.accounts h
    unfold connection at hc
    unfold Accounts at hacc
    split at hc
    · next o hf =>
      rw [hf] at hacc
      cases hc
      exact hacc
    · next hf =>
      split at hc
      · next c' hr =>
        rw [hf, hr] at hacc
        cases hc
        exact hacc.1
      · cases hc
  · have hacc := hs.accounts h
    unfold Accounts at hacc
    unfold connection
    cases hf : s.objects.find? h with
    | some o => simp [mem_ids_of_find? hf]
    | none =>
      rw [hf] at hacc
      have hn := Table.find?_eq_none.mp hf
      cases hr : s.remains h with
      | none =>
        rw [hr] at hacc
        exact absurd hlt (Nat.not_lt.mpr hacc.2)
      | some r =>
        rw [hr] at hacc
        cases r with
        | opened c =>
          have hm : s.made h ≠ 0 := hacc.2
          simp [hm]
        | freed content =>
          have hm : s.made h = 0 := hacc
          simp [hn, hm]

/-- A database that is closed under its query. -/
def closedUnderQuery : List (Event (List ℕ)) :=
  [.openDatabase none created JniDatabases.above,
    .call 1 (.query ((ascii "SELECT 1").map UInt8.toUInt16) none
      ⟨fun _ => none, false, false, fun _ _ => none⟩),
    .closeDatabase 1]

theorem closedUnderQuery_sound : ∃ s, closedUnderQuery.foldlM
    (step flatDirectory .noConversion .controlOnly) (initial fun _ => false) = .ok s ∧
      Sound s := by
  obtain ⟨s, hrun⟩ : ∃ s, closedUnderQuery.foldlM
    (step flatDirectory .noConversion .controlOnly) (initial fun _ => false) = .ok s := ⟨_, rfl⟩
  exact ⟨s, hrun, statements_accounted flatDirectory .noConversion .controlOnly _ hrun⟩

end JniBridge
