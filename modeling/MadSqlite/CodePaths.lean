import MadSqlite.DatabaseMutex
import MadSqlite.RegistryThreads

/-! # The code of the threads is the code of the calls

What an insert, an exec or a query calls in SQLite is a path through its code, and the
threads that open and drop handles follow theirs step by step. -/
namespace CodePaths

open CppStrings ContentValues HandleTable SqliteCommands SqliteConnection SqliteExec MadDatabase
open HandleCalls SqliteCalls DatabaseSet Runs ScopedLock HandleThreads
open ScopedLock.Code

section Calls

variable {σ : Type*} (p : Platform) (g : Grammar)

def sqliteCall : ((a : Action) × Answers a) → Option (SqliteCalls.Function × ResultCode)
  | ⟨.sqlite (.call .exec), (rc, _)⟩ => some (.exec, rc)
  | ⟨.sqlite (.call .prepareV2), rc⟩ => some (.prepareV2, rc)
  | ⟨.sqlite (.call .bind), rc⟩ => some (.bind, rc)
  | ⟨.sqlite (.call .step), rc⟩ => some (.step, rc)
  | _ => none

/-- The code can be run so that it makes these calls and gets these results. -/
def Follows (k : Program) (calls : List (SqliteCalls.Function × ResultCode)) : Prop :=
  ∃ l, Trace k l ∧ l.filterMap sqliteCall = calls

def results (log : List SqliteCall) : List (SqliteCalls.Function × ResultCode) :=
  log.map fun q => (q.function, q.rc)

namespace Follows

variable {k : Program} {calls : List (SqliteCalls.Function × ResultCode)}

theorem done : Follows .done [] := ⟨[], .done, rfl⟩

theorem unlock (h : Follows k calls) : Follows (.unlock k) calls := by
  obtain ⟨l, ht, hl⟩ := h
  exact ⟨l, .unlock ht, hl⟩

theorem guarded {body : Program → Program} (h : Follows (body (.unlock k)) calls) :
    Follows (guarded body k) calls := by
  obtain ⟨l, ht, hl⟩ := h
  exact ⟨l, .guarded ht, hl⟩

theorem act {a : Action} {next : Answers a → Program} (r : Answers a)
    (h : Follows (next r) calls) :
    Follows (.act a next) ((sqliteCall ⟨a, r⟩).toList ++ calls) := by
  obtain ⟨l, ht, hl⟩ := h
  refine ⟨⟨a, r⟩ :: l, .act r ht, ?_⟩
  rw [List.filterMap_cons, ← hl]
  cases sqliteCall ⟨a, r⟩ <;> rfl

theorem message {next : Bytes → Program} (h : Follows (next []) calls) :
    Follows (message next) calls :=
  act (a := .sqlite .errmsg) SQLITE_OK (act (a := .copyMessage) [] h)

variable {q : SqliteCall} {log : List SqliteCall} {next : ResultCode → Program}

theorem prepare (hq : q.function = .prepareV2) (h : Follows (next q.rc) (results log)) :
    Follows (.act (.sqlite (.call .prepareV2)) next) (results (q :: log)) := by
  rw [results, List.map_cons, hq]
  exact act (a := .sqlite (.call .prepareV2)) q.rc h

theorem bind (hq : q.function = .bind) (h : Follows (next q.rc) (results log)) :
    Follows (.act (.sqlite (.call .bind)) next) (results (q :: log)) := by
  rw [results, List.map_cons, hq]
  exact act (a := .sqlite (.call .bind)) q.rc h

end Follows

/-- From any place of the bind loop on. -/
theorem bindLoop_follows (cv : ContentValues.Impl) (env : InsertEnv σ) (stmt : Option ℕ)
    {out bound : Program} (hout : Follows out [])
    (hb : ∀ rc, Follows bound [(.step, rc)]) (i : ℕ) (ks : List Bytes) (c : Connection σ) :
    Follows (HandleThreads.bindLoop p cv out bound ks) (results (bindLoopLog p env cv stmt i ks c ++
      match MadDatabase.bindLoop p env cv stmt i ks c with
      | .ok (true, e) => [stepLog e stmt env.step]
      | _ => [])) := by
  induction ks generalizing i c with
  | nil => exact hb _
  | cons key ks ih =>
    unfold HandleThreads.bindLoop bindLoopLog MadDatabase.bindLoop
    cases hv : bindCall p cv key with
    | error e => exact hout
    | ok v =>
      cases v with
      | none => exact ih (i + 1) c
      | some v =>
        dsimp only
        cases hs : sqlite3Bind c stmt (i + 1) v (env.bind (i + 1) v) with
        | mk a d =>
          have hrc : (bindLog c stmt (i + 1) v (env.bind (i + 1) v)).rc = a.rc := by
            simp [bindLog, hs]
          apply Follows.bind rfl
          rw [hrc]
          cases a with
          | none => exact ih (i + 1) d
          | some f =>
            rw [if_pos (show Answer.rc (some f) ≠ SQLITE_OK from f.failed.1)]
            exact hout

/-- The calls of an insert are a path through its code. -/
theorem insert_follows (h : Impl σ) (c : InsertCall σ) :
    Follows (HandleThreads.insert p c.values.impl c.env.order .done)
      (results (insertLog p h c)) := by
  unfold HandleThreads.insert insertLog
  dsimp only
  split
  · exact .done
  · apply Follows.guarded
    cases hs : sqlite3PrepareV2 h.db (insertSql c.table (keys c.env.order c.values.impl)) true true
        (c.env.prepare (insertSql c.table (keys c.env.order c.values.impl))) with
    | mk a r =>
      obtain ⟨stmt, d⟩ := r
      have hrc : (prepareLog h.db (insertSql c.table (keys c.env.order c.values.impl)) true true
          (c.env.prepare (insertSql c.table (keys c.env.order c.values.impl)))).rc = a.rc := by
        simp [prepareLog, hs]
      apply Follows.prepare rfl
      rw [hrc]
      cases a with
      | some f =>
        rw [if_pos (show Answer.rc (some f) ≠ SQLITE_OK from f.failed.1)]
        exact .message (.unlock .done)
      | none =>
        rw [if_neg (show ¬Answer.rc none ≠ SQLITE_OK from not_not.mpr rfl)]
        exact bindLoop_follows p _ _ _ (.unlock .done)
          (fun rc => .act (a := .sqlite (.call .step)) rc (.unlock .done)) _ _ _

/-- A query goes on after a call that fails. -/
theorem bindArgs_follows (env : QueryEnv) (stmt : Option ℕ) {out : Program}
    (hout : Follows out []) (i : ℕ) (args : List Bytes) (c : Connection σ) :
    Follows (HandleThreads.bindArgs out args) (results (bindArgsLog env stmt i args c)) := by
  induction args generalizing i c with
  | nil => exact hout
  | cons str args ih => exact .bind rfl (ih (i + 1) _)

theorem query_follows (h : Impl σ) (sql : Bytes) (args : List Bytes) (env : QueryEnv) :
    Follows (HandleThreads.query args .done) (results (queryLog h sql args env)) := by
  have hargs : ∀ stmt (c : Connection σ), Follows (HandleThreads.bindArgs (.unlock .done) args)
      (results (bindArgsLog env stmt 0 args c)) := fun stmt c =>
    bindArgs_follows env stmt (.unlock .done) 0 args c
  refine .guarded (.prepare rfl ?_)
  split
  · exact .message (hargs _ _)
  · exact hargs _ _

theorem exec_follows (h : Impl σ) (sql : Bytes) (env : ExecEnv σ) :
    Follows (HandleThreads.exec sql .done) (results (execLog g h sql env)) := by
  unfold HandleThreads.exec execLog
  split
  · exact .done
  · refine .guarded (.act (a := .sqlite (.call .exec)) ((sqlite3Exec g h.db sql env).1.rc, true) ?_)
    have hchanges : Follows (.act (.sqlite .changes) fun _ => .unlock .done) [] :=
      .act (a := .sqlite .changes) SQLITE_OK (.unlock .done)
    simpa using hchanges

end Calls

section Registry

open RegistryThreads (Phase)

variable {τ σ : Type*} (d : Directory) (p : Platform)

/-- What a thread of the registry has still to do. -/
def codeOf : Phase → Program
  | .idle => .done
  | .lockToOpen _ => openDatabase .done
  | .findEntry _ => findOrOpen (.unlock .done)
  | .testExpired _ _ _ => shareEntry (.unlock .done)
  | .upgrade _ => .act .lockEntry fun _ => .unlock .done
  | .makeHandle _ => openNew (.unlock .done)
  | .register _ err _ => registerNew err (.unlock .done)
  | .unlockAndReturn _ => .unlock .done
  | .lockToDestroy _ => destructor .done
  | .closeConnection _ => closeAndSweep (.unlock .done)
  | .sweepEntries keys => sweep (.unlock .done) keys.length
  | .unlockDestroyed => .unlock .done

structure Simulates (s : RegistryThreads.State τ σ) (m : ScopedLock.State τ Method Action Answers) :
    Prop where
  mutex : m.mutex = s.mutex
  code : ∀ t, m.code t = codeOf (s.threads t).phase

variable [DecidableEq τ]

/-- The machine can get so far that the thread is at this code and nothing else has changed. -/
def Gets (s : RegistryThreads.State τ σ) (m : ScopedLock.State τ Method Action Answers) (t : τ)
    (k : Program) : Prop :=
  ∃ es, (run (next (program p)) m es).mutex = s.mutex ∧
    (run (next (program p)) m es).code = Function.update m.code t k

variable {s : RegistryThreads.State τ σ} {m : ScopedLock.State τ Method Action Answers} {t : τ}

theorem Gets.start (h : Simulates s m) {phase : Phase} (hph : (s.threads t).phase = phase) :
    Gets p s m t (codeOf phase) := by
  refine ⟨[], h.mutex, ?_⟩
  rw [← hph, ← h.code, Function.update_eq_self]
  rfl

theorem Gets.act {a : Action} {k : Answers a → Program} (h : Gets p s m t (.act a k))
    (r : Answers a) : Gets p s m t (k r) := by
  obtain ⟨es, hm, hc⟩ := h
  refine ⟨es ++ [.step t (Function.update DatabaseMutex.plain a r)], ?_⟩
  rw [run_append]
  generalize run (next (program p)) m es = n at hm hc
  have hcode : n.code t = .act a k := by rw [hc, Function.update_self]
  have hstep : run (next (program p)) n [.step t (Function.update DatabaseMutex.plain a r)] =
      { goOn n t (k r) with since := (t, a) :: n.since } := by
    simp [ScopedLock.next, ScopedLock.step, hcode]
  rw [hstep]
  exact ⟨hm, by simp [goOn, hc]⟩

theorem Gets.simulates (h : Simulates s m) (phase : Phase) {r : DatabaseSet.State σ}
    (hg : Gets p s m t (codeOf phase)) :
    ∃ es, Simulates (RegistryThreads.move s t phase r) (run (next (program p)) m es) := by
  obtain ⟨es, hm, hc⟩ := hg
  refine ⟨es, hm, fun u => ?_⟩
  rw [hc]
  by_cases hu : u = t
  · simp [RegistryThreads.move, hu]
  · simp [RegistryThreads.move, hu, h.code u]

theorem Simulates.lock (h : Simulates s m) {phase phase' : Phase}
    (hph : (s.threads t).phase = phase) (hc : codeOf phase = .lock (codeOf phase'))
    (hm : s.mutex = none) : ∃ es, Simulates
      { RegistryThreads.move s t phase' s.registry with mutex := some t }
      (run (ScopedLock.next (program p)) m es) := by
  have hcode : m.code t = .lock (codeOf phase') := by rw [h.code, hph, hc]
  have hstep : run (ScopedLock.next (program p)) m [.step t DatabaseMutex.plain] =
      { goOn m t (codeOf phase') with mutex := some t, since := [] } := by
    simp [ScopedLock.next, ScopedLock.step, hcode, h.mutex, hm]
  refine ⟨_, by rw [hstep], fun u => ?_⟩
  rw [hstep]
  by_cases hu : u = t
  · simp [RegistryThreads.move, goOn, hu]
  · simp [RegistryThreads.move, goOn, hu, h.code u]

theorem Simulates.unlock (h : Simulates s m) {phase : Phase}
    (hph : (s.threads t).phase = phase) (hc : codeOf phase = .unlock .done)
    (held : List ℕ) : ∃ es, Simulates
      ⟨s.registry, none, Function.update s.threads t ⟨.idle, held⟩⟩
      (run (ScopedLock.next (program p)) m es) := by
  have hcode : m.code t = .unlock .done := by rw [h.code, hph, hc]
  have hstep : run (ScopedLock.next (program p)) m [.step t DatabaseMutex.plain] =
      { goOn m t .done with mutex := none } := by
    simp [ScopedLock.next, ScopedLock.step, hcode]
  refine ⟨_, by rw [hstep], fun u => ?_⟩
  rw [hstep]
  by_cases hu : u = t
  · simp [goOn, hu, codeOf]
  · simp [goOn, hu, h.code u]

theorem step_simulates (h : Simulates s m) (env : OpenEnv σ) (visit : Bytes) :
    ∃ es, Simulates (RegistryThreads.step d s t env visit)
      (run (ScopedLock.next (program p)) m es) := by
  have hstay : ∃ es, Simulates s (run (ScopedLock.next (program p)) m es) := ⟨[], h⟩
  unfold RegistryThreads.step
  cases hph : (s.threads t).phase with
  | idle => exact hstay
  | lockToOpen dbPath =>
    dsimp only
    split
    · next hm => exact h.lock p hph rfl hm
    · exact hstay
  | findEntry dbPath =>
    have hs := Gets.start p h hph
    dsimp only
    split
    · split
      · exact Gets.simulates p h _ ((hs.act p true).act p true)
      · exact Gets.simulates p h _ ((hs.act p true).act p false)
    · exact Gets.simulates p h _ (hs.act p false)
  | testExpired dbPath absPath i =>
    have hs := Gets.start p h hph
    dsimp only
    split
    · exact Gets.simulates p h _ ((hs.act p true).act p ())
    · exact Gets.simulates p h _ (hs.act p false)
  | upgrade i => exact Gets.simulates p h _ ((Gets.start p h hph).act p ())
  | makeHandle dbPath =>
    have hs := (Gets.start p h hph).act p (r := SQLITE_OK)
    have hmessage := (hs.act p (r := SQLITE_OK)).act p (cStr (Impl.new env).db.errMsg)
    exact Gets.simulates p h _ hmessage
  | register dbPath err ptr =>
    have hs := Gets.start p h hph
    apply Gets.simulates p h (.unlockAndReturn (some ptr))
    by_cases he : getAbsoluteFilePath d s.registry.files dbPath ≠ [] ∧ err = []
    · have hf := hs.act p true
      rw [if_pos ⟨rfl, he.2⟩] at hf
      exact (hf.act p true).act p ()
    · have hf := hs.act p (decide (getAbsoluteFilePath d s.registry.files dbPath ≠ []))
      rw [if_neg (by simpa using he)] at hf
      exact hf
  | unlockAndReturn result => exact h.unlock p hph rfl _
  | lockToDestroy i =>
    dsimp only
    split
    · next hm => exact h.lock p hph rfl hm
    · exact hstay
  | closeConnection i =>
    have hs := (Gets.start p h hph).act p (r := SQLITE_OK)
    exact Gets.simulates p h _ (hs.act p s.registry.databaseSet.keys.length)
  | sweepEntries keys =>
    have hs := Gets.start p h hph
    dsimp only
    split
    · next hn =>
      subst hn
      exact Gets.simulates p h .unlockDestroyed hs
    · split
      · next hv =>
        have hlen : keys.length = (keys.erase visit).length + 1 := by
          rw [List.length_erase_of_mem hv]
          have := List.length_pos_of_mem hv
          omega
        rw [codeOf, hlen] at hs
        exact Gets.simulates p h (.sweepEntries (keys.erase visit)) (hs.act p false)
      · exact hstay
  | unlockDestroyed => exact h.unlock p hph rfl _

/-- A call that a thread makes, after which it is at its code. -/
theorem Simulates.call (h : Simulates s m) (hidle : (s.threads t).phase = .idle)
    (method : Method) : Gets p s m t (program p method) := by
  have hcode : m.code t = .done := by rw [h.code, hidle, codeOf]
  refine ⟨[.call t method], ?_, ?_⟩
  · simpa [ScopedLock.next, hcode, goOn] using h.mutex
  · simp [ScopedLock.next, hcode, goOn]

theorem drop_simulates (h : Simulates s m) (i : ℕ) :
    ∃ es, Simulates (RegistryThreads.drop s t i) (run (ScopedLock.next (program p)) m es) := by
  unfold RegistryThreads.drop
  split
  · next hc =>
    have hs := (h.call p hc.1 .dropHandle).act p (expired (release s.registry i) i)
    dsimp only
    obtain ⟨es, hm, hcode⟩ := hs
    refine ⟨es, hm, fun u => ?_⟩
    rw [hcode]
    by_cases hu : u = t
    · subst hu
      simp only [Function.update_self]
      cases expired (release s.registry i) i <;> rfl
    · simp [hu, h.code u]
  · exact ⟨[], h⟩

theorem next_simulates (h : Simulates s m) (e : RegistryThreads.Event τ σ) :
    ∃ es, Simulates (RegistryThreads.next d s e) (run (ScopedLock.next (program p)) m es) := by
  cases e with
  | openDatabase t dbPath =>
    unfold RegistryThreads.next
    dsimp only
    split
    · next hidle => exact Gets.simulates p h (.lockToOpen dbPath) (h.call p hidle .openDatabase)
    · exact ⟨[], h⟩
  | step t env visit => exact step_simulates d p h env visit
  | drop t i => exact drop_simulates p h i

/-- Every run of the registry's threads is a run of their code. -/
theorem registry_follows (files : Bytes → Bool) (es : List (RegistryThreads.Event τ σ)) :
    ∃ es', Simulates (run (RegistryThreads.next d) (RegistryThreads.initial files) es)
      (run (ScopedLock.next (program p)) ScopedLock.initial es') := by
  induction es using List.reverseRecOn with
  | nil => exact ⟨[], rfl, fun _ => rfl⟩
  | append_singleton es e ih =>
    obtain ⟨es', h⟩ := ih
    obtain ⟨fs, hf⟩ := next_simulates d p h e
    exact ⟨es' ++ fs, by rwa [run_append, run_append]⟩

end Registry

end CodePaths
