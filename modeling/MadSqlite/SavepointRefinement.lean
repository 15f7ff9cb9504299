import MadSqlite.NestedTransactions
import MadSqlite.TransactionRefinement

/-! # Texts with transaction control

`exec` drops a text that is BEGIN, COMMIT or ROLLBACK alone and hands every other one over, so a
caller can open savepoints, and transactions the handle does not know of. With whatever control
there is in the texts, the handle is a machine of `NestedTransactions`, for statements that
SQLite executes. -/
namespace SavepointRefinement

open CppStrings ContentValues SqliteCommands HandleTable TransactionalStore
open SqliteConnection SqliteConnection.Connection SqliteExec MadDatabase Runs
open HandleCalls hiding Call next
open TransactionRefinement (Call Holds RanServed ranWork)
open NestedTransactions

variable {σ : Type*} (p : Platform) (g : Grammar)

/-- Names of savepoints are compared without regard to case. -/
def fold (name : Bytes) : Bytes := name.map toupper

def controlEvent : TransactionControl → Event Bytes σ
  | .begin _ => .begin
  | .commit => .commit
  | .rollback => .rollback
  | .savepoint name => .savepoint (fold name)
  | .release name => .release (fold name)
  | .rollbackTo name => .rollbackTo (fold name)

/-- What a statement does, and whether the next one is executed after it. -/
def statementStep (writes : Bool) (r : Ran σ) : Event Bytes σ × Bool :=
  if writes = true ∧ r.endsTransaction true = true then (.rollback, false)
  else (.change (ranWork writes r), r.error.isNone)

def execSteps (env : ExecEnv σ) : ℕ → List Command → List (Event Bytes σ × Bool)
  | _, [] | _, .syntaxError :: _ => []
  | i, .control t :: cmds =>
    match (env i).prepare, (env i).progress with
    | none, .ran _ => (controlEvent t, true) :: execSteps env (i + 1) cmds
    | _, _ => []
  | i, .other _ :: cmds =>
    match (env i).prepare, (env i).progress with
    | none, .ran r => statementStep (env i).writes r :: execSteps env (i + 1) cmds
    | _, _ => []

def textSteps (sql : Bytes) (env : ExecEnv σ) : List (Event Bytes σ × Bool) :=
  execSteps env 0 (sqlCommands g sql)

/-- What a call asks of SQLite, by the flag of the handle. -/
def steps (flag : Bool) : Call σ → List (Event Bytes σ × Bool)
  | .begin env => if flag then [] else textSteps g (ascii "BEGIN") env
  | .commit env => if flag then textSteps g (ascii "COMMIT") env else []
  | .rollback env => if flag then textSteps g (ascii "ROLLBACK") env else []
  | .on (.insert c) => (insertRan c).toList.map (statementStep true)
  | .on (.exec sql env _) =>
    if upperCaseString sql ∈ transactionKeyWords then [] else textSteps g sql env
  | .on (.query _ _ _) => []

def nextFlag (flag : Bool) : Call σ → Bool
  | .begin _ => true
  | .commit _ | .rollback _ => false
  | .on _ => flag

/-- The events of a run, from the flag and the content that it starts with. -/
def history : Bool → State Bytes σ → List (Call σ) → List (Event Bytes σ)
  | _, _, [] => []
  | flag, s, c :: calls =>
    let events := accepted s (steps g flag c)
    events ++ history (nextFlag flag c) (run next s events) calls

/-- A statement keeps its changes for good or takes them back, or rolls everything back. -/
def StatementServed (writes : Bool) (r : Ran σ) : Prop :=
  RanServed writes r ∨ (writes = true ∧ r.endsTransaction true = true ∧ ¬r.KeepsWork)

/-- Nothing goes wrong with a savepoint or with a commit. -/
def ControlServed (r : Ran σ) : Prop := r.commit = none ∧ r.closeStatement = none

def ExecServed (env : ExecEnv σ) : ℕ → List Command → Prop
  | _, [] | _, .syntaxError :: _ => True
  | i, .control _ :: cmds =>
    match (env i).prepare, (env i).progress with
    | none, .ran r => ControlServed r ∧ ExecServed env (i + 1) cmds
    | _, _ => True
  | i, .other _ :: cmds =>
    match (env i).prepare, (env i).progress with
    | none, .ran r =>
      StatementServed (env i).writes r ∧ (r.error = none → ExecServed env (i + 1) cmds)
    | _, _ => True

def TextServed (sql : Bytes) (env : ExecEnv σ) : Prop := ExecServed env 0 (sqlCommands g sql)

def Served : Call σ → Prop
  | .begin env => TextServed g (ascii "BEGIN") env
  | .commit env => TextServed g (ascii "COMMIT") env
  | .rollback env => TextServed g (ascii "ROLLBACK") env
  | .on (.insert c) => ¬LockRefused c ∧ ∀ r, insertRan c = some r → StatementServed true r
  | .on (.exec sql env _) => upperCaseString sql ∈ transactionKeyWords ∨ TextServed g sql env
  | .on (.query _ _ _) => True

def frameOf (sp : Savepoint σ) : Frame Bytes σ := ⟨some (fold sp.name), sp.view⟩

/-- The frame of a BEGIN, which is no savepoint. -/
def outer (c : Connection σ) : List (Frame Bytes σ) :=
  if c.autoCommit = true ∨ c.isTransactionSavepoint = true then [] else [⟨none, c.store.file⟩]

def framesOf (c : Connection σ) : List (Frame Bytes σ) := c.savepoints.map frameOf ++ outer c

structure Represents (c : Connection σ) (s : State Bytes σ) : Prop where
  holds : Holds c s.flat
  frames : s.frames = framesOf c
  unwritten : c.store.writing = false → ∀ f ∈ s.frames, f.content = c.store.file
  settled : ∀ sp ∈ c.savepoints, sp.nDeferredCons = 0

/-- The parts of a connection that only transaction control changes. -/
structure Keeps (c d : Connection σ) : Prop where
  savepoints : d.savepoints = c.savepoints
  isTransactionSavepoint : d.isTransactionSavepoint = c.isTransactionSavepoint
  writing : c.autoCommit = false → c.store.writing = true → d.store.writing = true

section Frame

variable {c d e : Connection σ} {s : State Bytes σ}

theorem Keeps.refl (c : Connection σ) : Keeps c c := ⟨rfl, rfl, fun _ hw => hw⟩

theorem Keeps.setChanges (hk : Keeps c d) (counts : Bool) (n : ℤ) :
    Keeps c (SqliteConnection.setChanges counts n d) := by
  obtain ⟨k, hn⟩ := setChanges_eq counts n d
  exact hn ▸ ⟨hk.savepoints, hk.isTransactionSavepoint, hk.writing⟩

theorem Represents.autoCommit_iff (hr : Represents c s) : c.autoCommit = true ↔ s.frames = [] := by
  rw [hr.holds.autoCommit, State.flat]
  by_cases hn : s.frames = [] <;> simp [hn]

theorem Represents.autoCommit_of_open (hr : Represents c s) (hn : s.frames ≠ []) :
    c.autoCommit = false := by
  rw [← Bool.not_eq_true, hr.autoCommit_iff]
  exact hn

theorem Represents.view (hr : Represents c s) : c.store.view = s.current := by
  rw [hr.holds.view, flat_view]

theorem Represents.file (hr : Represents c s) : c.store.file = s.durable := hr.holds.file

/-- A change of the content, in a transaction or outside of one. -/
theorem Represents.change (hr : Represents c s) (hk : Keeps c d) {work : σ → σ}
    (hd : Holds d (Transactions.next s.flat (.change work))) :
    Represents d (next s (.change work)) := by
  have hflat : (next s (.change work)).flat = Transactions.next s.flat (.change work) :=
    flat_change s work
  have hauto : d.autoCommit = c.autoCommit := by
    rw [hd.autoCommit, hr.holds.autoCommit, ← Option.not_isSome, ← Option.not_isSome,
      Transactions.next_change_pending]
  have hfile (hn : s.frames ≠ []) : d.store.file = c.store.file := by
    rw [hd.file, hr.holds.file, ← hflat]
    exact durable_suffix (List.suffix_refl _) hn
  refine ⟨hflat ▸ hd, ?_, ?_, ?_⟩
  · have hf : framesOf d = framesOf c := by
      unfold framesOf outer
      rw [hk.savepoints, hk.isTransactionSavepoint, hauto]
      split
      · rfl
      · next hc =>
        rw [hfile fun hn => hc (.inl (hr.autoCommit_iff.mpr hn))]
    exact hr.frames.trans hf.symm
  · intro hw f hf
    have hn : s.frames ≠ [] := List.ne_nil_of_mem hf
    have hc := hr.autoCommit_of_open hn
    rw [hfile hn]
    refine hr.unwritten ?_ f hf
    by_contra hwc
    rw [hk.writing hc (Bool.eq_true_of_not_eq_false hwc)] at hw
    cases hw
  · rw [hk.savepoints]
    exact hr.settled

theorem next_change_id (s : State Bytes σ) : next s (.change id) = s := rfl

theorem Represents.same (hr : Represents c s) (hk : Keeps c d) (hd : Holds d s.flat) :
    Represents d s := by
  have hc := hr.change hk hd.change_id
  rwa [next_change_id] at hc

/-- Everything that is open ends, and the content is one of the two. -/
theorem Represents.ended (hr : Represents c s) {content : σ} (ha : d.autoCommit = true)
    (hfile : d.store.file = content) (hview : d.store.view = content)
    (hw : d.store.writing = false) (hsp : d.savepoints = []) (hstmts : d.stmts = c.stmts)
    (hd : d.nDeferredCons = 0) : Represents d ⟨content, []⟩ := by
  have ho : d.otherWriters = 0 := (congrArg (Table.count _) hstmts).trans hr.holds.otherWriters
  refine ⟨⟨ha, hfile, hview, fun _ => hw, ho, hd⟩, ?_, by simp, by simp [hsp]⟩
  simp [framesOf, outer, hsp, ha]

end Frame

/-- A command has done what the machine does, and fails where the next one is not reached. -/
structure Does (r : Answer × Connection σ) (s : State Bytes σ) (step : Event Bytes σ × Bool) :
    Prop where
  state : Represents r.2 (next s step.1)
  goesOn : r.1 = none ↔ (attempt s step.1).isSome = true ∧ step.2 = true

section Control

variable {c d : Connection σ} {s s' : State Bytes σ} {e : Event Bytes σ}

theorem does_refused (ha : attempt s e = none) (f : Failure) (hr : Represents d s) :
    Does (some f, d) s (e, true) := by
  refine ⟨?_, by simp [ha]⟩
  rw [next, ha]
  exact hr

theorem does_accepted (ha : attempt s e = some s') (hr : Represents d s') :
    Does (none, d) s (e, true) := by
  refine ⟨?_, by simp [ha]⟩
  rw [next, ha]
  exact hr

theorem Represents.outside (hr : Represents c s) (hn : s.frames = []) :
    c.store.file = s.current ∧ c.store.view = s.current ∧ c.savepoints = [] := by
  have hf := hr.file
  have hsp := hr.frames
  rw [State.durable, hn] at hf
  rw [hn, framesOf, eq_comm, List.append_eq_nil_iff, List.map_eq_nil_iff] at hsp
  exact ⟨hf, hr.view, hsp.1⟩

/-- The lock of an IMMEDIATE transaction opens the write transaction without a change. -/
theorem lockNow_eq (type : BeginType) (c : Connection σ) : ∃ store : Store σ,
    lockNow type c = { c with store := store } ∧ store.file = c.store.file ∧
      store.view = c.store.view ∧ (c.store.writing = true → store.writing = true) := by
  unfold lockNow
  split
  · exact ⟨c.store, rfl, rfl, rfl, id⟩
  · exact ⟨c.store.write id, rfl, rfl, rfl, fun _ => rfl⟩

theorem begin_does (hr : Represents c s) (type : BeginType) (commit : Answer) :
    Does (opAutoCommit (lockNow type c) false false commit) s (.begin, true) := by
  obtain ⟨store, hl, hfile, hview, hwriting⟩ := lockNow_eq type c
  have ho : ({ c with store := store } : Connection σ).otherWriters = 0 := hr.holds.otherWriters
  have hd := hr.holds.noDeferred
  rw [hl]
  by_cases hn : s.frames = []
  · obtain ⟨hf, hv, -⟩ := hr.outside hn
    rw [opAutoCommit_begin (c := { c with store := store }) (hr.autoCommit_iff.mpr hn) hd]
    refine does_accepted (if_pos hn) ⟨?_, ?_, ?_, nofun⟩
    · exact ⟨rfl, hfile.trans hf, hview.trans hv, nofun, ho, hd⟩
    · simp [framesOf, outer, sqlite3CloseSavepoints, hfile, hf]
    · simp [sqlite3CloseSavepoints, hfile, hf]
  · have hc := hr.autoCommit_of_open hn
    obtain ⟨f, hf⟩ := opAutoCommit_same (c := { c with store := store }) hc.symm false commit
    rw [hf]
    refine does_refused (e := .begin) (if_neg hn) f (hr.same ⟨rfl, rfl, fun _ => hwriting⟩ ?_)
    have hs := hr.holds
    refine ⟨hs.autoCommit, hfile.trans hs.file, hview.trans hs.view, fun hp => ?_, ho, hd⟩
    simp [State.flat, hn] at hp

theorem commit_does (hr : Represents c s) :
    Does (opAutoCommit c true false none) s (.commit, true) := by
  by_cases hn : s.frames = []
  · obtain ⟨f, ho⟩ := opAutoCommit_same (hr.autoCommit_iff.mpr hn).symm false none
    rw [ho]
    exact does_refused (e := .commit) (if_pos hn) f hr
  · have hc := hr.autoCommit_of_open hn
    have hv : vdbeCommit c none = none := by simp [vdbeCommit]
    have hends : CommitEnds c none := ⟨hr.holds.otherWriters, hr.holds.noDeferred, by simp [hv]⟩
    rw [opAutoCommit_commit_ends hc hends, hv, if_pos rfl]
    exact does_accepted (if_neg hn) (hr.ended rfl hr.view hr.view rfl rfl rfl rfl)

theorem rollback_does (hr : Represents c s) :
    Does (opAutoCommit c true true none) s (.rollback, true) := by
  by_cases hn : s.frames = []
  · obtain ⟨f, ho⟩ := opAutoCommit_same (hr.autoCommit_iff.mpr hn).symm true none
    rw [ho]
    exact does_refused (e := .rollback) (if_pos hn) f hr
  · have hc := hr.autoCommit_of_open hn
    rw [opAutoCommit_rollback hc]
    exact does_accepted (if_neg hn) (hr.ended rfl hr.file hr.file rfl rfl rfl rfl)

theorem find_framesOf (c : Connection σ) (name : Bytes) :
    find (fold name) (framesOf c) =
      match findSavepoint name c.savepoints with
      | [] => []
      | sp :: below => (sp :: below).map frameOf ++ outer c := by
  unfold framesOf findSavepoint find
  induction c.savepoints with
  | nil =>
    unfold outer
    split <;> rfl
  | cons sp sps ih =>
    rw [List.map_cons, List.cons_append, List.dropWhile_cons, List.dropWhile_cons]
    by_cases hname : fold sp.name = fold name
    · have hsame : sameName sp.name name = true := decide_eq_true hname
      simp [frameOf, hname, hsame]
    · have hsame : sameName sp.name name = false := decide_eq_false hname
      simpa [frameOf, hname, hsame] using ih

theorem savepoint_does (hr : Represents c s) (name : Bytes) :
    Does (opSavepointBegin c name) s (.savepoint (fold name), true) := by
  have hd := hr.holds
  have ho : ¬0 < c.otherWriters := by simp [hd.otherWriters]
  rw [opSavepointBegin, if_neg ho]
  have hdurable := durable_push s (some (fold name))
  refine does_accepted rfl ⟨?_, ?_, ?_, ?_⟩
  · rw [State.flat, hdurable, if_neg (List.cons_ne_nil _ _)]
    exact ⟨rfl, hr.file, hr.view, fun hp => (by cases hp), hd.otherWriters,
      hd.noDeferred⟩
  · have hview : frameOf ⟨name, c.store.view, c.nDeferredCons⟩ =
        ⟨some (fold name), s.current⟩ := by
      rw [frameOf, hr.view]
    rw [hr.frames, framesOf, framesOf, List.map_cons, List.cons_append, hview]
    cases hc : c.autoCommit with
    | false => simp [outer, hc]
    | true => simp [outer, hc]
  · intro hw f hf
    rcases List.mem_cons.mp hf with rfl | hf
    · exact hr.view.symm.trans (c.store.clean hw)
    · exact hr.unwritten hw f hf
  · intro sp hsp
    rcases List.mem_cons.mp hsp with rfl | hsp
    · exact hd.noDeferred
    · exact hr.settled sp hsp

/-- Back to savepoints that were open under others, or to the transaction they are in. -/
theorem Represents.back (hr : Represents c s) {sps : List (Savepoint σ)} {store : Store σ} {n : ℕ}
    {content : σ} (hsps : sps <:+ c.savepoints) (hn : sps.map frameOf ++ outer c ≠ [])
    (hfile : store.file = c.store.file) (hview : store.view = content)
    (hw : store.writing = c.store.writing) (hd : n = 0) :
    Represents { c with store := store, nDeferredCons := n, savepoints := sps }
      ⟨content, sps.map frameOf ++ outer c⟩ := by
  have hsuffix : sps.map frameOf ++ outer c <:+ s.frames := by
    obtain ⟨upper, ho⟩ := hsps
    refine ⟨upper.map frameOf, ?_⟩
    rw [hr.frames, framesOf, ← ho, List.map_append, List.append_assoc]
  have hopen : s.frames ≠ [] := fun he => hn (List.suffix_nil.mp (he ▸ hsuffix))
  have hc := hr.autoCommit_of_open hopen
  have hdurable : State.durable ⟨content, sps.map frameOf ++ outer c⟩ = s.durable :=
    durable_suffix hsuffix hn
  refine ⟨?_, ?_, ?_, fun sp hsp => hr.settled sp (hsps.subset hsp)⟩
  · rw [State.flat, hdurable, if_neg hn]
    exact ⟨hc, hfile.trans hr.file, hview, nofun, hr.holds.otherWriters, hd⟩
  · have houter : outer { c with store := store, nDeferredCons := n, savepoints := sps } =
        outer c := by
      simp only [outer, hfile]
    rw [framesOf, houter]
  · intro hwriting f hf
    exact (hr.unwritten (hw.symm.trans hwriting) f (hsuffix.subset hf)).trans hfile.symm

theorem findSavepoint_suffix (name : Bytes) (sps : List (Savepoint σ)) :
    findSavepoint name sps <:+ sps := List.dropWhile_suffix _

theorem release_does (hr : Represents c s) (name : Bytes) :
    Does (opSavepointEnd c true name none none) s (.release (fold name), true) := by
  have hfind := find_framesOf c name
  have hsuffix := findSavepoint_suffix name c.savepoints
  have ho := hr.holds.otherWriters
  have hd := hr.holds.noDeferred
  rw [← hr.frames] at hfind
  unfold opSavepointEnd
  cases hs : findSavepoint name c.savepoints with
  | nil =>
    rw [hs] at hfind
    exact does_refused (e := .release (fold name)) (by rw [attempt, hfind]) _ hr
  | cons sp below =>
    rw [hs] at hfind hsuffix
    have hacc : attempt s (.release (fold name)) =
        some ⟨s.current, below.map frameOf ++ outer c⟩ := by
      rw [attempt, hfind]
      rfl
    simp only [ho, lt_irrefl, if_false, and_true, if_true]
    by_cases ht : below = [] ∧ c.isTransactionSavepoint = true
    · -- The outermost savepoint is the transaction, and its release is the commit.
      have hk : checkFk c = none := by simp [checkFk, hd]
      have hcode : commitCode { c with autoCommit := true } none = none :=
        commitCode_eq_none.mpr ⟨hd, by simp [vdbeCommit]⟩
      have hhalt := controlHalt_autocommit (c := { c with autoCommit := true }) rfl ho none
      have houter : outer c = [] := if_pos (.inr ht.2)
      rw [if_pos ht, if_neg (not_not.mpr hk), hhalt, hcode]
      refine does_accepted hacc ?_
      rw [ht.1, houter]
      exact hr.ended rfl hr.view hr.view rfl rfl rfl rfl
    · have hopen : s.frames ≠ [] := by
        rw [hr.frames, framesOf]
        intro he
        rw [List.append_eq_nil_iff, List.map_eq_nil_iff] at he
        rw [he.1] at hsuffix
        exact List.cons_ne_nil sp below (List.suffix_nil.mp hsuffix)
      rw [if_neg ht]
      refine does_accepted hacc
        (hr.back ((List.suffix_cons sp below).trans hsuffix) (fun he => ht ?_) rfl hr.view rfl hd)
      simpa [outer, hr.autoCommit_of_open hopen] using he

theorem rollbackTo_does (hr : Represents c s) (name : Bytes) :
    Does (opSavepointEnd c false name none none) s (.rollbackTo (fold name), true) := by
  have hfind := find_framesOf c name
  have hsuffix := findSavepoint_suffix name c.savepoints
  rw [← hr.frames] at hfind
  unfold opSavepointEnd
  cases hs : findSavepoint name c.savepoints with
  | nil =>
    rw [hs] at hfind
    exact does_refused (e := .rollbackTo (fold name)) (by rw [attempt, hfind]) _ hr
  | cons sp below =>
    rw [hs] at hfind hsuffix
    have hm : sp ∈ c.savepoints := hsuffix.subset List.mem_cons_self
    have hacc : attempt s (.rollbackTo (fold name)) =
        some ⟨sp.view, (sp :: below).map frameOf ++ outer c⟩ := by
      rw [attempt, hfind]
      rfl
    simp only [Bool.false_eq_true, and_false, if_false]
    refine does_accepted hacc (hr.back hsuffix (by simp) (by simp) ?_ (by simp) ?_)
    · cases hw : c.store.writing with
      | true => simp [Store.restore, hw]
      | false =>
        have hf : frameOf sp ∈ s.frames := by
          rw [hr.frames, framesOf]
          exact List.mem_append_left _ (List.mem_map_of_mem hm)
        simp only [Store.restore, hw, Bool.false_eq_true, if_false]
        exact (c.store.clean hw).trans (hr.unwritten hw _ hf).symm
    · exact hr.settled sp hm

theorem control_does (hr : Represents c s) (t : TransactionControl) {r : Ran σ}
    (hc : ControlServed r) : Does (runControl c t r.toHalt) s (controlEvent t, true) := by
  obtain ⟨hcommit, hclose⟩ := hc
  cases t with
  | begin type => exact begin_does hr type r.commit
  | commit =>
    rw [runControl, hcommit]
    exact commit_does hr
  | rollback =>
    rw [runControl, hcommit]
    exact rollback_does hr
  | savepoint name => exact savepoint_does hr name
  | release name =>
    rw [runControl, hcommit, hclose]
    exact release_does hr name
  | rollbackTo name =>
    rw [runControl, hcommit, hclose]
    exact rollbackTo_does hr name

end Control

section Statements

variable {before c d : Connection σ} {s : State Bytes σ} {a : Answer}

theorem effect_keeps {h : Halt} (he : HaltEffect before c h a d)
    (hends : h.endsTransaction true = false) : Keeps c d := by
  cases he with
  | committed hc => exact ⟨rfl, rfl, fun hf => by simp [hc] at hf⟩
  | rolledBack hc => exact ⟨rfl, rfl, fun hf => by simp [hc] at hf⟩
  | ended he => simp [hends] at he
  | kept => exact .refl _
  | undone => exact ⟨rfl, rfl, fun _ hw => by simpa using hw⟩

theorem reading_keeps (c : Connection σ) {stmt : Stmt} {h : Halt} (hw : stmt.writes = false)
    (hends : h.endsTransaction false = false) : Keeps c (sqlite3VdbeHalt c c stmt h).2.2 := by
  simp only [Halt.endsTransaction, Bool.or_eq_false_iff, decide_eq_false_iff_not] at hends
  obtain ⟨⟨hemergency, hop⟩, hclose⟩ := hends
  obtain ⟨op, ho⟩ := Option.ne_none_iff_exists'.mp hop
  unfold sqlite3VdbeHalt
  rw [hw, hemergency, if_neg Bool.false_ne_true]
  split
  · next hc =>
    have hkeeps {d : Connection σ} (hsp : d.savepoints = c.savepoints)
        (hts : d.isTransactionSavepoint = c.isTransactionSavepoint) : Keeps c d :=
      ⟨hsp, hts, fun hf => by simp [hc.1] at hf⟩
    unfold haltTransaction
    dsimp only
    split_ifs
    · exact .refl c
    · exact Keeps.setChanges (d := sqlite3RollbackAll c) (hkeeps rfl rfl) _ _
    · exact Keeps.setChanges (d := commitDone c) (hkeeps rfl rfl) _ _
    · exact Keeps.setChanges (d := sqlite3RollbackAll c) (hkeeps rfl rfl) _ _
  · rw [haltStatement, hw, ho]
    dsimp only
    rw [if_neg (by simpa using hclose)]
    refine Keeps.setChanges ?_ _ _
    split
    · exact ⟨rfl, rfl, fun _ hw => by simpa using hw⟩
    · exact .refl c

/-- A failing statement that rolls everything back. -/
theorem ended_represents (hr : Represents before s) {stmt : Stmt} {r : Ran σ}
    (hw : stmt.writes = true) (hends : r.endsTransaction true = true) (hk : ¬r.KeepsWork)
    (he : HaltEffect before (runProgram before stmt r) r.toHalt a d) :
    Represents d ⟨s.durable, []⟩ ∧ a ≠ none := by
  have hrun : runProgram before stmt r =
      { before with store := before.store.write r.work, nDeferredCons := r.deferred } := by
    rw [runProgram, if_pos hw]
  rw [hrun] at he
  cases he with
  | committed _ _ hk' => exact absurd hk' hk
  | rolledBack hc =>
    have hn := hr.autoCommit_iff.mp hc
    obtain ⟨-, -, hsp⟩ := hr.outside hn
    exact ⟨hr.ended hc hr.file hr.file rfl hsp rfl rfl, Option.some_ne_none _⟩
  | ended => exact ⟨hr.ended rfl hr.file hr.file rfl rfl rfl rfl, Option.some_ne_none _⟩
  | kept _ he => simp [hends] at he
  | undone _ he => simp [hends] at he

theorem Keeps.trans (hc : Keeps before c) (hd : Keeps c d) (ha : c.autoCommit = before.autoCommit) :
    Keeps before d :=
  ⟨hd.savepoints.trans hc.savepoints,
    hd.isTransactionSavepoint.trans hc.isTransactionSavepoint,
    fun hf hw => hd.writing (ha.trans hf) (hc.writing hf hw)⟩

theorem runProgram_keeps (c : Connection σ) (stmt : Stmt) (r : Ran σ) :
    Keeps c (runProgram c stmt r) := by
  unfold runProgram
  split
  · exact ⟨rfl, rfl, fun _ _ => rfl⟩
  · exact .refl c

/-- A writing statement is executed as the machine has it. -/
theorem writing_does (hr : Represents before s) {stmt : Stmt} {r : Ran σ}
    (hw : stmt.writes = true) (hs : StatementServed true r)
    (he : HaltEffect before (runProgram before stmt r) r.toHalt a d) :
    Does (a, d) s (statementStep true r) := by
  rcases hs with hs | ⟨-, hends, hk⟩
  · obtain ⟨hd, ha⟩ := TransactionRefinement.halt_writing hr.holds hw hs he
    have hauto : (runProgram before stmt r).autoCommit = before.autoCommit := by
      simp [runProgram, hw]
    have hkeeps := (runProgram_keeps before stmt r).trans (effect_keeps he hs.1) hauto
    rw [statementStep, if_neg (by simp [hs.1])]
    exact ⟨hr.change hkeeps hd, by simp [ha, attempt]⟩
  · obtain ⟨hd, ha⟩ := ended_represents hr hw hends hk he
    have hnext : next s .rollback = ⟨s.durable, []⟩ := by
      obtain ⟨current, _ | ⟨f, below⟩⟩ := s <;> rfl
    rw [statementStep, if_pos ⟨rfl, hends⟩]
    refine ⟨?_, by simpa using ha⟩
    rw [hnext]
    exact hd

theorem statement_does (hr : Represents c s) (stmt : Stmt) {r : Ran σ}
    (hs : StatementServed stmt.writes r) : ∃ a halted d,
      sqlite3VdbeHalt c (runProgram c stmt r) stmt r.toHalt = (a, halted, d) ∧
        Does (a, d) s (statementStep stmt.writes r) := by
  cases hw : stmt.writes with
  | true =>
    rw [hw] at hs
    obtain ⟨a, d, n, he, hd⟩ := sqlite3VdbeHalt_effect c (runProgram c stmt r) r.toHalt hw
    obtain ⟨hh, hon⟩ := writing_does hr hw hs he
    exact ⟨a, true, _, hd, hh.same ((Keeps.refl d).setChanges _ _) (hh.holds.setChanges _ _), hon⟩
  | false =>
    rw [hw] at hs
    have hends := (hs.resolve_right fun he => Bool.false_ne_true he.1).1
    have hrun : runProgram c stmt r = c := by simp [runProgram, hw]
    have hkeeps := reading_keeps c hw hends
    obtain ⟨halted, d, hd, hh⟩ := TransactionRefinement.halt_reading hr.holds hw hends
    rw [hd] at hkeeps
    rw [hrun]
    refine ⟨r.error, halted, d, hd, ?_, ?_⟩
    · exact hr.same hkeeps hh
    · simp [statementStep, attempt]

theorem statementStep_goesOn {writes : Bool} {r : Ran σ}
    (h : (statementStep writes r).2 = true) : r.error = none := by
  unfold statementStep at h
  split at h
  · cases h
  · exact Option.isNone_iff_eq_none.mp h

/-- A statement that waits for a lock is finalised and leaves everything as it is. -/
theorem lockBusy_represents (hr : Represents c s) (stmt : Stmt) (msg : Bytes) : Represents
    (sqlite3VdbeHalt c c stmt ⟨some (busy msg), .abort, false, 0, none, none⟩).2.2 s := by
  refine hr.same ?_ (TransactionRefinement.lockBusy_holds hr.holds stmt msg)
  cases hw : stmt.writes with
  | false => exact reading_keeps c hw rfl
  | true =>
    obtain ⟨a, d, n, he, hd⟩ := sqlite3VdbeHalt_effect c c
      ⟨some (busy msg), .abort, false, 0, none, none⟩ hw
    rw [hd]
    exact (effect_keeps he rfl).setChanges _ _

theorem Does.followed {env : ExecEnv σ} {i : ℕ} {cmds : List Command}
    {step : Event Bytes σ × Bool} {steps : List (Event Bytes σ × Bool)} (hd : Does (a, d) s step)
    (ih : a = none → step.2 = true → Represents (execCommands env i cmds d).2
      (run next (next s step.1) (accepted (next s step.1) steps))) :
    Represents (match ((a, d) : Answer × Connection σ) with
      | (none, d) => execCommands env i cmds d
      | (some f, d) => (some f, d)).2 (run next s (accepted s (step :: steps))) := by
  obtain ⟨e, goesOn⟩ := step
  rw [run_accepted]
  cases a with
  | none =>
    have hon := hd.goesOn.mp rfl
    rw [if_pos hon]
    exact ih rfl hon.2
  | some f =>
    rw [if_neg fun hon => Option.some_ne_none f (hd.goesOn.mpr hon)]
    exact hd.state

theorem execCommands_represents (env : ExecEnv σ) {cmds : List Command} {i : ℕ}
    (hr : Represents c s) (hc : ExecServed env i cmds) : Represents (execCommands env i cmds c).2
      (run next s (accepted s (execSteps env i cmds))) := by
  induction cmds generalizing i c s with
  | nil => exact hr
  | cons cmd cmds ih =>
    cases cmd with
    | syntaxError =>
      obtain ⟨f, hf⟩ : ∃ f, execCommand c .syntaxError (env i) = (some f, c) := by
        cases hp : (env i).prepare <;> exact ⟨_, by simp only [execCommand, hp]; rfl⟩
      simp only [execCommands, hf]
      exact hr
    | control t =>
      simp only [ExecServed] at hc
      simp only [execCommands, execSteps]
      cases hp : (env i).prepare with
      | some f =>
        simp only [execCommand, hp]
        exact hr
      | none =>
        cases hq : (env i).progress with
        | notStarted f =>
          simp only [execCommand, hp, hq]
          exact hr
        | lockBusy msg =>
          simp only [execCommand, hp, hq]
          exact hr
        | ran r =>
          rw [hp, hq] at hc
          have hd := control_does hr t hc.1
          simp only [execCommand, hp, hq]
          exact hd.followed fun _ _ => ih hd.state hc.2
    | other ts =>
      simp only [ExecServed] at hc
      simp only [execCommands, execSteps]
      cases hp : (env i).prepare with
      | some f =>
        simp only [execCommand, hp]
        exact hr
      | none =>
        cases hq : (env i).progress with
        | notStarted f =>
          simp only [execCommand, hp, hq]
          exact hr
        | lockBusy msg =>
          simp only [execCommand, hp, hq]
          exact lockBusy_represents hr _ msg
        | ran r =>
          rw [hp, hq] at hc
          let stmt : Stmt := ⟨[], [], (env i).writes, (env i).counts, false⟩
          obtain ⟨a, halted, d, hh, hd⟩ := statement_does hr stmt hc.1
          simp only [execCommand, hp, hq]
          rw [hh]
          exact hd.followed fun _ hon => ih hd.state (hc.2 (statementStep_goesOn hon))

end Statements

section Calls

variable {h : Impl σ} {c : Connection σ} {s : State Bytes σ}

theorem Represents.errMsg (hr : Represents c s) (m : Bytes) :
    Represents { c with errMsg := m } s :=
  hr.same ⟨rfl, rfl, fun _ hw => hw⟩ (hr.holds.errMsg m)

theorem exec_represents (hr : Represents h.db s) {sql : Bytes} {env : ExecEnv σ}
    (hc : TextServed g sql env) : Represents (execInternal g h sql env).2.db
      (run next s (accepted s (textSteps g sql env))) :=
  (execCommands_represents env (hr.errMsg msgOk) hc).errMsg _

theorem insert_represents (hr : Represents h.db s) {c : InsertCall σ} (hl : ¬LockRefused c)
    (hc : ∀ r, insertRan c = some r → StatementServed true r) :
    Represents (insertNext p h c).db
      (run next s (accepted s ((insertRan c).toList.map (statementStep true)))) := by
  unfold insertNext
  cases hran : insertRan c with
  | none =>
    obtain ⟨b, t, m, hi, -, -, ho⟩ := insert_not_ran p h hran
    rw [if_neg hl, Nat.add_zero] at ho
    rw [hi]
    exact hr.same ⟨rfl, rfl, fun _ hw => hw⟩ ((hr.holds.stmts ho).errMsg m)
  | some r =>
    obtain ⟨a, d, n, m, he, hi⟩ := insert_ran p h hran
    have hstmt : Represents (withStmt h.db (insertStmt c.table c.values.impl c.env)) s :=
      hr.same ⟨rfl, rfl, fun _ hw => hw⟩ (hr.holds.withStmt rfl)
    have hd := writing_does hstmt rfl (hc r hran) (TransactionRefinement.halt_of_effect he)
    rw [hi, Option.toList_some, List.map_singleton, run_accepted_one]
    exact hd.state.same ⟨rfl, rfl, fun _ hw => hw⟩ ((hd.state.holds.nChange n).errMsg m)

theorem bindArgs_keeps (env : QueryEnv) (stmt : Option ℕ) (i : ℕ) (args : List Bytes)
    {c d : Connection σ} (hk : Keeps c d) : Keeps c (bindArgs env stmt i args d) := by
  induction args generalizing i d with
  | nil => exact hk
  | cons str args ih =>
    refine ih (i + 1) ?_
    unfold sqlite3Bind
    split
    · exact hk
    · exact ⟨hk.savepoints, hk.isTransactionSavepoint, hk.writing⟩
    · exact ⟨hk.savepoints, hk.isTransactionSavepoint, hk.writing⟩

theorem query_represents (hr : Represents h.db s) (sql : Bytes) (args : List Bytes)
    (env : QueryEnv) : Represents (MadDatabase.query h sql args env).2.db s := by
  have hprepared : Keeps h.db
      (sqlite3PrepareV2 h.db sql env.writes env.counts (env.prepare sql)).2.2 := by
    unfold sqlite3PrepareV2
    split <;> exact ⟨rfl, rfl, fun _ hw => hw⟩
  have hd := TransactionRefinement.prepare_holds hr.holds sql env.writes env.counts
    (env.prepare sql)
  exact hr.same (bindArgs_keeps env _ 0 args hprepared)
    (TransactionRefinement.bindArgs_holds env _ 0 args hd)

theorem call_represents (hr : Represents h.db s) {c : Call σ} (hc : Served g c) :
    Represents (TransactionRefinement.next p g h c).db
        (run next s (accepted s (steps g h.isInTransaction c))) ∧
      (TransactionRefinement.next p g h c).isInTransaction = nextFlag h.isInTransaction c := by
  cases c with
  | begin env =>
    cases hf : h.isInTransaction with
    | true =>
      simpa [TransactionRefinement.next, beginTransaction, hf, steps, accepted, nextFlag] using hr
    | false =>
      have hd := exec_represents g hr hc
      simpa [TransactionRefinement.next, beginTransaction, hf, steps, nextFlag] using hd
  | commit env =>
    cases hf : h.isInTransaction with
    | false =>
      simpa [TransactionRefinement.next, commitTransaction, hf, steps, accepted, nextFlag] using hr
    | true =>
      have hd := exec_represents g hr hc
      simpa [TransactionRefinement.next, commitTransaction, hf, steps, nextFlag] using hd
  | rollback env =>
    cases hf : h.isInTransaction with
    | false =>
      simpa [TransactionRefinement.next, rollbackTransaction, hf, steps, accepted, nextFlag]
        using hr
    | true =>
      have hd := exec_represents g hr hc
      simpa [TransactionRefinement.next, rollbackTransaction, hf, steps, nextFlag] using hd
  | on m =>
    cases m with
    | insert c =>
      exact ⟨insert_represents p hr hc.1 hc.2, insertNext_flag p h c⟩
    | exec sql env errorMessage =>
      simp only [TransactionRefinement.next, HandleAtomic.perform, MadDatabase.exec, steps]
      split
      · exact ⟨hr, rfl⟩
      · next hk => exact ⟨exec_represents g hr (hc.resolve_left hk), rfl⟩
    | query sql args env => exact ⟨query_represents hr sql args env, rfl⟩

end Calls

theorem run_represents {h : Impl σ} {s : State Bytes σ} (hr : Represents h.db s)
    {calls : List (Call σ)} (hc : ∀ c ∈ calls, Served g c) :
    Represents (run (TransactionRefinement.next p g) h calls).db
      (run next s (history g h.isInTransaction s calls)) := by
  induction calls generalizing h s with
  | nil => exact hr
  | cons c calls ih =>
    rw [List.forall_mem_cons] at hc
    obtain ⟨hd, hf⟩ := call_represents p g hr hc.1
    rw [run_cons, history, run_append, ← hf]
    exact ih hd hc.2

theorem opened_represents (content : σ) :
    Represents (Connection.opened content) (⟨content, []⟩ : State Bytes σ) :=
  ⟨(TransactionRefinement.opened_simulates content).holds, rfl, by simp, by simp [opened]⟩

/-- What a connection shows, keeps and would be left with, after the events. -/
structure Nested (content : σ) (events : List (Event Bytes σ)) (h : Impl σ) : Prop where
  view : h.db.store.view = (run next ⟨content, []⟩ events).current
  file : h.db.store.file = (run next ⟨content, []⟩ events).durable
  closed : (destructor h).file = (run next ⟨content, []⟩ events).durable
  autoCommit : h.db.autoCommit = true ↔ (run next ⟨content, []⟩ events).frames = []
  savepoints : ∀ sp below, sp :: below <:+ h.db.savepoints → ∃ pre post,
    events = pre ++ .savepoint (fold sp.name) :: post ∧
      (run next ⟨content, []⟩ pre).current = sp.view
  lasting : ∃ pre post, events = pre ++ post ∧
    run next ⟨content, []⟩ pre = ⟨h.db.store.file, []⟩ ∧
      ∀ mid, mid <+: post → mid ≠ [] → (run next ⟨content, []⟩ (pre ++ mid)).frames ≠ []

theorem control_served {sql : Bytes} {t : TransactionControl}
    (h : sqlCommands g sql = [.control t]) : TextServed g sql (answers none : ExecEnv σ) := by
  rw [TextServed, h]
  exact ⟨⟨rfl, rfl⟩, trivial⟩

theorem insertRow_statementServed (n : ℕ) : Served g (.on (.insert (insertRow n))) := by
  obtain ⟨hl, hr⟩ := TransactionRefinement.insertRow_served g n
  exact ⟨hl, fun r h => .inl (hr r h)⟩

def execText (sql : String) : Call (List ℕ) := .on (.exec (ascii sql) (answers none) true)

/-- A transaction of savepoints, in which the BEGIN of the handle is refused. -/
def savepointSession : List (Call (List ℕ)) :=
  [execText "SAVEPOINT a", .on (.insert (insertRow 1)), .begin (answers none),
    execText "SAVEPOINT b", .on (.insert (insertRow 2)), execText "ROLLBACK TO B",
    .on (.insert (insertRow 3)), execText "RELEASE a"]

example : (run (TransactionRefinement.next .noConversion .controlOnly) (Impl.opened [])
    savepointSession).db.store.file = [3, 1] := by decide

end SavepointRefinement
