import MadSqlite.ScopedLock
import MadSqlite.SqliteCalls

/-! # What the calls do while they hold the mutex

The code of each call as far as `databaseMutex` is concerned: its guards, its calls of
SQLite, and what it reads in shared state. The branches follow what these answer. -/
namespace HandleThreads

open CppStrings ContentValues SqliteConnection MadDatabase SqliteCalls ScopedLock
open ScopedLock.Code

inductive SqliteFunction where
  | open | close | changes | errmsg | reset | finalize
  | call (f : SqliteCalls.Function)
  deriving DecidableEq

/-- `copyMessage` reads the text that `sqlite3_errmsg` has returned a pointer to. -/
inductive Action where
  | sqlite (f : SqliteFunction)
  | copyMessage
  | isInTransaction
  | setInTransaction (value : Bool)
  | getAbsoluteFilePath
  | findEntry
  | expired
  | eraseEntry
  | lockEntry
  | emplaceEntry
  | entries
  | isAfterLast
  | dropReference
  deriving DecidableEq

/-- `sqlite3_exec` also says whether it has set the error message, `dropReference` whether
it was the last one. -/
def Answers : Action → Type
  | .sqlite (.call .exec) => ResultCode × Bool
  | .sqlite _ => ResultCode
  | .copyMessage => Bytes
  | .isInTransaction | .getAbsoluteFilePath | .findEntry | .expired | .isAfterLast
  | .dropReference => Bool
  | .entries => ℕ
  | _ => Unit

abbrev Program := Code Action Answers

def message (k : Bytes → Program) : Program :=
  .act (.sqlite .errmsg) fun _ => .act .copyMessage k

def getError (doLock : Bool) (k : Bytes → Program) : Program :=
  let read := message fun err => k (if err = msgOk ∨ err = msgUnknown then [] else err)
  -- The guard is all there is in the scope of the `if`, so it is gone before the message.
  if doLock then guarded (fun out => out) read else read

def execInternal (k : Program) : Program :=
  guarded (fun out =>
    .act (.sqlite (.call .exec)) fun ((rc, errorMessage) : ResultCode × Bool) =>
      let changes := .act (.sqlite .changes) fun _ => out
      if rc = SQLITE_OK ∨ errorMessage then changes else getError false fun _ => changes) k

def exec (sql : Bytes) (k : Program) : Program :=
  if upperCaseString sql ∈ transactionKeyWords then k else execInternal k

/-- `BEGIN` in a handle without a transaction, `ROLLBACK` or `COMMIT` in one with. -/
def switchTransaction (before : Bool) (k : Program) : Program :=
  .act .isInTransaction fun (isInTransaction : Bool) =>
    if isInTransaction = before then
      execInternal (.act (.setInTransaction !before) fun _ => k)
    else k

def beginTransaction (k : Program) : Program := switchTransaction false k
def rollbackTransaction (k : Program) : Program := switchTransaction true k
def commitTransaction (k : Program) : Program := switchTransaction true k

def bindLoop (p : Platform) (values : ContentValues.Impl) (out bound : Program) :
    List Bytes → Program
  | [] => bound
  | key :: keys =>
    match bindCall p values key with
    | .error _ => out
    | .ok none => bindLoop p values out bound keys
    | .ok (some _) => .act (.sqlite (.call .bind)) fun (rc : ResultCode) =>
        if rc ≠ SQLITE_OK then out else bindLoop p values out bound keys

def insert (p : Platform) (values : ContentValues.Impl) (order : HashOrder) (k : Program) :
    Program :=
  if isEmpty values then k
  else guarded (fun out =>
    .act (.sqlite (.call .prepareV2)) fun (rc : ResultCode) =>
      if rc ≠ SQLITE_OK then message fun _ => out
      else bindLoop p values out (.act (.sqlite (.call .step)) fun _ => out) (keys order values)) k

def bindArgs (out : Program) : List Bytes → Program
  | [] => out
  | _ :: args => .act (.sqlite (.call .bind)) fun _ => bindArgs out args

def query (args : List Bytes) (k : Program) : Program :=
  guarded (fun out =>
    .act (.sqlite (.call .prepareV2)) fun (rc : ResultCode) =>
      if rc ≠ SQLITE_OK then message fun _ => bindArgs out args else bindArgs out args) k

def sweep (out : Program) : ℕ → Program
  | 0 => out
  | n + 1 => .act .expired fun (expired : Bool) =>
      if expired then .act .eraseEntry fun _ => sweep out n else sweep out n

def closeAndSweep (out : Program) : Program :=
  .act (.sqlite .close) fun _ => .act .entries fun (n : ℕ) => sweep out n

def destructor (k : Program) : Program := guarded closeAndSweep k

/-- A `unique_ptr` that goes out of scope; what it has given away it does not destroy. -/
def dropImpl (owned : Bool) (k : Program) : Program := if owned then destructor k else k

def registerNew (err : Bytes) (out : Program) : Program :=
  -- `imp` has moved into the new object by now.
  let exit := dropImpl false out
  .act .getAbsoluteFilePath fun (absPath : Bool) =>
    if absPath ∧ err = [] then
      .act .getAbsoluteFilePath fun _ => .act .emplaceEntry fun _ => exit
    else exit

def openNew (out : Program) : Program :=
  .act (.sqlite .open) fun _ => getError false fun err => registerNew err out

def shareEntry (out : Program) : Program :=
  .act .expired fun (expired : Bool) =>
    if expired then .act .eraseEntry fun _ => openNew out else .act .lockEntry fun _ => out

def findOrOpen (out : Program) : Program :=
  .act .getAbsoluteFilePath fun (absPath : Bool) =>
    if absPath then
      .act .findEntry fun (found : Bool) => if found then shareEntry out else openNew out
    else openNew out

def openDatabase (k : Program) : Program := guarded findOrOpen k

def dropHandle (k : Program) : Program :=
  .act .dropReference fun (last : Bool) => dropImpl last k

def moveToFirst (k : Program) : Program :=
  .act (.sqlite .reset) fun (rc : ResultCode) =>
    if rc = SQLITE_OK then .act (.sqlite (.call .step)) fun _ => k else k

def moveToNext (k : Program) : Program :=
  .act .isAfterLast fun (isAfterLast : Bool) =>
    if isAfterLast = false then .act (.sqlite (.call .step)) fun _ => k else k

def dropCursor (statement : Option ℕ) (k : Program) : Program :=
  if statement = none then k else .act (.sqlite .finalize) fun _ => k

inductive Method where
  | openDatabase
  | insert (values : ContentValues.Impl) (order : HashOrder)
  | exec (sql : Bytes)
  | query (args : List Bytes)
  | beginTransaction
  | rollbackTransaction
  | commitTransaction
  | getError
  | dropHandle
  | moveToFirst
  | moveToNext
  | dropCursor (statement : Option ℕ)

def program (p : Platform) : Method → Program
  | .openDatabase => openDatabase .done
  | .insert values order => insert p values order .done
  | .exec sql => exec sql .done
  | .query args => query args .done
  | .beginTransaction => beginTransaction .done
  | .rollbackTransaction => rollbackTransaction .done
  | .commitTransaction => commitTransaction .done
  | .getError => getError true fun _ => .done
  | .dropHandle => dropHandle .done
  | .moveToFirst => moveToFirst .done
  | .moveToNext => moveToNext .done
  | .dropCursor statement => dropCursor statement .done

/-- The calls that use the connection without a guard around it. -/
def Outside : Method → Prop
  | .getError | .moveToFirst | .moveToNext => True
  | _ => False

/-- Where a call acts. What `sqlite3_changes` and the message say is read in the scope in
which the call before it was made; a statement is finalised outside of every scope. -/
def Admits (m : Method) (inside : Option (List Action)) : Action → Prop
  | .sqlite .finalize => inside = none ∧ ¬Outside m
  | .sqlite .changes => ¬Outside m ∧ ∃ l, inside = some l ∧ .sqlite (.call .exec) ∈ l
  | .sqlite _ => inside = none ↔ Outside m
  | .copyMessage => (inside = none ↔ Outside m) ∧ ∀ l, inside = some l → .sqlite .errmsg ∈ l
  | _ => True

section Obeys

variable {m : Method} {k out : Program} {l : List Action}

theorem message_obeys {next : Bytes → Program} (hm : ¬Outside m)
    (hn : ∀ err l, (next err).Obeys (Admits m) (some l)) (l : List Action) :
    (message next).Obeys (Admits m) (some l) := by
  refine ⟨by simp [Admits, hm], fun _ => ⟨by simp [Admits, hm], fun err => hn err _⟩⟩

theorem getError_obeys {next : Bytes → Program} (hm : ¬Outside m)
    (hn : ∀ err l, (next err).Obeys (Admits m) (some l)) (l : List Action) :
    (getError false next).Obeys (Admits m) (some l) :=
  message_obeys hm (fun _ => hn _) l

theorem execInternal_obeys (hm : ¬Outside m) (hk : k.Obeys (Admits m) none) :
    (execInternal k).Obeys (Admits m) none := by
  refine .guarded (fun out hout => ⟨by simp [Admits, hm], ?_⟩) hk
  rintro ⟨rc, errorMessage⟩
  have hchanges : ∀ l, Action.sqlite (.call .exec) ∈ l →
      (Code.act (.sqlite .changes) fun _ => out : Program).Obeys (Admits m) (some l) :=
    fun l hl => ⟨⟨hm, l, rfl, hl⟩, fun _ => hout _⟩
  dsimp only
  split
  · exact hchanges _ (by simp)
  · exact ⟨by simp [Admits, hm], fun _ => ⟨by simp [Admits, hm],
      fun _ => hchanges _ (by simp)⟩⟩

theorem bindLoop_obeys (p : Platform) (values : ContentValues.Impl) {bound : Program}
    (hm : ¬Outside m) (hout : ∀ l, out.Obeys (Admits m) (some l))
    (hb : ∀ l, bound.Obeys (Admits m) (some l)) (keys : List Bytes) (l : List Action) :
    (bindLoop p values out bound keys).Obeys (Admits m) (some l) := by
  induction keys generalizing l with
  | nil => exact hb l
  | cons key keys ih =>
    unfold bindLoop
    split
    · exact hout l
    · exact ih l
    · refine ⟨by simp [Admits, hm], fun rc => ?_⟩
      dsimp only
      split
      · exact hout _
      · exact ih _

theorem bindArgs_obeys (hm : ¬Outside m) (hout : ∀ l, out.Obeys (Admits m) (some l))
    (args : List Bytes) (l : List Action) : (bindArgs out args).Obeys (Admits m) (some l) := by
  induction args generalizing l with
  | nil => exact hout l
  | cons _ args ih => exact ⟨by simp [Admits, hm], fun _ => ih _⟩

theorem sweep_obeys (hout : ∀ l, out.Obeys (Admits m) (some l)) (n : ℕ) (l : List Action) :
    (sweep out n).Obeys (Admits m) (some l) := by
  induction n generalizing l with
  | zero => exact hout l
  | succ n ih =>
    refine ⟨trivial, fun expired => ?_⟩
    dsimp only
    split
    · exact ⟨trivial, fun _ => ih _⟩
    · exact ih _

theorem destructor_obeys (hm : ¬Outside m) (hk : k.Obeys (Admits m) none) :
    (destructor k).Obeys (Admits m) none :=
  .guarded (fun _ hout => ⟨by simp [Admits, hm], fun _ => ⟨trivial, fun n => sweep_obeys hout n _⟩⟩)
    hk

theorem openNew_obeys (hm : ¬Outside m) (hout : ∀ l, out.Obeys (Admits m) (some l))
    (l : List Action) : (openNew out).Obeys (Admits m) (some l) := by
  refine ⟨by simp [Admits, hm], fun _ => getError_obeys hm (fun err l => ?_) _⟩
  refine ⟨trivial, fun absPath => ?_⟩
  dsimp only
  split
  · exact ⟨trivial, fun _ => ⟨trivial, fun _ => hout _⟩⟩
  · exact hout _

theorem shareEntry_obeys (hm : ¬Outside m) (hout : ∀ l, out.Obeys (Admits m) (some l))
    (l : List Action) : (shareEntry out).Obeys (Admits m) (some l) := by
  refine ⟨trivial, fun expired => ?_⟩
  dsimp only
  split
  · exact ⟨trivial, fun _ => openNew_obeys hm hout _⟩
  · exact ⟨trivial, fun _ => hout _⟩

theorem openDatabase_obeys (hm : ¬Outside m) (hk : k.Obeys (Admits m) none) :
    (openDatabase k).Obeys (Admits m) none := by
  refine .guarded (fun out hout => ⟨trivial, fun absPath => ?_⟩) hk
  dsimp only
  split
  · refine ⟨trivial, fun found => ?_⟩
    dsimp only
    split
    · exact shareEntry_obeys hm hout _
    · exact openNew_obeys hm hout _
  · exact openNew_obeys hm hout _

theorem insert_obeys (p : Platform) (values : ContentValues.Impl) (order : HashOrder)
    (hm : ¬Outside m) (hk : k.Obeys (Admits m) none) :
    (insert p values order k).Obeys (Admits m) none := by
  unfold insert
  split
  · exact hk
  · refine .guarded (fun out hout => ⟨by simp [Admits, hm], fun rc => ?_⟩) hk
    dsimp only
    split
    · exact message_obeys hm (fun _ => hout) _
    · refine bindLoop_obeys p values hm hout (fun l => ?_) _ _
      exact ⟨by simp [Admits, hm], fun _ => hout _⟩

theorem query_obeys (args : List Bytes) (hm : ¬Outside m) (hk : k.Obeys (Admits m) none) :
    (query args k).Obeys (Admits m) none := by
  refine .guarded (fun out hout => ⟨by simp [Admits, hm], fun rc => ?_⟩) hk
  dsimp only
  split
  · exact message_obeys hm (fun _ => bindArgs_obeys hm hout args) _
  · exact bindArgs_obeys hm hout args _

theorem exec_obeys (sql : Bytes) (hm : ¬Outside m) (hk : k.Obeys (Admits m) none) :
    (exec sql k).Obeys (Admits m) none := by
  unfold exec
  split
  · exact hk
  · exact execInternal_obeys hm hk

theorem switchTransaction_obeys (before : Bool) (hm : ¬Outside m)
    (hk : k.Obeys (Admits m) none) : (switchTransaction before k).Obeys (Admits m) none := by
  refine ⟨trivial, fun isInTransaction => ?_⟩
  dsimp only
  split
  · exact execInternal_obeys hm ⟨trivial, fun _ => hk⟩
  · exact hk

theorem dropHandle_obeys (hm : ¬Outside m) (hk : k.Obeys (Admits m) none) :
    (dropHandle k).Obeys (Admits m) none := by
  refine ⟨trivial, fun last => ?_⟩
  dsimp only [dropImpl]
  split
  · exact destructor_obeys hm hk
  · exact hk

/-- With its guard gone `getError` calls SQLite like a cursor does. -/
theorem getError_outside (hm : Outside m) :
    (getError true fun _ => .done).Obeys (Admits m) none :=
  ⟨rfl, Option.some_ne_none _, by simp [Admits, hm], fun _ => ⟨by simp [Admits, hm], fun _ => rfl⟩⟩

theorem moveToFirst_outside (hm : Outside m) : (moveToFirst .done).Obeys (Admits m) none := by
  refine ⟨by simp [Admits, hm], fun rc => ?_⟩
  dsimp only
  split
  · exact ⟨by simp [Admits, hm], fun _ => rfl⟩
  · rfl

theorem moveToNext_outside (hm : Outside m) : (moveToNext .done).Obeys (Admits m) none := by
  refine ⟨trivial, fun isAfterLast => ?_⟩
  dsimp only
  split
  · exact ⟨by simp [Admits, hm], fun _ => rfl⟩
  · rfl

theorem dropCursor_obeys (statement : Option ℕ) (hm : ¬Outside m) :
    (dropCursor statement .done).Obeys (Admits m) none := by
  unfold dropCursor
  split
  · rfl
  · exact ⟨⟨rfl, hm⟩, fun _ => rfl⟩

end Obeys

/-- Every call takes and releases the mutex in turn and acts where it is admitted to. -/
theorem program_obeys (p : Platform) (m : Method) : (program p m).Obeys (Admits m) none := by
  cases m with
  | openDatabase => exact openDatabase_obeys id rfl
  | insert values order => exact insert_obeys p values order id rfl
  | exec sql => exact exec_obeys sql id rfl
  | query args => exact query_obeys args id rfl
  | beginTransaction => exact switchTransaction_obeys false id rfl
  | rollbackTransaction => exact switchTransaction_obeys true id rfl
  | commitTransaction => exact switchTransaction_obeys true id rfl
  | getError => exact getError_outside trivial
  | dropHandle => exact dropHandle_obeys id rfl
  | moveToFirst => exact moveToFirst_outside trivial
  | moveToNext => exact moveToNext_outside trivial
  | dropCursor statement => exact dropCursor_obeys statement id

end HandleThreads
