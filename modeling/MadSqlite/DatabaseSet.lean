import MadSqlite.MadDatabase
import Mathlib.Data.List.AList
import Mathlib.Logic.Function.Basic

/-! # The set of open databases

`databaseSet` maps absolute paths to weak references. Here are its operations, the
reference counts they look at, and the file names they go by, one atomic action each. -/
namespace DatabaseSet

open CppStrings HandleTable MadDatabase

variable {σ : Type*}

/-- The absolute path of the file that a name stands for. -/
structure Directory where
  absolute : Bytes → Bytes
  rooted : ∀ name, absolute name ≠ []

/-- `MadDatabase` and its reference count; `name` is what `sqlite3_open` was given. -/
structure Object (σ : Type*) where
  name : Bytes
  impl : Impl σ
  useCount : ℕ

structure State (σ : Type*) where
  files : Bytes → Bool
  databaseSet : AList fun _ : Bytes => ℕ
  objects : Table (Object σ)

def initial (files : Bytes → Bool) : State σ := ⟨files, ∅, .empty⟩

def openError (env : OpenEnv σ) : Bytes := getError (.new env)

variable (d : Directory)

/-- `realpath` fails exactly on an absent file. -/
def getAbsoluteFilePath (files : Bytes → Bool) (filePath : Bytes) : Bytes :=
  let absolute := d.absolute (cStr filePath)
  if files absolute then absolute else []

/-- References to a handle; zero as well when there is no such handle any more. -/
def useCount (s : State σ) (h : ℕ) : ℕ := ((s.objects.find? h).map Object.useCount).getD 0

def expired (s : State σ) (h : ℕ) : Bool := useCount s h = 0

theorem expired_eq_false {s : State σ} {h : ℕ} : expired s h = false ↔ 0 < useCount s h := by
  simp [expired, Nat.pos_iff_ne_zero]

def setCount (s : State σ) (h : ℕ) (f : ℕ → ℕ) : State σ :=
  { s with objects := s.objects.update h fun o => { o with useCount := f o.useCount } }

def retain (s : State σ) (h : ℕ) : State σ := setCount s h (· + 1)
def release (s : State σ) (h : ℕ) : State σ := setCount s h (· - 1)

/-- `weak_ptr::lock`, which gives a null pointer for an expired reference. -/
def lock (s : State σ) (h : ℕ) : Option ℕ × State σ :=
  if expired s h then (none, s) else (some h, retain s h)

def erase (s : State σ) (absPath : Bytes) : State σ :=
  { s with databaseSet := s.databaseSet.erase absPath }

/-- `unordered_map::emplace` keeps the value of a key that is there. -/
def emplace (s : State σ) (absPath : Bytes) (h : ℕ) : State σ :=
  if s.databaseSet.lookup absPath = none then
    { s with databaseSet := s.databaseSet.insert absPath h }
  else s

def construct (s : State σ) (dbPath : Bytes) (env : OpenEnv σ) : ℕ × State σ :=
  let absolute := d.absolute (cStr dbPath)
  (s.objects.next, { s with
    files := if env.creates then Function.update s.files absolute true else s.files
    objects := s.objects.add ⟨cStr dbPath, .new env, 1⟩ })

def publish (s : State σ) (dbPath err : Bytes) (ptr : ℕ) : State σ :=
  let absPath := getAbsoluteFilePath d s.files dbPath
  if absPath ≠ [] ∧ err = [] then emplace s absPath ptr else s

/-- `sqlite3_close`; what it leaves of the connection is not the registry's matter. -/
def close (s : State σ) (h : ℕ) : State σ := { s with objects := s.objects.remove h }

def sweepEntry (s : State σ) (absPath : Bytes) : State σ :=
  match s.databaseSet.lookup absPath with
  | some h => if expired s h then erase s absPath else s
  | none => s

def sweep (s : State σ) : State σ := s.databaseSet.keys.foldl sweepEntry s

def setFile (s : State σ) (absolute : Bytes) (present : Bool) : State σ :=
  { s with files := Function.update s.files absolute present }

theorem resolves_iff {files : Bytes → Bool} {filePath : Bytes} :
    getAbsoluteFilePath d files filePath ≠ [] ↔ files (d.absolute (cStr filePath)) = true := by
  unfold getAbsoluteFilePath
  dsimp only
  split
  · next hf => simp [hf, d.rooted]
  · next hf => simp [hf]

theorem getAbsoluteFilePath_eq {files : Bytes → Bool} {filePath : Bytes}
    (hf : files (d.absolute (cStr filePath)) = true) :
    getAbsoluteFilePath d files filePath = d.absolute (cStr filePath) := if_pos hf

@[simp] theorem publish_files (s : State σ) (dbPath err : Bytes) (ptr : ℕ) :
    (publish d s dbPath err ptr).files = s.files := by
  unfold publish emplace
  dsimp only
  split
  · split <;> rfl
  · rfl

@[simp] theorem publish_objects (s : State σ) (dbPath err : Bytes) (ptr : ℕ) :
    (publish d s dbPath err ptr).objects = s.objects := by
  unfold publish emplace
  dsimp only
  split
  · split <;> rfl
  · rfl

theorem publish_new {s : State σ} {dbPath : Bytes}
    (hf : s.files (d.absolute (cStr dbPath)) = true)
    (hn : s.databaseSet.lookup (d.absolute (cStr dbPath)) = none) (ptr : ℕ) :
    publish d s dbPath [] ptr =
      { s with databaseSet := s.databaseSet.insert (d.absolute (cStr dbPath)) ptr } := by
  have hp : d.absolute (cStr dbPath) ≠ [] ∧ ([] : Bytes) = [] := ⟨d.rooted _, rfl⟩
  unfold publish
  dsimp only
  rw [getAbsoluteFilePath_eq d hf, if_pos hp, emplace, if_pos hn]

theorem publish_refused {s : State σ} {dbPath err : Bytes}
    (h : s.files (d.absolute (cStr dbPath)) = true → err = [] →
      s.databaseSet.lookup (d.absolute (cStr dbPath)) ≠ none) (ptr : ℕ) :
    publish d s dbPath err ptr = s := by
  unfold publish
  dsimp only
  split
  · next hp =>
    have hf := (resolves_iff d).mp hp.1
    rw [getAbsoluteFilePath_eq d hf, emplace, if_neg (h hf hp.2)]
  · rfl

theorem publish_lookup {s : State σ} {dbPath err absPath : Bytes} {ptr h : ℕ}
    (hk : (publish d s dbPath err ptr).databaseSet.lookup absPath = some h) :
    s.databaseSet.lookup absPath = some h ∨ h = ptr := by
  by_cases hp : s.files (d.absolute (cStr dbPath)) = true ∧ err = [] ∧
      s.databaseSet.lookup (d.absolute (cStr dbPath)) = none
  · obtain ⟨hf, rfl, hn⟩ := hp
    rw [publish_new d hf hn] at hk
    by_cases ha : absPath = d.absolute (cStr dbPath)
    · subst ha
      rw [AList.lookup_insert] at hk
      exact .inr (Option.some.inj hk).symm
    · rw [AList.lookup_insert_ne ha] at hk
      exact .inl hk
  · rw [publish_refused d fun hf he hn => hp ⟨hf, he, hn⟩] at hk
    exact .inl hk

@[simp] theorem sweepEntry_objects (s : State σ) (absPath : Bytes) :
    (sweepEntry s absPath).objects = s.objects := by
  unfold sweepEntry
  split
  · split <;> rfl
  · rfl

@[simp] theorem expired_sweepEntry (s : State σ) (absPath : Bytes) (h : ℕ) :
    expired (sweepEntry s absPath) h = expired s h := by
  unfold expired useCount
  rw [sweepEntry_objects]

theorem sweepEntry_lookup {s : State σ} {absPath absPath' : Bytes} {h : ℕ} :
    (sweepEntry s absPath').databaseSet.lookup absPath = some h ↔
      s.databaseSet.lookup absPath = some h ∧ (absPath = absPath' → expired s h = false) := by
  unfold sweepEntry
  by_cases ha : absPath = absPath'
  · subst ha
    cases hk : s.databaseSet.lookup absPath with
    | none => simp [hk]
    | some h' =>
      cases hx : expired s h' with
      | true =>
        simp only [hx, if_true, erase, AList.lookup_erase, reduceCtorEq, false_iff]
        rintro ⟨he, hn⟩
        cases he
        simp [hx] at hn
      | false =>
        simp only [hx, if_false, Bool.false_eq_true, hk, true_implies, iff_self_and]
        intro he
        cases he
        exact hx
  · split
    · split
      · simp [erase, AList.lookup_erase_ne ha, ha]
      · simp [ha]
    · simp [ha]

theorem foldl_sweepEntry_lookup {keys : List Bytes} {s : State σ} {absPath : Bytes} {h : ℕ} :
    (keys.foldl sweepEntry s).databaseSet.lookup absPath = some h ↔
      s.databaseSet.lookup absPath = some h ∧ (absPath ∈ keys → expired s h = false) := by
  induction keys generalizing s with
  | nil => simp
  | cons key keys ih =>
    rw [List.foldl_cons, ih, sweepEntry_lookup, expired_sweepEntry, List.mem_cons]
    tauto

theorem sweep_lookup {s : State σ} {absPath : Bytes} {h : ℕ} :
    (sweep s).databaseSet.lookup absPath = some h ↔
      s.databaseSet.lookup absPath = some h ∧ expired s h = false := by
  rw [sweep, foldl_sweepEntry_lookup, and_congr_right_iff]
  intro hk
  have hm : absPath ∈ s.databaseSet.keys :=
    AList.mem_keys.mp (AList.lookup_isSome.mp (by rw [hk]; rfl))
  simp [hm]

theorem sweep_objects (s : State σ) : (sweep s).objects = s.objects := by
  unfold sweep
  generalize s.databaseSet.keys = keys
  induction keys generalizing s with
  | nil => rfl
  | cons key keys ih => rw [List.foldl_cons, ih, sweepEntry_objects]

section Counts

variable (s : State σ) (h h' : ℕ)

theorem useCount_setCount {f : ℕ → ℕ} (hf : useCount s h = 0 → f 0 = 0) :
    useCount (setCount s h f) h' = if h' = h then f (useCount s h) else useCount s h' := by
  unfold useCount setCount at *
  split
  · next he =>
    subst he
    rw [Table.find?_update_self]
    cases hs : s.objects.find? h' with
    | none => exact (hf (by rw [hs]; rfl)).symm
    | some o => rfl
  · next he => rw [Table.find?_update_of_ne _ he]

theorem useCount_retain (hl : 0 < useCount s h) :
    useCount (retain s h) h' = if h' = h then useCount s h + 1 else useCount s h' :=
  useCount_setCount s h h' fun hz => absurd hz hl.ne'

theorem useCount_release :
    useCount (release s h) h' = if h' = h then useCount s h - 1 else useCount s h' :=
  useCount_setCount s h h' fun _ => rfl

@[simp] theorem useCount_next : useCount s s.objects.next = 0 := by
  simp [useCount, Table.find?_next]

theorem useCount_construct (dbPath : Bytes) (env : OpenEnv σ) :
    useCount (construct d s dbPath env).2 h' =
      if h' = s.objects.next then 1 else useCount s h' := by
  unfold useCount construct
  by_cases he : h' = s.objects.next
  · simp [he, Table.find?_add]
  · simp [he, Table.find?_add_of_ne _ he]

theorem useCount_close : useCount (close s h) h' = if h' = h then 0 else useCount s h' := by
  unfold useCount close
  split
  · next he => simp [he]
  · next he => simp [Table.find?_remove_of_ne he]

@[simp] theorem useCount_erase (absPath : Bytes) : useCount (erase s absPath) h = useCount s h :=
  rfl

@[simp] theorem useCount_emplace (absPath : Bytes) (ptr : ℕ) :
    useCount (emplace s absPath ptr) h = useCount s h := by
  unfold emplace
  split <;> rfl

@[simp] theorem useCount_publish (dbPath err : Bytes) (ptr : ℕ) :
    useCount (publish d s dbPath err ptr) h = useCount s h := by
  unfold publish
  dsimp only
  split
  · exact useCount_emplace s h _ ptr
  · rfl

@[simp] theorem useCount_sweep : useCount (sweep s) h = useCount s h := by
  simp [useCount, sweep_objects]

end Counts

def flatDirectory : Directory := ⟨fun name => 47 :: name, fun _ => List.cons_ne_nil _ _⟩

def created : OpenEnv (List ℕ) := ⟨[], none, true⟩

end DatabaseSet
