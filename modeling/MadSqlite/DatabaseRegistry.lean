import MadSqlite.DatabaseSet
import MadSqlite.Runs

/-! # One handle for every path

`openDatabase` as one action, with files that come and go. It looks its path up before
the file is opened and registers it afterwards, so a file that was removed under a live
handle is looked up in vain and registered in vain. -/
namespace DatabaseRegistry

open CppStrings HandleTable MadDatabase DatabaseSet Runs

variable {σ : Type*} (d : Directory)

def openNew (s : State σ) (dbPath : Bytes) (env : OpenEnv σ) : Option ℕ × State σ :=
  let (ptr, s) := construct d s dbPath env
  (some ptr, publish d s dbPath (openError env) ptr)

def openDatabase (s : State σ) (dbPath : Bytes) (env : OpenEnv σ) : Option ℕ × State σ :=
  let absPath := getAbsoluteFilePath d s.files dbPath
  if absPath ≠ [] then
    match s.databaseSet.lookup absPath with
    | some h => if expired s h then openNew d (erase s absPath) dbPath env else lock s h
    | none => openNew d s dbPath env
  else openNew d s dbPath env

/-- Dropping the last reference runs the destructor. -/
def drop (s : State σ) (h : ℕ) : State σ :=
  if expired s h then s
  else if expired (release s h) h then sweep (close (release s h) h)
  else release s h

inductive Event (σ : Type*) where
  | openDatabase (dbPath : Bytes) (env : OpenEnv σ)
  | drop (h : ℕ)
  | setFile (absolute : Bytes) (present : Bool)

def next (s : State σ) : Event σ → State σ
  | .openDatabase dbPath env => (openDatabase d s dbPath env).2
  | .drop h => drop s h
  | .setFile absolute present => setFile s absolute present

def handleError (s : State σ) (h : ℕ) : Bytes :=
  ((s.objects.find? h).map fun o => getError o.impl).getD []

/-- The next opener of the path gets the same handle. -/
def SameAgain (s : State σ) : Event σ → Prop
  | .openDatabase dbPath env => ∀ h s', openDatabase d s dbPath env = (some h, s') →
      handleError s' h = [] → getAbsoluteFilePath d s'.files dbPath ≠ [] →
      ∀ env', (openDatabase d s' dbPath env').1 = some h
  | _ => True

/-- Where the file is created, no handle is registered under its path. -/
def NotShadowed (s : State σ) : Event σ → Prop
  | .openDatabase dbPath env => s.files (d.absolute (cStr dbPath)) = false → env.creates →
      openError env = [] → s.databaseSet.lookup (d.absolute (cStr dbPath)) = none
  | _ => True

def Registered (s : State σ) : Prop :=
  ∀ absPath h, s.databaseSet.lookup absPath = some h → 0 < useCount s h

theorem Registered.not_expired {s : State σ} (hs : Registered s) {absPath : Bytes} {h : ℕ}
    (he : s.databaseSet.lookup absPath = some h) : expired s h = false := by
  simpa [expired] using (hs absPath h he).ne'

theorem Registered.ne_next {s : State σ} (hs : Registered s) {absPath : Bytes} {h : ℕ}
    (he : s.databaseSet.lookup absPath = some h) : h ≠ s.objects.next := by
  rintro rfl
  simpa using hs absPath _ he

theorem openDatabase_cases {s : State σ} (hs : Registered s) (dbPath : Bytes)
    (env : OpenEnv σ) :
    (∃ h, s.files (d.absolute (cStr dbPath)) = true ∧
      s.databaseSet.lookup (d.absolute (cStr dbPath)) = some h ∧
      openDatabase d s dbPath env = (some h, retain s h)) ∨
    ((s.files (d.absolute (cStr dbPath)) = false ∨
      s.databaseSet.lookup (d.absolute (cStr dbPath)) = none) ∧
      openDatabase d s dbPath env = openNew d s dbPath env) := by
  unfold openDatabase
  dsimp only
  cases hf : s.files (d.absolute (cStr dbPath)) with
  | false =>
    have hn : ¬getAbsoluteFilePath d s.files dbPath ≠ [] := by simp [resolves_iff, hf]
    exact .inr ⟨.inl rfl, if_neg hn⟩
  | true =>
    rw [if_pos ((resolves_iff d).mpr hf), getAbsoluteFilePath_eq d hf]
    cases he : s.databaseSet.lookup (d.absolute (cStr dbPath)) with
    | none => exact .inr ⟨.inr rfl, rfl⟩
    | some h =>
      have hx := hs.not_expired he
      exact .inl ⟨h, rfl, rfl, by simp [lock, hx]⟩

section New

variable (s : State σ) (dbPath : Bytes) (env : OpenEnv σ)

theorem openNew_eq : openNew d s dbPath env = (some s.objects.next,
    publish d (construct d s dbPath env).2 dbPath (openError env) s.objects.next) := rfl

theorem openNew_files : (openNew d s dbPath env).2.files (d.absolute (cStr dbPath)) =
    (env.creates || s.files (d.absolute (cStr dbPath))) := by
  unfold openNew
  simp only [publish_files]
  cases hc : env.creates <;> simp [construct, hc]

theorem openNew_error : handleError (openNew d s dbPath env).2 s.objects.next = openError env := by
  unfold openNew handleError
  simp only [publish_objects]
  simp [construct, Table.find?_add, openError]

theorem openNew_useCount (h : ℕ) : useCount (openNew d s dbPath env).2 h =
    if h = s.objects.next then 1 else useCount s h := by
  unfold openNew
  simp [useCount_construct]

end New

theorem openNew_registers {s : State σ} {dbPath : Bytes} {env : OpenEnv σ}
    (he : openError env = [])
    (hf : (openNew d s dbPath env).2.files (d.absolute (cStr dbPath)) = true) :
    (openNew d s dbPath env).2.databaseSet.lookup (d.absolute (cStr dbPath)) =
      some ((s.databaseSet.lookup (d.absolute (cStr dbPath))).getD s.objects.next) := by
  rw [openNew_eq] at hf ⊢
  rw [publish_files] at hf
  have hset : (construct d s dbPath env).2.databaseSet = s.databaseSet := rfl
  rw [he]
  cases hk : s.databaseSet.lookup (d.absolute (cStr dbPath)) with
  | none =>
    rw [publish_new d hf (by rw [hset, hk])]
    simp [construct]
  | some h =>
    have hn : (construct d s dbPath env).2.databaseSet.lookup (d.absolute (cStr dbPath)) ≠
        none := by
      simp [hset, hk]
    rw [publish_refused d fun _ _ => hn, hset, hk]
    rfl

theorem openDatabase_registered {s : State σ} (hs : Registered s) {dbPath : Bytes} {h : ℕ}
    (hf : s.files (d.absolute (cStr dbPath)) = true)
    (he : s.databaseSet.lookup (d.absolute (cStr dbPath)) = some h) (env : OpenEnv σ) :
    openDatabase d s dbPath env = (some h, retain s h) := by
  rcases openDatabase_cases d hs dbPath env with ⟨h', -, he', ho⟩ | ⟨hn, -⟩
  · rw [he] at he'
    cases he'
    exact ho
  · simp [hf, he] at hn

theorem openNew_lookup {s : State σ} {dbPath absPath : Bytes} {env : OpenEnv σ} {h : ℕ}
    (hk : (openNew d s dbPath env).2.databaseSet.lookup absPath = some h) :
    s.databaseSet.lookup absPath = some h ∨ h = s.objects.next := by
  rw [openNew_eq] at hk
  exact publish_lookup d (s := (construct d s dbPath env).2) hk

theorem openDatabase_registers {s : State σ} (hs : Registered s) (dbPath : Bytes)
    (env : OpenEnv σ) : Registered (openDatabase d s dbPath env).2 := by
  rcases openDatabase_cases d hs dbPath env with ⟨h, -, he, ho⟩ | ⟨-, ho⟩
  · rw [ho]
    intro absPath h' hk
    rw [useCount_retain _ _ _ (hs _ _ he)]
    split
    · omega
    · exact hs absPath h' hk
  · rw [ho]
    intro absPath h' hk
    rw [openNew_useCount]
    split
    · omega
    · next hne => exact hs absPath h' ((openNew_lookup d hk).resolve_right hne)

theorem drop_registers {s : State σ} (hs : Registered s) (h : ℕ) : Registered (drop s h) := by
  unfold drop
  split
  · exact hs
  · split
    · next hx =>
      intro absPath h' hk
      obtain ⟨-, hn⟩ := sweep_lookup.mp hk
      rw [useCount_sweep]
      simpa [expired, Nat.pos_iff_ne_zero] using hn
    · next hx =>
      intro absPath h' hk
      rw [useCount_release]
      split
      · next he =>
        simp only [expired, useCount_release, if_true, decide_eq_true_eq] at hx
        exact Nat.pos_of_ne_zero hx
      · exact hs absPath h' hk

theorem next_registers (s : State σ) (e : Event σ) (hs : Registered s) :
    Registered (next d s e) := by
  cases e with
  | openDatabase dbPath env => exact openDatabase_registers d hs dbPath env
  | drop h => exact drop_registers hs h
  | setFile absolute present => exact hs

theorem sameAgain_step {s : State σ} (hs : Registered s) (e : Event σ) :
    SameAgain d s e ↔ NotShadowed d s e := by
  cases e with
  | drop h => exact Iff.rfl
  | setFile absolute present => exact Iff.rfl
  | openDatabase dbPath env =>
    have hs' := openDatabase_registers d hs dbPath env
    rw [SameAgain, NotShadowed]
    rcases openDatabase_cases d hs dbPath env with ⟨h, hf, he, ho⟩ | ⟨hn, ho⟩
    · rw [ho] at hs' ⊢
      simp only [hf, reduceCtorEq, false_implies, iff_true]
      rintro h' s' heq - - env'
      cases heq
      rw [openDatabase_registered d hs' hf he]
    · rw [ho] at hs' ⊢
      constructor
      · intro hsame hf hc he
        have hf' : (openNew d s dbPath env).2.files (d.absolute (cStr dbPath)) = true := by
          rw [openNew_files, hc, Bool.true_or]
        have hagain := hsame s.objects.next (openNew d s dbPath env).2 rfl
          ((openNew_error d s dbPath env).trans he) ((resolves_iff d).mpr hf') env
        rw [openDatabase_registered d hs' hf' (openNew_registers d he hf')] at hagain
        cases hk : s.databaseSet.lookup (d.absolute (cStr dbPath)) with
        | none => rfl
        | some h =>
          rw [hk] at hagain
          exact absurd (Option.some.inj hagain) (hs.ne_next hk)
      · intro hcond h s' heq herr hres env'
        obtain rfl : s.objects.next = h := Option.some.inj (congrArg Prod.fst heq)
        obtain rfl : (openNew d s dbPath env).2 = s' := congrArg Prod.snd heq
        rw [openNew_error] at herr
        have hf' := (resolves_iff d).mp hres
        have hk : s.databaseSet.lookup (d.absolute (cStr dbPath)) = none := by
          rcases hn with hf | hk
          · rw [openNew_files, hf, Bool.or_false] at hf'
            exact hcond hf hf' herr
          · exact hk
        rw [openDatabase_registered d hs' hf' (openNew_registers d herr hf'), hk]
        rfl

/-- In every run, each successful opening is shared with the next opener of the path
exactly when no opening creates a file whose path a live handle is registered under. -/
theorem same_again_iff (files : Bytes → Bool) (es : List (Event σ)) :
    AllSteps (next d) (SameAgain d) (initial files) es ↔
      AllSteps (next d) (NotShadowed d) (initial files) es :=
  allSteps_congr (I := Registered) (next_registers d) (fun _ e hs => sameAgain_step d hs e)
    (by simp [Registered, initial])

def removedUnderneath : List (Event (List ℕ)) :=
  [.openDatabase (ascii "a") created, .setFile (ascii "/a") false,
    .openDatabase (ascii "a") created]

theorem removedUnderneath_not_shared : ¬AllSteps (next flatDirectory) (SameAgain flatDirectory)
    (initial fun _ => false) removedUnderneath := by
  rintro ⟨-, -, h, -⟩
  have hagain := h 1 _ rfl (by decide) (by decide) created
  exact absurd hagain (by decide)

end DatabaseRegistry
