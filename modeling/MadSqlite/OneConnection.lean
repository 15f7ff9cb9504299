import MadSqlite.RegistryInvariant

/-! # One connection for every file

An entry is dead as soon as the last reference is gone, but its connection stays open until
the destructor has got the mutex. A thread that opens the path in between gets a second
connection. -/
namespace OneConnection

open CppStrings HandleTable MadDatabase DatabaseSet RegistryThreads RegistryInvariant Runs

variable {τ σ : Type*} (d : Directory)

def OneEach (s : State τ σ) : Prop :=
  ∀ absPath h h', Opened d s.registry h absPath → Opened d s.registry h' absPath → h = h'

/-- No path is opened while the destructor of a handle on it waits for the mutex. -/
def NoneWaiting (s : State τ σ) : HonestEvent τ σ → Prop
  | .registry (.step t env _) _ => ∀ dbPath, (s.threads t).phase = .makeHandle dbPath →
      openError env = [] → ∀ t' h, (s.threads t').phase = .lockToDestroy h →
        ¬Opened d s.registry h (d.absolute (cStr dbPath))
  | _ => True

variable [DecidableEq τ]

/-- Only one step of `openDatabase` opens a connection. -/
theorem opening_step {s : State τ σ} {t : τ} (env : OpenEnv σ) (visit : Bytes)
    (hm : ∀ dbPath, (s.threads t).phase ≠ .makeHandle dbPath) (h : ℕ) :
    opening (step d s t env visit).registry h = opening s.registry h ∨
      opening (step d s t env visit).registry h = none := by
  unfold step
  cases hph : (s.threads t).phase with
  | makeHandle dbPath => exact absurd hph (hm dbPath)
  | findEntry dbPath =>
    dsimp only
    split
    · split <;> exact .inl rfl
    · exact .inl rfl
  | upgrade h' =>
    dsimp only [lock]
    split
    · exact .inl rfl
    · exact .inl (opening_setCount _ _ _ _)
  | register dbPath err ptr => exact .inl (opening_of_objects h (publish_objects _ _ _ _ _))
  | closeConnection h' =>
    simp only [move, opening_close]
    split
    · exact .inr rfl
    · exact .inl rfl
  | sweepEntries keys =>
    dsimp only
    split
    · exact .inl rfl
    · split
      · exact .inl (opening_of_objects h (sweepEntry_objects _ _))
      · exact .inl rfl
  | idle => exact .inl rfl
  | unlockAndReturn result => exact .inl rfl
  | unlockDestroyed => exact .inl rfl
  | _ =>
    dsimp only
    split <;> exact .inl rfl

omit [DecidableEq τ] in
theorem OneEach.of_opening {s s' : State τ σ} (hs : OneEach d s)
    (ho : ∀ h, opening s'.registry h = opening s.registry h ∨ opening s'.registry h = none) :
    OneEach d s' := by
  have hback : ∀ {h a}, Opened d s'.registry h a → Opened d s.registry h a := by
    rintro h a ⟨name, hn, ha⟩
    rcases ho h with he | he
    · exact ⟨name, he ▸ hn, ha⟩
    · cases he.symm.trans hn
  exact fun a h h' hh hh' => hs a h h' (hback hh) (hback hh')

omit [DecidableEq τ] in
/-- A connection that is open where a handle is made belongs to a waiting destructor. -/
theorem waiting_of_opened {s : State τ σ} (hg : Good d s) {t : τ} {dbPath : Bytes} {h : ℕ}
    (hph : (s.threads t).phase = .makeHandle dbPath)
    (ho : Opened d s.registry h (d.absolute (cStr dbPath))) :
    ∃ t', (s.threads t').phase = .lockToDestroy h := by
  obtain ⟨-, hl, hf⟩ := hg
  have hc : Critical (s.threads t).phase = true := by rw [hph]; rfl
  have hnone : s.registry.databaseSet.lookup (d.absolute (cStr dbPath)) = none := by
    simpa [hph, PhaseFacts] using hf.phase t
  have hz : useCount s.registry h = 0 := by
    by_contra hz
    have hk := hf.entered_here d hl hc hph (fun _ => id) ho (Nat.pos_of_ne_zero hz)
    cases hnone.symm.trans hk
  obtain ⟨name, hn, -⟩ := ho
  obtain ⟨t', hcl⟩ := hf.pending h (by simp [hn]) hz
  refine ⟨t', ?_⟩
  cases hph' : (s.threads t').phase with
  | lockToDestroy h' =>
    rw [hph'] at hcl
    rw [show h' = h from hcl]
  | closeConnection h' =>
    have ht : t' ≠ t := by
      rintro rfl
      simp [hph] at hph'
    simpa [hph', Critical] using hl.others hc ht
  | _ =>
    rw [hph'] at hcl
    exact hcl.elim

theorem opened_construct {r : DatabaseSet.State σ} {dbPath : Bytes} {env : OpenEnv σ} {h : ℕ}
    {absPath : Bytes} : Opened d (construct d r dbPath env).2 h absPath ↔
      if h = r.objects.next then openError env = [] ∧ absPath = d.absolute (cStr dbPath)
      else Opened d r h absPath := by
  rw [Opened, opening_construct, Opened]
  by_cases hn : h = r.objects.next
  · simp only [hn, if_true, Option.some.injEq, Prod.mk.injEq]
    constructor
    · rintro ⟨name, ⟨rfl, he⟩, rfl⟩
      exact ⟨he, rfl⟩
    · rintro ⟨he, rfl⟩
      exact ⟨cStr dbPath, ⟨rfl, he⟩, rfl⟩
  · simp only [hn, if_false]

theorem oneEach_makeHandle {s : State τ σ} (hg : Good d s) (hs : OneEach d s) {t : τ}
    {dbPath : Bytes} (hph : (s.threads t).phase = .makeHandle dbPath) (env : OpenEnv σ) :
    OneEach d (move s t (.register dbPath (openError env) s.registry.objects.next)
        (construct d s.registry dbPath env).2) ↔
      (openError env = [] → ∀ t' h, (s.threads t').phase = .lockToDestroy h →
        ¬Opened d s.registry h (d.absolute (cStr dbPath))) := by
  have hnew : ∀ {h a}, Opened d s.registry h a → h ≠ s.registry.objects.next := by
    rintro _ a ⟨name, hn, -⟩ rfl
    rw [opening_next] at hn
    cases hn
  constructor
  · intro hone he t' h _ ho
    refine hnew ho (hone (d.absolute (cStr dbPath)) _ _ ?_ ?_)
    · exact (opened_construct d).mpr (by rwa [if_neg (hnew ho)])
    · exact (opened_construct d).mpr (by rw [if_pos rfl]; exact ⟨he, rfl⟩)
  · intro hw a h h' ho ho'
    have hold : ∀ {i}, Opened d s.registry i a →
        ¬(openError env = [] ∧ a = d.absolute (cStr dbPath)) := by
      rintro i hi ⟨he, rfl⟩
      obtain ⟨t', ht'⟩ := waiting_of_opened d hg hph hi
      exact hw he t' i ht' hi
    have ho := (opened_construct d).mp ho
    have ho' := (opened_construct d).mp ho'
    split at ho <;> split at ho'
    · next hn hn' => exact hn.trans hn'.symm
    · exact absurd ho (hold ho')
    · exact absurd ho' (hold ho)
    · exact hs a h h' ho ho'

theorem oneEach_step {s : State τ σ} (e : HonestEvent τ σ) (hg : Good d s) (hs : OneEach d s) :
    OneEach d (honestNext d s e) ↔ NoneWaiting d s e := by
  cases e with
  | copy t t' h =>
    exact iff_of_true (hs.of_opening d fun i => .inl (copy_opening s t t' h i)) trivial
  | registry e he =>
    cases e with
    | openDatabase t dbPath =>
      refine iff_of_true (hs.of_opening d fun h => .inl ?_) trivial
      unfold honestNext next
      dsimp only
      split <;> rfl
    | drop t h =>
      refine iff_of_true (hs.of_opening d fun i => .inl ?_) trivial
      unfold honestNext next RegistryThreads.drop
      dsimp only
      split
      · exact opening_setCount _ _ _ _
      · rfl
    | step t env visit =>
      by_cases hm : ∃ dbPath, (s.threads t).phase = .makeHandle dbPath
      · obtain ⟨dbPath, hph⟩ := hm
        have hnext : honestNext d s (.registry (.step t env visit) he) =
            move s t (.register dbPath (openError env) s.registry.objects.next)
              (construct d s.registry dbPath env).2 := by
          simp [honestNext, next, step, hph, construct]
        rw [hnext, oneEach_makeHandle d hg hs hph]
        simp [NoneWaiting, hph]
      · have hm := not_exists.mp hm
        refine iff_of_true (hs.of_opening d fun h => opening_step d env visit hm h) ?_
        exact fun dbPath hph => absurd hph (hm dbPath)

/-- In every run there is at most one connection on each path, exactly when no path is
opened while the destructor of a handle on it waits for the mutex. -/
theorem one_connection_iff (files : Bytes → Bool) (es : List (HonestEvent τ σ)) :
    AllStates (honestNext d) (OneEach d) (RegistryThreads.initial files) es ↔
      AllSteps (honestNext d) (NoneWaiting d) (RegistryThreads.initial files) es := by
  refine allStates_iff_allSteps (next_good d) (fun s e => oneEach_step d e)
    (initial_good d files) ?_
  rintro a h h' ⟨name, hn, -⟩
  have hnone : opening (DatabaseSet.initial files : DatabaseSet.State σ) h = none := rfl
  cases hnone.symm.trans hn

def honestSteps (t : Bool) (n : ℕ) : List (HonestEvent Bool (List ℕ)) :=
  List.replicate n (.registry (.step t created []) (by decide : HonestOpen created))

/-- One thread opens the path before the destructor of the other one gets the mutex. -/
def reopenedTooEarly : List (HonestEvent Bool (List ℕ)) :=
  .registry (.openDatabase false (ascii "a")) trivial :: honestSteps false 5 ++
    .registry (.drop false 0) trivial ::
      .registry (.openDatabase true (ascii "a")) trivial :: honestSteps true 4

theorem reopenedTooEarly_twice : ¬AllStates (honestNext flatDirectory) (OneEach flatDirectory)
    (RegistryThreads.initial fun _ => false) reopenedTooEarly := by
  intro h
  have h01 := h.last (ascii "/a") 0 1 ⟨ascii "a", by decide, by decide⟩
    ⟨ascii "a", by decide, by decide⟩
  exact absurd h01 (by decide)

end OneConnection
