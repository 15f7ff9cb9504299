import MadSqlite.HandleThreads

/-! # What the mutex gives

Any number of threads, any order of their steps, any answers. No thread waits for a mutex
that is not coming back; but not every call of SQLite is made under it. -/
namespace DatabaseMutex

open SqliteConnection MadDatabase SqliteCalls ScopedLock HandleThreads Runs

variable {τ : Type*} [DecidableEq τ] (p : Platform)

/-- In every state that can be reached no thread waits for itself, and who holds the mutex
gives it back. -/
theorem no_deadlock (es : List (Event τ Method Action Answers)) :
    NoDeadlock (program p) (run (next (program p)) initial es) :=
  (run_preserves (next_orderly (program_obeys p)) initial_orderly es).noDeadlock
    (program_obeys p)

/-- The thread has made the call since it took the mutex, and nobody else any. -/
def Own (s : State τ Method Action Answers) (t : τ) (f : SqliteFunction) : Prop :=
  s.mutex = some t ∧ (t, .sqlite f) ∈ s.since ∧ ∀ c ∈ s.since, (∃ f, c.2 = .sqlite f) → c.1 = t

/-- SQLite is called under the mutex, and the change count and the message that are read are
those of the thread itself. Finalising a statement is the cursor's own matter. -/
def Serial (s : State τ Method Action Answers) : Event τ Method Action Answers → Prop
  | .step t _ => ∀ a k, s.code t = .act a k →
      (∀ f, a = .sqlite f → f ≠ .finalize → s.mutex = some t) ∧
      (a = .sqlite .changes → Own s t (.call .exec)) ∧ (a = .copyMessage → Own s t .errmsg)
  | .call _ _ => True

/-- The step belongs to no call that uses the connection without a guard, and nobody else
has finalised a statement while the thread was on its way to what it reads. -/
def SerialWhen (s : State τ Method Action Answers) : Event τ Method Action Answers → Prop
  | .step t _ => ∀ a k, s.code t = .act a k →
      ((∃ f, a = .sqlite f) ∨ a = .copyMessage → ∀ m ∈ s.called t, ¬Outside m) ∧
      (a = .sqlite .changes ∨ a = .copyMessage →
        ∀ c ∈ s.since, c.2 = .sqlite .finalize → c.1 = t)
  | .call _ _ => True

/-- Apart from cursors that go, only the holder has called SQLite since it took the mutex. -/
def Kept (s : State τ Method Action Answers) : Prop :=
  ∀ t, s.mutex = some t → ∀ c ∈ s.since, ∀ f, c.2 = .sqlite f → f ≠ .finalize → c.1 = t

variable {s : State τ Method Action Answers} {t : τ}

theorem mem_since {l : List Action} {a : Action} (hi : inside s t = some l) (ha : a ∈ l) :
    s.mutex = some t ∧ (t, a) ∈ s.since := by
  have hm : s.mutex = some t := inside_ne_none.mp (by simp [hi])
  refine ⟨hm, ?_⟩
  simp only [inside, hm, if_true, Option.some.injEq] at hi
  rw [← hi] at ha
  obtain ⟨⟨u, b⟩, hb, rfl⟩ := List.mem_map.mp ha
  simp only [List.mem_filter, decide_eq_true_eq] at hb
  exact hb.2 ▸ hb.1

omit [DecidableEq τ] in
theorem own_iff (hk : Kept s) (hm : s.mutex = some t) {f : SqliteFunction}
    (hf : (t, .sqlite f) ∈ s.since) :
    Own s t f ↔ ∀ c ∈ s.since, c.2 = .sqlite .finalize → c.1 = t := by
  constructor
  · rintro ⟨-, -, hall⟩ c hc hfin
    exact hall c hc ⟨_, hfin⟩
  · intro hfin
    refine ⟨hm, hf, ?_⟩
    rintro c hc ⟨g, hg⟩
    by_cases hgf : g = .finalize
    · exact hfin c hc (hgf ▸ hg)
    · exact hk t hm c hc g hg hgf

theorem serial_step (ho : Orderly Admits s) (hk : Kept s) (e : Event τ Method Action Answers) :
    Serial s e ↔ SerialWhen s e := by
  cases e with
  | call t m => exact Iff.rfl
  | step t env =>
    refine forall_congr' fun a => forall_congr' fun k => imp_congr_right fun hc => ?_
    obtain ⟨m, hm⟩ := ho.called_of_busy (t := t) (by simp [hc])
    have ha := (ho.act hc m hm).1
    have hcalled : (∀ m' ∈ s.called t, ¬Outside m') ↔ ¬Outside m := by simp [hm]
    rw [hcalled]
    by_cases hfin : a = .sqlite .finalize
    · subst hfin
      simp [ha.2]
    by_cases hchg : a = .sqlite .changes
    · subst hchg
      obtain ⟨hout, l, hl, hexec⟩ := ha
      obtain ⟨hmutex, hmem⟩ := mem_since hl hexec
      simp [hout, hmutex, own_iff hk hmutex hmem]
    by_cases hcopy : a = .copyMessage
    · subst hcopy
      obtain ⟨hout, herr⟩ := ha
      cases hl : inside s t with
      | none =>
        have hmutex := inside_eq_none.mp hl
        simp [hout.mp hl, Own, hmutex]
      | some l =>
        obtain ⟨hmutex, hmem⟩ := mem_since hl (herr l hl)
        have hnot : ¬Outside m := fun h => by simp [hout.mpr h] at hl
        simp [hnot, own_iff hk hmutex hmem]
    cases a with
    | sqlite f =>
      have hio : inside s t = none ↔ Outside m := by
        cases f with
        | finalize => exact absurd rfl hfin
        | changes => exact absurd rfl hchg
        | _ => exact ha
      have hf : f ≠ .finalize := fun h => hfin (h ▸ rfl)
      have hmutex : s.mutex = some t ↔ ¬Outside m := by rw [← hio, inside_eq_none, not_not]
      simp only [Action.sqlite.injEq, forall_eq', hf, ne_eq, not_false_eq_true, true_implies, hchg,
        hmutex]
      simp
    | copyMessage => exact absurd rfl hcopy
    | _ => simp

theorem kept_step (ho : Orderly Admits s) (hk : Kept s) (e : Event τ Method Action Answers)
    (hw : SerialWhen s e) : Kept (next (program p) s e) := by
  have hs := (serial_step ho hk e).mpr hw
  cases e with
  | call t m =>
    unfold next
    dsimp only
    split <;> exact hk
  | step t env =>
    intro u
    rw [show next (program p) s (.step t env) = step s t env from rfl, step]
    cases hc : s.code t with
    | done => exact hk u
    | lock k =>
      dsimp only
      split
      · exact fun _ c hm => absurd hm List.not_mem_nil
      · exact hk u
    | unlock k =>
      intro hm
      cases hm
    | act a k =>
      intro hm c hmem f hf hne
      rcases List.mem_cons.mp hmem with rfl | hmem
      · have ht := (hs a k hc).1 f hf hne
        exact Option.some.inj (ht.symm.trans hm)
      · exact hk u hm c hmem f hf hne

/-- In every run, the calls of SQLite are serial exactly when no step belongs to getError,
moveToFirst or moveToNext and no cursor goes while another thread is about to read. -/
theorem serial_iff (es : List (Event τ Method Action Answers)) :
    AllSteps (next (program p)) Serial initial es ↔
      AllSteps (next (program p)) SerialWhen initial es := by
  refine allSteps_congr_while (I := fun s => Orderly Admits s ∧ Kept s) ?_ ?_
    ⟨initial_orderly, fun t ht => by cases ht⟩
  · rintro s e ⟨ho, hk⟩ hw
    exact ⟨next_orderly (program_obeys p) s e ho, kept_step p ho hk e hw⟩
  · rintro s e ⟨ho, hk⟩
    exact serial_step ho hk e

/-- SQLITE_OK and an empty answer of everything else. -/
def plain : ∀ a, Answers a
  | .sqlite (.call .exec) => (SQLITE_OK, false)
  | .sqlite .open | .sqlite .close | .sqlite .changes | .sqlite .errmsg | .sqlite .reset
  | .sqlite .finalize | .sqlite (.call .prepareV2) | .sqlite (.call .bind)
  | .sqlite (.call .step) => SQLITE_OK
  | .copyMessage => []
  | .isInTransaction | .getAbsoluteFilePath | .findEntry | .expired | .isAfterLast
  | .dropReference => false
  | .entries => (0 : ℕ)
  | .setInTransaction _ | .eraseEntry | .lockEntry | .emplaceEntry => ()

/-- One thread has asked for the message when the other one executes a statement. -/
def replacedMessage : List (Event Bool Method Action Answers) :=
  [.call true .getError, .step true plain, .step true plain, .step true plain,
    .call false .beginTransaction, .step false plain, .step false plain, .step false plain,
    .step true plain]

theorem replacedMessage_not_serial :
    ¬AllSteps (next (program .noConversion)) Serial initial replacedMessage := by
  rintro ⟨-, -, -, h, -⟩
  exact absurd ((h _ _ rfl).1 .errmsg rfl (by decide)) (by decide)

end DatabaseMutex
