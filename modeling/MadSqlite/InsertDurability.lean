import MadSqlite.HandleCalls

/-! # Inserts outside a transaction

An insert in autocommit mode commits when its statement is the only active writer. A
statement whose lock was refused is never finalised and stays one, so from then on rows
that are reported as stored are not committed. A bind call that fails is reported as a
success too. -/
namespace InsertDurability

open CppStrings ContentValues TransactionalStore SqliteConnection SqliteConnection.Connection
open MadDatabase HandleCalls Runs

variable {σ : Type*} (p : Platform)

/-- An insert that returns true has what its statement stored in the file, and in no open
transaction; where the schema has a row ignored, that is nothing. -/
def Committed (h : Impl σ) (c : InsertCall σ) : Prop :=
  (insertValues p h c).1 = true → ∃ r, insertRan c = some r ∧
    (insertNext p h c).db.store.writing = false ∧
    (insertNext p h c).db.store.file = r.work h.db.store.view

/-- A prepared insert gets all its values bound, and when it succeeds no statement of an
earlier insert still waits for its lock. -/
def DurableWhen (h : Impl σ) (c : InsertCall σ) : Prop :=
  Prepared c → BindsSucceed c.values.impl c.env ∧
    ∀ r, insertRan c = some r → r.error = none → r.endsTransaction true = false →
      h.db.otherWriters = 0

theorem insert_keeps_autoCommit (h : Impl σ) (c : InsertCall σ) (hc : h.db.autoCommit = true) :
    (insertNext p h c).db.autoCommit = true := by
  unfold insertNext
  cases hr : insertRan c with
  | none =>
    obtain ⟨b, t, m, hi, -⟩ := insert_not_ran p h hr
    rw [hi]
    exact hc
  | some r =>
    obtain ⟨a, d, n, m, he, hi⟩ := insert_ran p h hr
    rw [hi]
    cases he <;> simp [hc]

theorem committed_not_ran {h : Impl σ} {c : InsertCall σ} (hr : insertRan c = none) :
    Committed p h c ↔ DurableWhen h c := by
  obtain ⟨b, t, m, hi, hb, -⟩ := insert_not_ran p h hr
  constructor
  · intro hd hp
    by_contra hn
    have hbind : ¬BindsSucceed c.values.impl c.env := fun hs => hn ⟨hs, by simp [hr]⟩
    obtain ⟨r, hr', -⟩ := hd (by rw [hi]; exact hb.mpr ⟨hp, hbind⟩)
    simp [hr] at hr'
  · intro hd ht
    rw [hi] at ht
    obtain ⟨hp, hn⟩ := hb.mp ht
    exact absurd (hd hp).1 hn

theorem committed_ran {h : Impl σ} {c : InsertCall σ} {r : Ran σ} (hc : h.db.autoCommit = true)
    (hr : insertRan c = some r) : Committed p h c ↔ DurableWhen h c := by
  obtain ⟨hp, hb, -⟩ := insertRan_some.mp hr
  have hd : DurableWhen h c ↔
      (r.error = none → r.endsTransaction true = false → h.db.otherWriters = 0) := by
    simp [DurableWhen, hp, hb, hr]
  obtain ⟨a, d, n, m, he, hi⟩ := insert_ran p h hr
  rw [hd]
  unfold Committed insertNext
  rw [hi]
  cases he with
  | committed _ ho => simp [ho, hr]
  | rolledBack _ ho => simp [ho]
  | ended hends => simp [hends]
  | kept hn hends =>
    have ho : h.db.otherWriters ≠ 0 := fun ho => hn ⟨hc, ho⟩
    simp [hends, ho]
  | undone ho hends hk =>
    have hn : r.error ≠ none := fun hn => hk (.inl hn)
    simp [hn]

theorem committed_step {h : Impl σ} {c : InsertCall σ} (hc : h.db.autoCommit = true) :
    Committed p h c ↔ DurableWhen h c := by
  cases hr : insertRan c with
  | none => exact committed_not_ran p hr
  | some r => exact committed_ran p hc hr

/-- Outside a transaction every insert that returns true is durable exactly when each
insert of the run meets the condition. -/
theorem committed_iff {h : Impl σ} (hc : h.db.autoCommit = true) (cs : List (InsertCall σ)) :
    AllSteps (insertNext p) (Committed p) h cs ↔ AllSteps (insertNext p) DurableWhen h cs :=
  allSteps_congr (I := fun h => h.db.autoCommit = true) (insert_keeps_autoCommit p)
    (fun _ _ hc => committed_step p hc) hc

def storedTwice : List (InsertCall (List ℕ)) :=
  [insertRow 1, insertRow 2]

theorem storedTwice_committed : AllSteps (insertNext .noConversion) (Committed .noConversion)
    (Impl.opened []) storedTwice :=
  (committed_iff .noConversion rfl storedTwice).mpr
    ⟨fun _ => ⟨by decide, fun _ _ _ _ => by decide⟩, fun _ => ⟨by decide, fun _ _ _ _ => by decide⟩,
      trivial⟩

/-- Another connection holds the lock during the first insert only. -/
def refusedThenStored : List (InsertCall (List ℕ)) :=
  [insertOne (.lockBusy (ascii "database is locked")), insertRow 2]

theorem refusedThenStored_not_committed : ¬AllSteps (insertNext .noConversion)
    (Committed .noConversion) (Impl.opened []) refusedThenStored := by
  rintro ⟨-, hc, -⟩
  obtain ⟨r, -, hw, -⟩ := hc (by decide)
  exact absurd hw (by decide)

end InsertDurability
