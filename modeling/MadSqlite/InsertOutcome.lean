import MadSqlite.RollbackRestores
import MadSqlite.SqliteCalls
import Mathlib.Data.Multiset.Basic

/-! # What the result of an insert says

True should mean that the statement ran to its end, and false or a failed call that no row
came in. A failed bind call is reported by -1, which is true as a bool; and a program that
fails with OE_Fail keeps what it has done so far, so its row can be there after a false. -/
namespace InsertOutcome

open CppStrings ContentValues TransactionalStore SqliteConnection SqliteConnection.Connection
open MadDatabase HandleCalls SqliteCalls RollbackRestores

variable {σ ρ : Type*} (p : Platform) (rows : σ → Multiset ρ)

/-- Every row was there before the call: in the content, or in the file when the call has
rolled the transaction back. -/
def NoRowAdded (h : Impl σ) (c : InsertCall σ) (content : σ) : Prop :=
  rows content ≤ rows h.db.store.view ∨
    ∃ r, insertRan c = some r ∧ RollsBack h.db r ∧ rows content ≤ rows h.db.store.file

structure Honest (h : Impl σ) (c : InsertCall σ) : Prop where
  result : (insertValues p h c).1 = true ↔
    ∃ q ∈ insertLog p h c, q.function = .step ∧ q.rc = SQLITE_DONE
  failed : (insertValues p h c).1 = false ∨ (∃ q ∈ insertLog p h c, q.Failed) →
    NoRowAdded rows h c (insertValues p h c).2.db.store.view

/-- A prepared insert gets all its values bound, and where its program fails and SQLite keeps
what it did, it has added no row to the content it found. -/
structure HonestWhen (h : Impl σ) (c : InsertCall σ) : Prop where
  bound : Prepared c → BindsSucceed c.values.impl c.env
  kept : ∀ r, insertRan c = some r → r.error ≠ none → ChangesStay h.db r →
    rows (r.work h.db.store.view) ≤ rows h.db.store.view

/-- A program that keeps its change is not rolled back, so only what it found counts. -/
theorem noRowAdded_kept {h : Impl σ} {c : InsertCall σ} {r : Ran σ} (hr : insertRan c = some r)
    (hst : ChangesStay h.db r) (content : σ) :
    NoRowAdded rows h c content ↔ rows content ≤ rows h.db.store.view := by
  refine or_iff_left ?_
  rintro ⟨r', hr', hback, -⟩
  cases hr.symm.trans hr'
  exact not_rollsBack hst hback

theorem noRowAdded_not_ran {h : Impl σ} {c : InsertCall σ} (hr : insertRan c = none) :
    NoRowAdded rows h c (insertValues p h c).2.db.store.view := by
  obtain ⟨b, t, m, hi, -⟩ := insert_not_ran p h hr
  rw [hi]
  exact .inl le_rfl

theorem honest_empty (h : Impl σ) {c : InsertCall σ} (he : isEmpty c.values.impl = true) :
    Honest p rows h c := by
  have hi := insertValues_empty p h he
  have hl : insertLog p h c = [] := by simp [insertLog, he]
  constructor
  · simp [hi, hl]
  · intro _
    rw [hi]
    exact .inl le_rfl

/-- Of a log only the last call can be a step or can have failed. -/
theorem log_last {oks : List SqliteCall} {q : SqliteCall}
    (ho : ∀ o ∈ oks, o.rc = SQLITE_OK ∧ o.function ≠ .step) :
    ((∃ o ∈ oks ++ [q], o.function = .step ∧ o.rc = SQLITE_DONE) ↔
        q.function = .step ∧ q.rc = SQLITE_DONE) ∧
      ((∃ o ∈ oks ++ [q], o.Failed) ↔ q.Failed) := by
  constructor
  · constructor
    · rintro ⟨o, hm, hf, hd⟩
      rcases List.mem_append.mp hm with hm | hm
      · exact absurd hf (ho o hm).2
      · exact List.mem_singleton.mp hm ▸ ⟨hf, hd⟩
    · exact fun hq => ⟨q, by simp, hq⟩
  · constructor
    · rintro ⟨o, hm, hf⟩
      rcases List.mem_append.mp hm with hm | hm
      · exact absurd (ho o hm).1 hf.1
      · exact List.mem_singleton.mp hm ▸ hf
    · exact fun hq => ⟨q, by simp, hq⟩

theorem honest_step {h : Impl σ} {c : InsertCall σ} (hb : BindsSucceed c.values.impl c.env)
    (hf : (insertValues p h c).1 = false) :
    NoRowAdded rows h c (insertValues p h c).2.db.store.view ↔ HonestWhen rows h c := by
  cases hr : insertRan c with
  | none => exact iff_of_true (noRowAdded_not_ran p rows hr) ⟨fun _ => hb, by simp [hr]⟩
  | some r =>
    obtain ⟨a, d, n, m, he, hi⟩ := insert_ran p h hr
    have ha : a ≠ none := by simpa [hi] using hf
    rw [hi]
    rcases changesStay_or_undone he with ⟨hst, har, hv⟩ | ⟨hst, -, hundone⟩
    · have hre : r.error ≠ none := har ▸ ha
      simp only [hv]
      rw [noRowAdded_kept rows hr hst]
      constructor
      · refine fun hn => ⟨fun _ => hb, fun r' hr' _ _ => ?_⟩
        cases hr.symm.trans hr'
        exact hn
      · exact fun hw => hw.kept r hr hre hst
    · have hw : HonestWhen rows h c := by
        refine ⟨fun _ => hb, fun r' hr' _ hst' => ?_⟩
        cases hr.symm.trans hr'
        exact absurd hst' hst
      refine iff_of_true ?_ hw
      rcases hundone with ⟨hback, hv⟩ | ⟨-, hv⟩
      · simp only [hv]
        exact .inr ⟨r, hr, hback, le_rfl⟩
      · simp only [hv]
        exact .inl le_rfl

/-- The value is longer than SQLite takes. -/
def tooBig : InsertCall (List ℕ) :=
  { insertRow 1 with
    env := { (insertRow 1).env with bind := fun _ _ => some stringTooBig } }

end InsertOutcome
