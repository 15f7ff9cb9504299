import MadSqlite.InsertText
import MadSqlite.SqliteBindings

/-! # What an insert hands to SQLite

The loop that builds the text knows its last round by comparing keys, and the loop that binds
runs over the same keys again. The keys are distinct, so both go over each key once. -/
namespace InsertStatement

open CppStrings ContentValues ContentMap SqliteConnection MadDatabase HandleCalls InsertText
open SqliteBindings Runs

variable {σ : Type*} (p : Platform)

def insertText (table : Bytes) (ks : List Bytes) : Bytes :=
  ascii "INSERT INTO [" ++ table ++ ascii "] (" ++
    (ascii ",").intercalate (ks.map fun key => ascii "[" ++ key ++ ascii "] ") ++ ascii ")" ++
    ascii " VALUES (" ++ (ascii ",").intercalate (ks.map fun _ => ascii "?") ++ ascii ");"

theorem columnText_eq {ks : List Bytes} (hn : ks ≠ []) : columnText ks =
    (ascii ",").intercalate (ks.map fun key => ascii "[" ++ key ++ ascii "] ") ++ ascii ")" := by
  induction ks with
  | nil => exact absurd rfl hn
  | cons key ks ih =>
    cases ks with
    | nil => simp [columnText, bracketed, ascii, List.intercalate]
    | cons key' ks =>
      have ht : columnText (key :: key' :: ks) =
          bracketed key ++ ascii " ," ++ columnText (key' :: ks) := rfl
      rw [ht, ih (List.cons_ne_nil _ _)]
      simp [bracketed, ascii, List.intercalate]

theorem valueText_eq {ks : List Bytes} (hn : ks ≠ []) : valueText ks =
    (ascii ",").intercalate (ks.map fun _ => ascii "?") ++ ascii ");" := by
  induction ks with
  | nil => exact absurd rfl hn
  | cons key ks ih =>
    cases ks with
    | nil => simp [valueText, ascii, List.intercalate]
    | cons key' ks =>
      have hv : valueText (key :: key' :: ks) = ascii "?," ++ valueText (key' :: ks) := rfl
      rw [hv, ih (List.cons_ne_nil _ _)]
      simp [ascii, List.intercalate]

theorem insertSql_text (table : Bytes) {ks : List Bytes} (hn : ks ≠ []) (hd : ks.Nodup) :
    insertSql table ks = insertText table ks := by
  rw [insertSql_eq table hn hd, columnText_eq hn, valueText_eq hn, insertText]
  simp [bracketed, ascii]

/-- What an insert of these contents makes of them: the text, and while the calls succeed one
bind call for each key in the order of the text. The statement that the insert leaves has this
text and the values of the calls that were accepted, and a refused call is what the insert
ends with. -/
structure Builds (h : MadDatabase.Impl σ) (c : InsertCall σ) (m : Contents) : Prop where
  keys : (keys c.env.order c.values.impl).Nodup ∧
    ∀ key, key ∈ ContentValues.keys c.env.order c.values.impl ↔ key ∈ m
  typed : ∀ key ∈ ContentValues.keys c.env.order c.values.impl, ∃ v, m.lookup key = some v ∧
    typeForKey c.values.impl key = .ok v.type ∧ v.type ≠ .none
  text : insertSql c.table (ContentValues.keys c.env.order c.values.impl) =
    insertText c.table (ContentValues.keys c.env.order c.values.impl)
  bindings : Prepared c → ∃ vs : List Value,
    (ContentValues.keys c.env.order c.values.impl).map m.lookup = vs.map some ∧
      insertBindings p h c = upToFailure (numbered c.env.bind 0 (vs.map bindCallOf))
  statement : Prepared c → ∃ s, insertedStmt p h c = some s ∧
    s.sql = insertText c.table (ContentValues.keys c.env.order c.values.impl) ∧
      s.bound = (accepted (insertBindings p h c)).reverse
  refused : Prepared c → ∀ b ∈ insertBindings p h c, ∀ f, b.answer = some f →
    (insertValues p h c).1 = true ∧ (insertValues p h c).2.db.errMsg = f.msg

theorem builds_of_agrees (h : MadDatabase.Impl σ) {c : InsertCall σ} {m : Contents}
    (ha : Agrees c.values.impl m) (hn : m ≠ ∅) : Builds p h c m := by
  have hr := ha.represents
  obtain ⟨hd, hmem⟩ := hr.keys c.env.order
  have hks : ContentValues.keys c.env.order c.values.impl ≠ [] := by
    intro hk
    refine hn (eq_empty_iff.mpr fun key hm => ?_)
    rw [← hmem, hk] at hm
    cases hm
  constructor
  · exact ⟨hd, hmem⟩
  · intro key hk
    obtain ⟨v, hv⟩ := Finmap.mem_iff.mp ((hmem key).mp hk)
    refine ⟨v, hv, by rw [hr.typeForKey, hv]; rfl, ?_⟩
    cases v <;> simp [Value.type]
  · exact insertSql_text c.table hks hd
  · intro hp
    obtain ⟨vs, hv⟩ := exists_values ha c.env.order
    exact ⟨vs, hv, insertBindings_eq p h ha hp hv⟩
  · intro hp
    obtain ⟨s, hs, hsql, hbound⟩ := insertedStmt_bound p h ha hp
    exact ⟨s, hs, hsql.trans (insertSql_text c.table hks hd), hbound⟩
  · exact fun hp b hb f hf => insert_refused p h ha hp hb hf

/-- Whatever calls have filled the container, an insert of it hands SQLite this text and
these values. -/
theorem builds (h : MadDatabase.Impl σ) (table : Bytes) (calls : List ContentMap.Call)
    (env : InsertEnv σ) (hn : run apply ∅ calls ≠ ∅) :
    Builds p h ⟨table, run ContentMap.next .new calls, env⟩ (run apply ∅ calls) :=
  builds_of_agrees p h (run_agrees empty_agrees calls) hn

def twoPuts : List ContentMap.Call :=
  [.putString (ascii "b") (ascii "x"), .clear, .putReal (ascii "a") 1, .putInteger (ascii "k") 1,
    .putBlob (ascii "a") [7]]

theorem builds_twoPuts : Builds .noConversion (MadDatabase.Impl.opened [])
    ⟨ascii "t", run ContentMap.next .new twoPuts, (insertRow 1).env⟩ (run apply ∅ twoPuts) :=
  builds .noConversion _ (ascii "t") twoPuts (insertRow 1).env fun he => by
    have hl : (run apply ∅ twoPuts).lookup (ascii "k") = some (.int 1) := by
      have hne : ascii "k" ≠ ascii "a" := by decide
      simp [twoPuts, run, apply, Finmap.lookup_insert_of_ne _ hne]
    simp [he] at hl

end InsertStatement
