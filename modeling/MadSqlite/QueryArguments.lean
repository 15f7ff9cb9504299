import MadSqlite.CursorRows
import MadSqlite.SqliteBindings

/-! # The arguments of a query

The bind loop of `query` goes on after a failure and the cursor gets the statement all the
same, so a refused argument reads as NULL and the rows show no sign of it. -/
namespace QueryArguments

open CppStrings ContentValues HandleTable SqliteCommands SqliteConnection
open SqliteConnection.Connection MadDatabase SqliteRows SqliteValues SqliteBindings CursorRows Runs

variable {σ ρ : Type*} {limit : LengthLimit}

/-- A query, what SQLite answers to its calls, and what the executions of a statement yield
with its parameters as they are. -/
structure QueryCall (limit : LengthLimit) (ρ : Type*) where
  sql : Bytes
  args : List Bytes
  env : QueryEnv
  within : WithinLimit limit env.bind
  execute : Stmt → ℕ → Run ρ

/-- The statement of the cursor that the query returns. -/
def cursorStmt (h : MadDatabase.Impl σ) (c : QueryCall limit ρ) : Option Stmt :=
  queriedStmt h c.sql c.args c.env

def cursor (h : MadDatabase.Impl σ) (c : QueryCall limit ρ) : State ρ :=
  initial (query h c.sql c.args c.env).1 fun n =>
    match cursorStmt h c with
    | some s => c.execute s n
    | none => .completed []

def HasArguments (limit : LengthLimit) (s : Stmt) (args : List Bytes) : Prop :=
  ∀ i str, args[i]? = some str → parameter limit s (i + 1) = .text str

/-- The cursor of a query yields no row when an argument could not be bound, and else the rows
of the statement with these arguments. -/
structure Sound (h : MadDatabase.Impl σ) (c : QueryCall limit ρ) : Prop where
  refused : (∃ b ∈ queryBindings h c.sql c.args c.env, b.answer ≠ none) →
    ∀ ms, current (run next (cursor h c) ms) = none
  bound : (∀ b ∈ queryBindings h c.sql c.args c.env, b.answer = none) →
    ∀ s, cursorStmt h c = some s → HasArguments limit s c.args
  complete : ∀ ms row, current (run next (cursor h c) ms) = some row →
    ∃ s, cursorStmt h c = some s ∧ HasArguments limit s c.args

/-- The statement with the arguments that SQLite accepts. -/
def partlyBound (c : QueryCall limit ρ) : Stmt :=
  ⟨c.sql, acceptedFrom c.env.bind 0 c.args, c.env.writes, c.env.counts, false⟩

def Refused (c : QueryCall limit ρ) : Prop :=
  ∃ i str, c.args[i]? = some str ∧ c.env.bind (i + 1) (argument str) ≠ none

/-- The text is no statement; or every argument is accepted and has less than two gigabytes;
or one is refused and the statement without it yields no row. -/
def SoundWhen (c : QueryCall limit ρ) : Prop :=
  ¬Compiles c.sql c.env ∨ (¬Refused c ∧ ∀ str ∈ c.args, str.length < 2 ^ 31) ∨
    (Refused c ∧ ∀ n, (c.execute (partlyBound c) n).rows = [])

theorem query_compiles (h : MadDatabase.Impl σ) {c : QueryCall limit ρ}
    (hc : Compiles c.sql c.env) : (query h c.sql c.args c.env).1 = some h.db.stmts.next ∧
      cursorStmt h c = some (partlyBound c) :=
  query_stmt h c.args hc

theorem query_not_compiled (h : MadDatabase.Impl σ) {c : QueryCall limit ρ}
    (hc : ¬Compiles c.sql c.env) : (query h c.sql c.args c.env).1 = none := by
  have hc' : ¬(c.env.prepare c.sql = none ∧ isBlank c.sql = false) := hc
  simp only [query, sqlite3PrepareV2, if_neg hc']

theorem parameter_eq (c : QueryCall limit ρ) {i : ℕ} {str : Bytes} (hs : c.args[i]? = some str) :
    parameter limit (partlyBound c) (i + 1) = .text str ↔
      c.env.bind (i + 1) (argument str) = none ∧ str.length < 2 ^ 31 := by
  have hl := lookup_acceptedFrom c.env.bind (i := 0) hs
  rw [Nat.zero_add] at hl
  rw [parameter, partlyBound, hl]
  by_cases ha : c.env.bind (i + 1) (argument str) = none
  · have hset : sqlite3VdbeMemSetStr limit .utf8 str (toInt str.length) ≠ none := by
      have hw := c.within (i + 1) _ ha
      simpa [argument, bindValue] using hw
    rw [if_pos ha, and_iff_right ha, ← setStr_whole_iff hset]
    cases hy : sqlite3VdbeMemSetStr limit .utf8 str (toInt str.length) with
    | none => exact absurd hy hset
    | some y => simp [argument, bindValue, hy]
  · simp [ha]

theorem hasArguments_iff (c : QueryCall limit ρ) :
    HasArguments limit (partlyBound c) c.args ↔
      ¬Refused c ∧ ∀ str ∈ c.args, str.length < 2 ^ 31 := by
  constructor
  · intro h
    constructor
    · rintro ⟨i, str, hs, hr⟩
      exact hr ((parameter_eq c hs).mp (h i str hs)).1
    · intro str hm
      obtain ⟨i, hi⟩ := List.mem_iff_getElem?.mp hm
      exact ((parameter_eq c hi).mp (h i str hi)).2
  · rintro ⟨hr, hl⟩ i str hs
    refine (parameter_eq c hs).mpr ⟨?_, hl str (List.mem_of_getElem? hs)⟩
    by_contra ha
    exact hr ⟨i, str, hs, ha⟩

theorem bindings_refused (h : MadDatabase.Impl σ) {c : QueryCall limit ρ}
    (hc : Compiles c.sql c.env) :
    (∃ b ∈ queryBindings h c.sql c.args c.env, b.answer ≠ none) ↔ Refused c := by
  simp only [queryBindings_eq, mem_numbered, if_pos hc, List.getElem?_map]
  constructor
  · rintro ⟨b, ⟨j, v, hv, rfl⟩, ha⟩
    obtain ⟨str, hs, rfl⟩ := Option.map_eq_some_iff.mp hv
    exact ⟨j, str, hs, by simpa [argument] using ha⟩
  · rintro ⟨i, str, hs, ha⟩
    exact ⟨_, ⟨i, _, by rw [hs]; rfl, rfl⟩, by simpa [argument] using ha⟩

theorem cursor_no_row (h : MadDatabase.Impl σ) {c : QueryCall limit ρ}
    (hc : Compiles c.sql c.env) : (∀ ms, current (run next (cursor h c) ms) = none) ↔
      ∀ n, (c.execute (partlyBound c) n).rows = [] := by
  obtain ⟨hq, hs⟩ := query_compiles h hc
  rw [cursor, no_row_iff, runsOf, hq, if_neg (by simp), hs]

theorem cursor_not_compiled (h : MadDatabase.Impl σ) {c : QueryCall limit ρ}
    (hc : ¬Compiles c.sql c.env) (ms : List Move) : current (run next (cursor h c) ms) = none := by
  refine (no_row_iff _ _).mpr (fun n => ?_) ms
  rw [runsOf, query_not_compiled h hc, if_pos rfl]

theorem sound_not_compiled (h : MadDatabase.Impl σ) {c : QueryCall limit ρ}
    (hc : ¬Compiles c.sql c.env) : Sound h c := by
  have hrow := cursor_not_compiled h hc
  refine ⟨fun _ => hrow, fun _ s hs => ?_, fun ms row hm => ?_⟩
  · cases (queriedStmt_not_compiled h c.args hc).symm.trans hs
  · rw [hrow ms] at hm
    cases hm

theorem sound_of_arguments (h : MadDatabase.Impl σ) {c : QueryCall limit ρ}
    (hc : Compiles c.sql c.env) (harg : HasArguments limit (partlyBound c) c.args) :
    Sound h c := by
  obtain ⟨-, hs⟩ := query_compiles h hc
  have hnr := ((hasArguments_iff c).mp harg).1
  constructor
  · exact fun hr => absurd ((bindings_refused h hc).mp hr) hnr
  · rintro - s hs'
    cases hs.symm.trans hs'
    exact harg
  · exact fun _ _ _ => ⟨_, hs, harg⟩

theorem sound_of_no_row (h : MadDatabase.Impl σ) {c : QueryCall limit ρ}
    (hc : Compiles c.sql c.env) (hr : Refused c)
    (hrow : ∀ ms, current (run next (cursor h c) ms) = none) : Sound h c := by
  obtain ⟨b, hb, ha⟩ := (bindings_refused h hc).mpr hr
  constructor
  · exact fun _ => hrow
  · exact fun hall => absurd (hall b hb) ha
  · intro ms row hm
    rw [hrow ms] at hm
    cases hm

/-- A query is sound exactly when its text is no statement, all its arguments get into the
statement, or the statement yields no row without the refused ones. -/
theorem sound_iff (h : MadDatabase.Impl σ) (c : QueryCall limit ρ) : Sound h c ↔ SoundWhen c := by
  by_cases hc : Compiles c.sql c.env
  · obtain ⟨-, hs⟩ := query_compiles h hc
    have hcond : SoundWhen c ↔ HasArguments limit (partlyBound c) c.args ∨
        (Refused c ∧ ∀ n, (c.execute (partlyBound c) n).rows = []) := by
      rw [SoundWhen, or_iff_right (not_not.mpr hc), hasArguments_iff]
    rw [hcond, ← cursor_no_row h hc]
    constructor
    · intro hsound
      by_cases hr : Refused c
      · exact .inr ⟨hr, hsound.refused ((bindings_refused h hc).mpr hr)⟩
      · refine .inl (hsound.bound (fun b hb => ?_) _ hs)
        by_contra ha
        exact hr ((bindings_refused h hc).mp ⟨b, hb, ha⟩)
    · rintro (harg | ⟨hr, hrow⟩)
      · exact sound_of_arguments h hc harg
      · exact sound_of_no_row h hc hr hrow
  · exact iff_of_true (sound_not_compiled h hc) (.inl hc)

def rangeError : Failure := ⟨25, ascii "bind or column index out of range", by decide⟩

theorem rangeError_within (limit : LengthLimit) :
    WithinLimit limit fun _ _ => some rangeError := by
  intro i w h
  cases h

/-- One argument for a statement without parameters. -/
def tooMany : QueryCall defaultLimit ℕ :=
  ⟨ascii "SELECT 1", [ascii "x"], ⟨fun _ => none, false, false, fun _ _ => some rangeError⟩,
    rangeError_within _, fun _ _ => .completed [1]⟩

theorem tooMany_unsound : ¬Sound (MadDatabase.Impl.opened ([] : List ℕ)) tooMany := by
  intro h
  have hc : Compiles tooMany.sql tooMany.env := ⟨rfl, by decide⟩
  have hr : Refused tooMany := ⟨0, ascii "x", rfl, by simp [tooMany]⟩
  have hrow := h.refused ((bindings_refused _ hc).mpr hr)
  have hnil := (cursor_no_row _ hc).mp hrow 0
  cases hnil

end QueryArguments
