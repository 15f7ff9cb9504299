import MadSqlite.BlobRoundTrip
import MadSqlite.NumberRoundTrip
import MadSqlite.QueryArguments
import MadSqlite.SqliteCompare

/-! # Looking for what was inserted

A query binds all of its arguments as text. Whether `WHERE column = ?` finds a row that `insert`
stored is a matter of the affinity of the column, which is applied to the argument too. -/
namespace SearchByArgument

open CppStrings ContentValues ContentMap FloatFormat FloatRounding SqliteAtoi SqliteConnection
open MadDatabase MadQuery HandleCalls InsertText SqliteRows SqliteValues SqliteNumbers SqliteCompare
open SqliteBindings SqliteTable TableInsert BlobRoundTrip CursorRows QueryArguments NumberRoundTrip
open Runs

variable {σ : Type*} {p : Platform} {t : RowTable σ} {limit : LengthLimit} {lib : NumberLibrary}
  {mach : Machine} {h : MadDatabase.Impl σ}

/-- An insert, and a query for the rows whose column equals its one argument. It gets through, and
each execution of it scans the table, without an index, and compares texts as BINARY does. -/
structure Search (p : Platform) (t : RowTable σ) (limit : LengthLimit) (lib : NumberLibrary)
    (mach : Machine) (h : MadDatabase.Impl σ) where
  insert : ColumnInsert p t limit lib h
  query : QueryCall limit Row
  argument : Bytes
  args : query.args = [argument]
  compiles : Compiles query.sql query.env
  accepted : ¬Refused query
  short : argument.length < 2 ^ 31
  scans : ∀ s n, ((query.execute s n).rows : Multiset Row) =
    (t.rows (insertValues p h insert.call).2.db.store.view).filter fun row =>
      whereEqual mach lib insert.column.affinity (row[insert.index]?.getD .null)
        (parameter limit s 1)

/-- The loop over a new cursor visits the rows of the first execution. -/
theorem visitAll_initial {ρ : Type*} (statement : Option ℕ) (runs : ℕ → Run ρ) :
    ∃ fuel s, visitAll fuel (initial statement runs) =
      some ((runsOf statement runs 0).rows.map some, s) := by
  have hsim := initial_sim statement runs
  have hok : (sqlite3Reset (initial statement runs).1.statement (initial statement runs).2).1 =
      SQLITE_OK := (reset_ok_iff hsim).mpr nofun
  obtain ⟨hs, hplace⟩ := moveToFirst_enters hsim hok
  obtain ⟨s, hv⟩ := visitLoop_rows hs hplace rfl
  exact ⟨_, s, hv⟩

namespace Search

variable (c : Search p t limit lib mach h)

/-- The handle after the insert. -/
def after : MadDatabase.Impl σ := (insertValues p h c.insert.call).2

/-- There is one row more, and the loop over the cursor of the query, which ends, has it among the
rows that it visits. -/
def Finds : Prop :=
  ∃ row, t.rows c.after.db.store.view = row ::ₘ t.rows h.db.store.view ∧
    ∃ fuel visits s, visitAll fuel (cursor c.after c.query) = some (visits, s) ∧ some row ∈ visits

theorem hasArgument : parameter limit (partlyBound c.query) 1 = .text c.argument := by
  have harg : c.query.args[0]? = some c.argument := by rw [c.args]; rfl
  refine (parameter_eq c.query harg).mpr ⟨?_, c.short⟩
  by_contra hn
  exact c.accepted ⟨0, c.argument, harg, hn⟩

/-- The rows that the loop visits. -/
theorem visits_rows : ∃ rows : List Row, (rows : Multiset Row) =
      ((t.rows c.after.db.store.view).filter fun row => whereEqual mach lib
        c.insert.column.affinity (row[c.insert.index]?.getD .null) (.text c.argument)) ∧
    ∃ fuel s, visitAll fuel (cursor c.after c.query) = some (rows.map some, s) := by
  obtain ⟨hstatement, hstmt⟩ := query_compiles c.after c.compiles
  have hcursor : cursor c.after c.query = initial (some c.after.db.stmts.next)
      (c.query.execute (partlyBound c.query)) := by
    rw [cursor, hstatement, hstmt]
  obtain ⟨fuel, s, hv⟩ := visitAll_initial (some c.after.db.stmts.next)
    (c.query.execute (partlyBound c.query))
  have hscan := c.scans (partlyBound c.query) 0
  rw [c.hasArgument] at hscan
  exact ⟨_, hscan, fuel, s, hcursor ▸ hv⟩

theorem finds_iff : c.Finds ↔ whereEqual mach lib c.insert.column.affinity c.insert.stored
    (.text c.argument) = true := by
  obtain ⟨row, hrows, hvalue⟩ := c.insert.row_added
  obtain ⟨rows, hfilter, fuel, s, hv⟩ := c.visits_rows
  have hmem : row ∈ rows ↔ whereEqual mach lib c.insert.column.affinity c.insert.stored
      (.text c.argument) = true := by
    rw [← Multiset.mem_coe, hfilter, Multiset.mem_filter, hvalue, Option.getD_some,
      and_iff_right (hrows ▸ Multiset.mem_cons_self row _)]
  rw [← hmem]
  constructor
  · rintro ⟨row', hrows', fuel', visits, s', hv', hm⟩
    obtain rfl : row' = row := (Multiset.cons_inj_left _).mp (hrows'.symm.trans hrows)
    obtain rfl : visits = rows.map some := congrArg Prod.fst (visitLoop_fuel hv' hv)
    simpa using hm
  · exact fun hm => ⟨row, hrows, fuel, _, s, hv, by simpa using hm⟩

end Search

/-- Which integers a search for the decimal text of `w` finds in a column of the affinity. A
column that likes reals has the double nearest to the integer. -/
def FoundBy (w v : Int64) : Affinity → Prop
  | .blob => False
  | .real => roundedInt v.toInt = w.toInt
  | .text | .numeric | .integer => v = w

/-- The texts that are written for integers are numbers. -/
def ReadsIntegers (lib : NumberLibrary) : Prop :=
  ∀ w : Int64, (lib.sqlite3AtoF (integerText w.toInt)).2 = true

theorem applyNumericAffinity_integerText (hlib : ReadsIntegers lib) (w : Int64) (b : Bool) :
    applyNumericAffinity lib (integerText w.toInt) b = .integer w := by
  rw [applyNumericAffinity, hlib w, if_neg Bool.false_ne_true.symm, atoi_integerText, if_pos rfl]

theorem integerText_inj {v w : Int64} : integerText v.toInt = integerText w.toInt ↔ v = w := by
  refine ⟨fun h => ?_, fun h => h ▸ rfl⟩
  have hv := atoi_integerText v
  rw [h, atoi_integerText] at hv
  exact (congrArg Prod.fst hv).symm

theorem compared_integerText (hlib : ReadsIntegers lib) (w : Int64) {affinity : Affinity}
    (ha : sqlite3IsNumericAffinity affinity = true) :
    compared lib affinity (.text (integerText w.toInt)) = .integer w := by
  cases affinity with
  | blob | text => cases ha
  | numeric | integer | real => exact applyNumericAffinity_integerText hlib w false

/-- A search by the decimal text of an integer finds an integer that was inserted exactly when it
is the same one, in a column of BLOB affinity never, and in one of REAL affinity when the double
that is stored for it is the number looked for; there an integer and a double are compared. -/
theorem integer_found_iff (hlib : ReadsIntegers lib) (c : Search p t limit lib mach h) {v w : Int64}
    (hm : c.insert.column.affinity = .real → mach.Exact) (hv : c.insert.value = .int v)
    (hw : c.argument = integerText w.toInt) : c.Finds ↔ FoundBy w v c.insert.column.affinity := by
  have hpos : (0 : ℤ) < 2 ^ 1074 := pow_pos (by decide) _
  have hstored : c.insert.stored =
      applyAffinity lib.values c.insert.column.affinity (.integer v) := by
    rw [ColumnInsert.stored, hv]
    rfl
  rw [c.finds_iff, hstored, hw]
  cases hc : c.insert.column.affinity with
  | blob =>
    have hkey := whereEqual_iff mach lib .blob (.integer v) (integerText w.toInt) (by simp)
      rfl rfl False.elim trivial trivial
    exact hkey.trans (iff_of_false (key_lt (by decide) _ _).ne id)
  | text =>
    have hkey := whereEqual_iff mach lib .text (.text (integerText v.toInt)) (integerText w.toInt)
      (by simp) rfl rfl False.elim trivial trivial
    exact hkey.trans (key_text.trans integerText_inj)
  | numeric =>
    have hkey := whereEqual_iff mach lib .numeric (.integer v) (integerText w.toInt) (by simp)
      rfl (compared_integerText hlib w rfl) False.elim trivial trivial
    exact hkey.trans key_integer
  | integer =>
    have hkey := whereEqual_iff mach lib .integer (.integer v) (integerText w.toInt) (by simp)
      rfl (compared_integerText hlib w rfl) False.elim trivial trivial
    exact hkey.trans key_integer
  | real =>
    obtain ⟨hscaled, hnan⟩ := scaled_ofInt (natAbs_lt v)
    have hkey := (whereEqual_iff mach lib .real (.real (ofInt v.toInt)) (integerText w.toInt)
      (by simp) rfl (compared_integerText hlib w rfl) (fun _ => hm hc) hnan trivial).trans key_real
    rw [hscaled] at hkey
    exact hkey.trans ⟨mul_right_cancel₀ hpos.ne', congrArg (· * 2 ^ 1074)⟩

/-- A search finds a text that was inserted into a column of TEXT or BLOB affinity exactly when it
looks for these bytes. -/
theorem finds_text_iff (c : Search p t limit lib mach h) {s : Bytes}
    (hs : c.insert.value = .text s) (hl : s.length ≤ limit.iLimit)
    (ha : sqlite3IsNumericAffinity c.insert.column.affinity = false) :
    c.Finds ↔ s = c.argument := by
  have hstored : c.insert.stored = .text s := by
    rw [ColumnInsert.stored, hs, bindCallOf, bindValue,
      setStr_short limit .utf8 (hl.trans_lt limit.lt), if_neg (not_lt.mpr hl)]
    cases hc : c.insert.column.affinity <;> simp [hc, sqlite3IsNumericAffinity] at ha <;> rfl
  rw [c.finds_iff, hstored]
  cases hc : c.insert.column.affinity with
  | blob =>
    exact (whereEqual_iff mach lib .blob (.text s) c.argument (by simp) rfl rfl
      False.elim trivial trivial).trans key_text
  | text =>
    exact (whereEqual_iff mach lib .text (.text s) c.argument (by simp) rfl rfl
      False.elim trivial trivial).trans key_text
  | numeric | integer | real =>
    rw [hc] at ha
    cases ha

/-- A blob comes after all that an argument can become. -/
theorem whereEqual_blob (affinity : Affinity) (b z : Bytes) :
    whereEqual mach lib affinity (.blob b) (.text z) = false := by
  have hnumeric : sqlite3MemCompare mach (.blob b) (applyNumericAffinity lib z false) = 1 := by
    unfold applyNumericAffinity
    split
    · rfl
    · split <;> rfl
  have haffinity : sqlite3CompareAffinity none (some affinity) = affinity := rfl
  rw [whereEqual, haffinity, decide_eq_false_iff_not,
    opCompare_eq_zero mach lib (by simp) (by simp)]
  cases affinity with
  | blob | text => exact one_ne_zero
  | numeric | integer | real => exact hnumeric.symm ▸ one_ne_zero

/-- An empty blob is bound as NULL. -/
theorem stored_blob (affinity : Affinity) (b : Bytes) :
    applyAffinity lib.values affinity ((bindValue limit (bindCallOf (.blob b))).getD .null) =
        .null ∨
      ∃ y, applyAffinity lib.values affinity ((bindValue limit (bindCallOf (.blob b))).getD .null) =
        .blob y := by
  have hnull : applyAffinity lib.values affinity .null = .null := by
    cases affinity <;> rfl
  have hblob (y : Bytes) : applyAffinity lib.values affinity (.blob y) = .blob y := by
    cases affinity <;> rfl
  rw [bindCallOf]
  split
  · exact .inl hnull
  · rw [bindValue]
    cases sqlite3VdbeMemSetStr limit .none b (toInt b.length) with
    | none => exact .inl hnull
    | some y => exact .inr ⟨y, hblob y⟩

/-- No search finds a blob, whatever the affinity of the column is. -/
theorem blob_not_found (c : Search p t limit lib mach h) {b : Bytes}
    (hb : c.insert.value = .blob b) : ¬c.Finds := by
  rw [c.finds_iff, ColumnInsert.stored, hb]
  rcases stored_blob c.insert.column.affinity b with hn | ⟨y, hy⟩
  · rw [hn]
    exact Bool.false_ne_true
  · rw [hy, whereEqual_blob]
    exact Bool.false_ne_true

theorem integersOnly_reads : ReadsIntegers integersOnly := fun w => by
  simp [integersOnly, atoi_integerText]

theorem returns_betweenDoubles : (insertValues .noConversion (Impl.opened [])
    (insertCall (ascii "t") [.putInteger (ascii "a") 9007199254740993] serveReal)).1 = true := by
  decide +kernel

/-- 2 ^ 53 + 1, which no double is. -/
def betweenDoubles :
    ColumnInsert .noConversion realTable defaultLimit integersOnly (Impl.opened []) where
  table := ascii "t"
  calls := [.putInteger (ascii "a") 9007199254740993]
  env := serveReal
  index := 0
  column := realColumn
  key := ascii "a"
  value := .int 9007199254740993
  intoTable := wholeNumber.intoTable
  stores := wholeNumber.stores
  isColumn := wholeNumber.isColumn
  ordinary := wholeNumber.ordinary
  provides := by decide
  put := by simp [contents, run, apply]
  clean := by decide
  bound := by decide
  returned := returns_betweenDoubles

/-- A statement that compiles and takes every argument within the limit. -/
def takesText : QueryEnv := ⟨fun _ => none, false, false, limited defaultLimit fun _ _ => none⟩

theorem takesText_within : WithinLimit defaultLimit takesText.bind := limited_within _ _

/-- A search of the rows of a list. -/
def lookFor (content : List Row) (affinity : Affinity) (arg : Bytes) :
    QueryCall defaultLimit Row where
  sql := ascii "SELECT * FROM t WHERE a = ?"
  args := [arg]
  env := takesText
  within := takesText_within
  execute s _ := .completed (content.filter fun row => whereEqual narrow integersOnly affinity
    (row[0]?.getD .null) (parameter defaultLimit s 1))

theorem lookFor_accepted (content : List Row) (affinity : Affinity) {arg : Bytes}
    (ha : bindValue defaultLimit (argument arg) ≠ none) :
    ¬Refused (lookFor content affinity arg) := by
  rintro ⟨i, str, hs, hr⟩
  obtain rfl : str = arg := by simpa [lookFor] using List.mem_of_getElem? hs
  have hbind : (if bindValue defaultLimit (argument str) = none then some stringTooBig else none) =
      none := if_neg ha
  exact hr hbind

theorem lookFor_scans (content : List Row) (affinity : Affinity) (arg : Bytes) (s : Stmt) (n : ℕ) :
    (((lookFor content affinity arg).execute s n).rows : Multiset Row) =
      (content : Multiset Row).filter fun row => whereEqual narrow integersOnly affinity
        (row[0]?.getD .null) (parameter defaultLimit s 1) = true := by
  simp [lookFor, Run.completed]

def neighbour : Search .noConversion realTable defaultLimit integersOnly narrow
    (Impl.opened []) where
  insert := betweenDoubles
  query := lookFor _ .real (integerText (Int64.toInt 9007199254740992))
  argument := integerText (Int64.toInt 9007199254740992)
  args := rfl
  compiles := by decide
  accepted := lookFor_accepted _ _ (by decide)
  short := by decide
  scans := lookFor_scans _ _ _

/-- It is found by the number that it is rounded to. -/
theorem neighbour_found : neighbour.Finds :=
  (integer_found_iff integersOnly_reads neighbour (v := 9007199254740993) (w := 9007199254740992)
    (fun _ => narrow_exact) rfl rfl).mpr (by decide : roundedInt 9007199254740993 = 9007199254740992)

/-- The digit 1. -/
def digit : ColumnInsert .noConversion blobTable defaultLimit integersOnly (Impl.opened []) where
  table := ascii "t"
  calls := [.putBlob (ascii "a") (ascii "1")]
  env := serve blobTable.toTable defaultLimit integersOnly.values (.opened []) .insertion
  index := 0
  column := blobColumn
  key := ascii "a"
  value := .blob (ascii "1")
  intoTable := emptyBlob.intoTable
  stores := (serve_serves _ _ _ _ _).stores
  isColumn := emptyBlob.isColumn
  ordinary := rfl
  provides := by decide
  put := by simp [contents, run, apply]
  clean := by decide
  bound := by decide
  returned := by decide

def sameDigit : Search .noConversion blobTable defaultLimit integersOnly narrow
    (Impl.opened []) where
  insert := digit
  query := lookFor _ .blob (ascii "1")
  argument := ascii "1"
  args := rfl
  compiles := by decide
  accepted := lookFor_accepted _ _ (by decide)
  short := by decide
  scans := lookFor_scans _ _ _

theorem sameDigit_not_found : ¬sameDigit.Finds := blob_not_found sameDigit rfl

end SearchByArgument
