import MadSqlite.JniRows
import MadSqlite.SearchByArgument

/-! # Looking for a string from the Java side

The arguments of a query come as an array of strings and go to the statement as modified UTF-8,
as the strings of a row did. -/
namespace JniSearch

open CppStrings ContentValues ContentMap ModifiedUtf8 SqliteConnection MadDatabase HandleCalls
open InsertText SqliteRows SqliteValues SqliteNumbers SqliteCompare SqliteBindings SqliteTable
open TableInsert CursorRows QueryArguments NumberRoundTrip SearchByArgument JniInsert JniRows Runs

/-- The loop over the arguments, from index `i` on for so many more of them. -/
def argsLoop (args : List (Option JString)) :
    ℕ → ℕ → List Bytes → Except JniError (List Bytes)
  | 0, _, argsVector => .ok argsVector
  | count + 1, i, argsVector => do
    let rawString ← getStringUTFChars (← getObjectArrayElement args i)
    argsLoop args count (i + 1) (argsVector ++ [cStr rawString])

/-- Without an array there are no arguments. -/
def argsOf : Option (List (Option JString)) → Except JniError (List Bytes)
  | some args => argsLoop args args.length 0 []
  | none => .ok []

def query {σ : Type*} (db : Impl σ) (queryStr : JString) (args : Option (List (Option JString)))
    (env : QueryEnv) : Except JniError (Option ℕ × Impl σ) :=
  match argsOf args with
  | .ok argsVector => .ok (MadDatabase.query db (cStr (encode queryStr)) argsVector env)
  | .error e => .error e

theorem argsLoop_eq_ok {args rest : List (Option JString)} {i : ℕ} (hr : args.drop i = rest)
    (argsVector result : List Bytes) : argsLoop args rest.length i argsVector = .ok result ↔
      ∃ strs : List JString, rest = strs.map some ∧ result = argsVector ++ strs.map encode := by
  induction rest generalizing i argsVector with
  | nil =>
    rw [List.length_nil, argsLoop, Except.ok.injEq]
    constructor
    · rintro rfl
      exact ⟨[], rfl, by simp⟩
    · rintro ⟨strs, hs, rfl⟩
      rw [List.map_eq_nil_iff.mp hs.symm, List.map_nil, List.append_nil]
  | cons arg rest ih =>
    have harg : args[i]? = some arg := by rw [← List.head?_drop, hr]; rfl
    have hnext : args.drop (i + 1) = rest := by rw [← List.tail_drop, hr]; rfl
    rw [List.length_cons, argsLoop, getObjectArrayElement, harg]
    cases arg with
    | none =>
      refine iff_of_false (fun he => by cases he) ?_
      rintro ⟨strs, hs, -⟩
      cases strs <;> cases hs
    | some str =>
      refine (ih hnext (argsVector ++ [cStr (encode str)])).trans ?_
      rw [cStr_encode]
      constructor
      · rintro ⟨strs, rfl, rfl⟩
        exact ⟨str :: strs, rfl, by simp⟩
      · rintro ⟨strs, hs, rfl⟩
        obtain ⟨str', strs, rfl⟩ : ∃ str' strs', strs = str' :: strs' := by
          cases strs with
          | nil => cases hs
          | cons str' strs => exact ⟨str', strs, rfl⟩
        obtain ⟨⟨rfl⟩, rfl⟩ := List.cons.inj hs
        exact ⟨strs, rfl, by simp⟩

/-- The arguments are read when none of them is null, each as its bytes. -/
theorem argsOf_eq_ok {args : List (Option JString)} {result : List Bytes} :
    argsOf (some args) = .ok result ↔
      ∃ strs : List JString, args = strs.map some ∧ result = strs.map encode :=
  argsLoop_eq_ok List.drop_zero [] result

variable {σ : Type*} {p : Platform} {t : RowTable σ} {limit : LengthLimit} {lib : NumberLibrary}
  {mach : Machine} {db : Impl σ}

/-- A row of the Java side with a string for a column of collation BINARY, and a query of it that
scans the table for the rows that have another string there. Both strings fit into the
statements. -/
structure JavaSearch (p : Platform) (t : RowTable σ) (limit : LengthLimit) (lib : NumberLibrary)
    (mach : Machine) (db : Impl σ) where
  row : RowInsert p t limit lib db
  index : ℕ
  column : Column
  key : JString
  string : JString
  isColumn : t.columns[index]? = some column
  provides : row.Provides column key
  put : (pairsMap row.asked).lookup key = some (.text (encode string))
  kept : Kept limit column.affinity (.string string)
  queryStr : JString
  looked : JString
  call : QueryCall limit Row
  sql : call.sql = cStr (encode queryStr)
  args : argsOf (some [some looked]) = .ok call.args
  compiles : Compiles call.sql call.env
  accepted : ¬Refused call
  short : (encode looked).length < 2 ^ 31
  scans : ∀ s n, ((call.execute s n).rows : Multiset Row) =
    (t.rows row.after.db.store.view).filter fun row =>
      whereEqual mach lib column.affinity (row[index]?.getD .null) (parameter limit s 1)

namespace JavaSearch

variable (c : JavaSearch p t limit lib mach db)

/-- There is one row more, and the loop over the cursor of the query visits it. -/
def Finds : Prop :=
  ∃ stored, t.rows c.row.after.db.store.view = stored ::ₘ t.rows db.db.store.view ∧
    ∃ fuel visits s, visitAll fuel (cursor c.row.after c.call) = some (visits, s) ∧
      some stored ∈ visits

theorem call_args : c.call.args = [encode c.looked] := by
  obtain ⟨strs, hs, hargs⟩ := argsOf_eq_ok.mp c.args
  obtain rfl : strs = [c.looked] := by
    cases strs with
    | nil => cases hs
    | cons str strs =>
      obtain ⟨⟨rfl⟩, hnil⟩ := List.cons.inj hs
      rw [List.map_eq_nil_iff.mp hnil.symm]
  exact hargs

/-- The query of the bridge is the one of the handle. -/
theorem query_eq : query c.row.after c.queryStr (some [some c.looked]) c.call.env =
    .ok (MadDatabase.query c.row.after c.call.sql c.call.args c.call.env) := by
  rw [query, c.args, c.sql]

/-- The insert of the bridge is one of the handle. -/
def insertion : ColumnInsert p t limit lib db where
  table := encode c.row.table
  calls := putCalls c.row.keys c.row.values
  env := c.row.env
  index := c.index
  column := c.column
  key := encode c.key
  value := .text (encode c.string)
  intoTable := c.row.intoTable
  stores := c.row.stores
  isColumn := c.isColumn
  ordinary := Column.ordinary (by rcases c.kept.1 with ha | ha <;> simp [ha])
  provides := c.provides
  put := (c.row.encodes.lookup c.key).trans c.put
  clean := c.row.clean
  bound := c.row.bound
  returned := by rw [c.row.insertValues_eq]

theorem after_insertion : (insertValues p db c.insertion.call).2 = c.row.after := by
  have h := c.row.insertValues_eq
  exact congrArg Prod.snd h

def search : Search p t limit lib mach db where
  insert := c.insertion
  query := c.call
  argument := encode c.looked
  args := c.call_args
  compiles := c.compiles
  accepted := c.accepted
  short := c.short
  scans s n := by
    rw [c.after_insertion]
    exact c.scans s n

theorem finds_iff : c.Finds ↔ c.search.Finds := by
  have hafter : c.search.after = c.row.after := c.after_insertion
  rw [Search.Finds, hafter]
  exact Iff.rfl

end JavaSearch

/-- The bridge hands the strings to the handle as bytes, and the row with a string in a column of
TEXT or BLOB affinity is found by this string and by no other. -/
theorem string_found_iff (c : JavaSearch p t limit lib mach db) :
    query c.row.after c.queryStr (some [some c.looked]) c.call.env =
        .ok (MadDatabase.query c.row.after c.call.sql c.call.args c.call.env) ∧
      (c.Finds ↔ c.looked = c.string) := by
  have hnumeric : sqlite3IsNumericAffinity c.column.affinity = false := by
    rcases c.kept.1 with ha | ha <;> rw [ha] <;> rfl
  have hfound := finds_text_iff c.search rfl c.kept.2 hnumeric
  refine ⟨c.query_eq, (c.finds_iff.trans hfound).trans ?_⟩
  exact ⟨fun h => (encode_injective h).symm, fun h => congrArg encode h.symm⟩

/-- A string with the character 0 in it, which the encoding writes with two bytes. -/
def nulString : RowInsert .noConversion TextRoundTrip.textTable defaultLimit integersOnly
    (MadDatabase.Impl.opened []) where
  table := [116]
  keys := [some [97]]
  values := [.string [97, 0, 98]]
  env := serve TextRoundTrip.textTable.toTable defaultLimit integersOnly.values (.opened [])
    .insertion
  asked := [([97], .text [97, 192, 128, 98])]
  after := _
  sameLength := rfl
  isPairs := by decide
  intoTable := by decide
  stores := (serve_serves _ _ _ _ _).stores
  clean := by decide
  bound := by decide
  returned := rfl

def nulStringAgain : JavaSearch .noConversion TextRoundTrip.textTable defaultLimit integersOnly
    narrow (Impl.opened []) where
  row := nulString
  index := 0
  column := TextRoundTrip.textColumn
  key := [97]
  string := [97, 0, 98]
  isColumn := TextRoundTrip.nulInside.isColumn
  provides := rfl
  put := by decide
  kept := by decide
  queryStr := (ascii "SELECT * FROM t WHERE a = ?").map UInt8.toUInt16
  looked := [97, 0, 98]
  call := lookFor nulString.after.db.store.view .text (encode [97, 0, 98])
  sql := by decide
  args := rfl
  compiles := by decide
  accepted := lookFor_accepted _ _ (by decide)
  short := by decide
  scans := lookFor_scans _ _ _

theorem nulStringAgain_found : nulStringAgain.Finds :=
  (string_found_iff nulStringAgain).2.mpr rfl

end JniSearch
