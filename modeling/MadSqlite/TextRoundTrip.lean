import MadSqlite.MadQuery
import MadSqlite.TableInsert

/-! # A text that goes in and comes out

A text goes in with its length and comes out as the bytes before the first NUL. The insert
returns true as well when a value was refused and there is no row to look at. -/
namespace TextRoundTrip

open CppStrings ContentValues ContentMap SqliteConnection MadDatabase MadQuery HandleCalls
open InsertText SqliteRows SqliteValues SqliteBindings SqliteTable TableInsert Runs

variable {σ : Type*} {p : Platform} {t : RowTable σ} {limit : LengthLimit} {lib : ValueLibrary}
  {h : MadDatabase.Impl σ}

/-- An insert that returned true, of a container that has a text for a text column. -/
structure TextInsert (p : Platform) (t : RowTable σ) (limit : LengthLimit) (lib : ValueLibrary)
    (h : MadDatabase.Impl σ) where
  table : Bytes
  calls : List ContentMap.Call
  env : InsertEnv σ
  index : ℕ
  column : Column
  key : Bytes
  text : Bytes
  intoTable : sqlite3StrICmp table t.name = true
  stores : Stores t.toTable limit lib h.db.store.view env
  isColumn : t.columns[index]? = some column
  isText : column.affinity = .text
  isNamed : column.named key = true
  put : (contents calls).lookup key = some (.text text)
  short : text.length ≤ limit.iLimit
  returned : (insertValues p h (insertCall table calls env)).1 = true

namespace TextInsert

def call (c : TextInsert p t limit lib h) : InsertCall σ := insertCall c.table c.calls c.env

/-- The key that provides the column's value. -/
def provider (c : TextInsert p t limit lib h) : Option Bytes :=
  c.column.keyFor (insertKeys c.calls c.env)

/-- There is one row more, and whatever cursor is on its value reads the text. -/
def ComesBack (c : TextInsert p t limit lib h) : Prop :=
  ∃ row value, t.rows (insertValues p h c.call).2.db.store.view =
      row ::ₘ t.rows h.db.store.view ∧ row[c.index]? = some value ∧
    ∀ (q : MadQuery.Impl) (v : Vdbe Row) (i : ℕ), Selects q.statement v i value →
      getString lib q v i = c.text

end TextInsert

def textBack (lib : ValueLibrary) (value : SqlValue) : Bytes :=
  ((sqlite3ValueText lib value).map cStr).getD []

/-- All values are accepted, and the text has no NUL; where another key names the column and
comes first, its value reads as this text. -/
structure ComesBackWhen (c : TextInsert p t limit lib h) : Prop where
  clean : NamesClean c.call
  bound : BindsSucceed c.call.values.impl c.env
  reads : ∀ k, c.provider = some k → if k = c.key then 0 ∉ c.text
    else textBack lib (applyAffinity lib .text
      ((boundValue limit (contents c.calls) k).getD .null)) = c.text

theorem getString_eq {q : MadQuery.Impl} {v : Vdbe Row} {i : ℕ} {value : SqlValue}
    (hs : Selects q.statement v i value) : getString lib q v i = textBack lib value := by
  rw [getString, hs.columnMem, textBack]
  cases sqlite3ValueText lib value <;> rfl

theorem reads_iff (value : SqlValue) (text : Bytes) :
    (∀ (q : MadQuery.Impl) (v : Vdbe Row) (i : ℕ), Selects q.statement v i value →
      getString lib q v i = text) ↔ textBack lib value = text := by
  constructor
  · intro hall
    obtain ⟨stmt, v, hs⟩ := exists_selects value
    rw [← getString_eq (q := .new stmt) hs]
    exact hall (.new stmt) v 0 hs
  · intro hv q v i hs
    rw [getString_eq hs, hv]

variable (c : TextInsert p t limit lib h)

/-- Its own text is stored as it is, so a NUL is what counts. -/
theorem reads_own {k : Bytes} : (if k = c.key then 0 ∉ c.text
      else textBack lib (applyAffinity lib .text
        ((boundValue limit (contents c.calls) k).getD .null)) = c.text) ↔
    textBack lib (applyAffinity lib .text
      ((boundValue limit (contents c.calls) k).getD .null)) = c.text := by
  split
  · next he =>
    have hlen : c.text.length < 2 ^ 31 := c.short.trans_lt limit.lt
    have hbound : boundValue limit (contents c.calls) c.key = some (.text c.text) := by
      rw [boundValue, c.put, Option.bind_some, bindCallOf, bindValue, setStr_short limit .utf8 hlen,
        if_neg (not_lt.mpr c.short), Option.map_some]
    rw [he, hbound]
    exact cStr_eq_self_iff.symm
  · exact Iff.rfl

theorem comesBack_iff_reads (hc : NamesClean c.call)
    (hb : BindsSucceed c.call.values.impl c.env) {k : Bytes} (hk : c.provider = some k) :
    c.ComesBack ↔ textBack lib (applyAffinity lib .text
      ((boundValue limit (contents c.calls) k).getD .null)) = c.text := by
  have hord : c.column.isRowid = false := c.column.ordinary (by rw [c.isText]; decide)
  obtain ⟨row, hrows, hvalue⟩ :=
    stored_row p c.stores c.intoTable hc hb c.returned c.isColumn hord hk
  rw [c.isText] at hvalue
  constructor
  · rintro ⟨row', value, hrows', hvalue', hread⟩
    obtain rfl : row' = row := (Multiset.cons_inj_left _).mp (hrows'.symm.trans hrows)
    obtain rfl : _ = value := Option.some.inj (hvalue.symm.trans hvalue')
    exact (reads_iff _ _).mp hread
  · exact fun hread => ⟨row, _, hrows, hvalue, (reads_iff _ _).mpr hread⟩

/-- A text comes back when every value was accepted and the text has no NUL, or another key
that provides the column's value reads the same; with names that need no escaping, only then. -/
theorem text_comes_back :
    (ComesBackWhen c → c.ComesBack) ∧ (NamesClean c.call → c.ComesBack → ComesBackWhen c) := by
  obtain ⟨k, hk⟩ : ∃ k, c.provider = some k := exists_provider c.put c.isNamed c.env
  constructor
  · intro hw
    exact (comesBack_iff_reads c hw.clean hw.bound hk).mpr ((reads_own c).mp (hw.reads k hk))
  · intro hc hback
    have hb : BindsSucceed c.call.values.impl c.env := by
      rcases returned_true p c.stores c.intoTable hc c.returned with ⟨-, hsame⟩ | ⟨hb, -⟩
      · obtain ⟨row, value, hrows, -⟩ := hback
        rw [TextInsert.call, hsame] at hrows
        exact absurd hrows (Multiset.lt_cons_self _ row).ne
      · exact hb
    refine ⟨hc, hb, fun k' hk' => (reads_own c).mpr ?_⟩
    obtain rfl : k = k' := Option.some.inj (hk.symm.trans hk')
    exact (comesBack_iff_reads c hc hb hk).mp hback

def textColumn : Column := plainColumn (ascii "a") .text

def textTable : RowTable (List Row) := listTable defaultLimit (ascii "t") [textColumn] (by simp)

/-- A word. -/
def oneWord : TextInsert .noConversion textTable defaultLimit plainLibrary (Impl.opened []) where
  table := ascii "t"
  calls := [.putString (ascii "a") (ascii "word")]
  env := serve textTable.toTable defaultLimit plainLibrary (.opened []) .insertion
  index := 0
  column := textColumn
  key := ascii "a"
  text := ascii "word"
  intoTable := by decide
  stores := (serve_serves _ _ _ _ _).stores
  isColumn := rfl
  isText := rfl
  isNamed := by decide
  put := by simp [contents, run, apply]
  short := by decide
  returned := by decide

theorem oneWord_back : oneWord.ComesBack := by
  have hown : oneWord.provider = some oneWord.key := by decide
  refine (text_comes_back oneWord).1 ⟨by decide, by decide, fun k hk => ?_⟩
  obtain rfl := Option.some.inj (hown.symm.trans hk)
  rw [if_pos rfl]
  decide

def putNul : List ContentMap.Call := [.putString (ascii "a") [120, 0, 121]]

def nulInside : TextInsert .noConversion textTable defaultLimit plainLibrary (Impl.opened []) where
  table := ascii "t"
  calls := putNul
  env := serve textTable.toTable defaultLimit plainLibrary (.opened []) .insertion
  index := 0
  column := textColumn
  key := ascii "a"
  text := [120, 0, 121]
  intoTable := by decide
  stores := (serve_serves _ _ _ _ _).stores
  isColumn := rfl
  isText := rfl
  isNamed := by decide
  put := by simp [putNul, contents, run, apply]
  short := by decide
  returned := by decide

theorem nulInside_cut : ¬nulInside.ComesBack := by
  have hk : nulInside.provider = some (ascii "a") := by decide
  have hc : NamesClean nulInside.call := by decide
  have hb : BindsSucceed nulInside.call.values.impl nulInside.env := by decide
  rw [comesBack_iff_reads nulInside hc hb hk]
  decide

end TextRoundTrip
