import MadSqlite.MadQuery
import MadSqlite.TableInsert

/-! # A blob that goes in and comes out

A blob goes in as a pointer and a length. The pointer of an empty vector is null, which binds
NULL whatever the length; on the way out a null pointer and the length zero agree again. -/
namespace BlobRoundTrip

open CppStrings ContentValues ContentMap SqliteConnection MadDatabase MadQuery HandleCalls
open InsertText SqliteRows SqliteValues SqliteBindings SqliteTable TableInsert Runs

variable {σ : Type*} {t : RowTable σ} {limit : LengthLimit} {lib : ValueLibrary}
  {fits : Multiset Bytes → Bool} {h : MadDatabase.Impl σ}

/-- An insert of a container that has a blob for a blob column. -/
structure BlobInsert (t : RowTable σ) (limit : LengthLimit) (lib : ValueLibrary)
    (fits : Multiset Bytes → Bool) (h : MadDatabase.Impl σ) where
  table : Bytes
  calls : List ContentMap.Call
  env : InsertEnv σ
  index : ℕ
  column : Column
  key : Bytes
  blob : Bytes
  intoTable : sqlite3StrICmp table t.name = true
  serves : Serves t.toTable limit lib fits h.db env
  isColumn : t.columns[index]? = some column
  isBlob : column.affinity = .blob
  isNamed : column.named key = true
  put : (contents calls).lookup key = some (.blob blob)
  short : blob.length ≤ limit.iLimit

namespace BlobInsert

def call (c : BlobInsert t limit lib fits h) : InsertCall σ := insertCall c.table c.calls c.env

def provider (c : BlobInsert t limit lib fits h) : Option Bytes :=
  c.column.keyFor (insertKeys c.calls c.env)

/-- What the columns are to get, by the keys that come first. -/
def values (c : BlobInsert t limit lib fits h) : List (Option SqlValue) :=
  t.rowOf limit lib (contents c.calls) fun col => col.keyFor (insertKeys c.calls c.env)

/-- There is one row more, with the blob as a blob, and it is read as it was put. -/
def ComesBack (p : Platform) (c : BlobInsert t limit lib fits h) : Prop :=
  (insertValues p h c.call).1 = true ∧
    ∃ row, t.rows (insertValues p h c.call).2.db.store.view = row ::ₘ t.rows h.db.store.view ∧
      row[c.index]? = some (.blob c.blob) ∧
      ∀ (q : MadQuery.Impl) (v : Vdbe Row) (i : ℕ),
        Selects q.statement v i (.blob c.blob) → getBlob lib q v i = c.blob

end BlobInsert

/-- SQLite and the table take the row, with every value and the record of the row within the
limit, and the blob is not empty; where another key names the column and comes first, its value
is bound as this blob. -/
structure ComesBackWhen (c : BlobInsert t limit lib fits h) : Prop where
  clean : NamesClean c.call
  takes : Takes t.toTable fits (contents c.calls).keys.val
  bindable : Bindable limit (contents c.calls)
  accepted : t.store h.db.store.view c.values ≠ none
  provides : ∀ k, c.provider = some k → if k = c.key then c.blob ≠ []
    else boundValue limit (contents c.calls) k = some (.blob c.blob)

theorem getBlob_eq {q : MadQuery.Impl} {v : Vdbe Row} {i : ℕ} {blob : Bytes}
    (hs : Selects q.statement v i (.blob blob)) : getBlob lib q v i = blob := by
  rw [getBlob, hs.columnMem]
  cases blob <;> simp [sqlite3ValueBlob, sqlite3ValueBytes, sqlite3ValueText]

variable (p : Platform) (c : BlobInsert t limit lib fits h)

/-- An empty blob is bound as NULL, any other one as it is. -/
theorem boundValue_own : boundValue limit (contents c.calls) c.key =
    some (if c.blob = [] then .null else .blob c.blob) := by
  rw [boundValue, c.put, Option.bind_some, bindCallOf]
  split
  · rfl
  · have hlen : c.blob.length < 2 ^ 31 := c.short.trans_lt limit.lt
    rw [bindValue, setStr_short limit .none hlen, if_neg (not_lt.mpr c.short)]
    rfl

theorem provides_iff {k : Bytes} : (if k = c.key then c.blob ≠ []
      else boundValue limit (contents c.calls) k = some (.blob c.blob)) ↔
    boundValue limit (contents c.calls) k = some (.blob c.blob) := by
  split
  · next he =>
    rw [he, boundValue_own]
    split <;> simp_all
  · exact Iff.rfl

theorem column_value (hc : NamesClean c.call) (hb : Bindable limit (contents c.calls))
    (hr : (insertValues p h c.call).1 = true) {k : Bytes} (hk : c.provider = some k) :
    ∃ row, t.rows (insertValues p h c.call).2.db.store.view = row ::ₘ t.rows h.db.store.view ∧
      row[c.index]? = some ((boundValue limit (contents c.calls) k).getD .null) := by
  have hord : c.column.isRowid = false := c.column.ordinary (by rw [c.isBlob]; decide)
  have hbinds := (bindsSucceed_iff (contents_agrees c.calls) c.serves.bound).mpr hb
  obtain ⟨row, hrows, hvalue⟩ :=
    stored_row p c.serves.stores c.intoTable hc hbinds hr c.isColumn hord hk
  rw [c.isBlob] at hvalue
  exact ⟨row, hrows, hvalue⟩

/-- The insert has stored a row when SQLite and the table take the values, and only then. -/
theorem stores_iff (hc : NamesClean c.call) :
    ((insertValues p h c.call).1 = true ∧ ∃ row,
        t.rows (insertValues p h c.call).2.db.store.view = row ::ₘ t.rows h.db.store.view) ↔
      Takes t.toTable fits (contents c.calls).keys.val ∧ Bindable limit (contents c.calls) ∧
        t.store h.db.store.view c.values ≠ none := by
  have hne : contents c.calls ≠ ∅ := by
    intro he
    have hput := c.put
    rw [he, Finmap.lookup_empty] at hput
    cases hput
  obtain ⟨hr, hv⟩ := Prod.mk.inj (insert_outcome p c.serves c.intoTable hc)
  rw [BlobInsert.call, hr, hv]
  exact (outcome_adds_iff h.db (contents c.calls) _).trans (and_iff_right hne)

/-- A blob comes back when SQLite and the table take the row and the blob is not empty, or
another key that provides the column's value is bound as this blob; with names that need no
escaping, only then. -/
theorem blob_comes_back : (ComesBackWhen c → c.ComesBack p) ∧
    (NamesClean c.call → c.ComesBack p → ComesBackWhen c) := by
  obtain ⟨k, hk⟩ : ∃ k, c.provider = some k := exists_provider c.put c.isNamed c.env
  constructor
  · intro hw
    obtain ⟨hr, -⟩ := (stores_iff p c hw.clean).mpr ⟨hw.takes, hw.bindable, hw.accepted⟩
    obtain ⟨row, hrows, hvalue⟩ := column_value p c hw.clean hw.bindable hr hk
    rw [(provides_iff c).mp (hw.provides k hk)] at hvalue
    exact ⟨hr, row, hrows, hvalue, fun q v i hs => getBlob_eq hs⟩
  · rintro hc ⟨hr, row, hrows, hvalue, -⟩
    obtain ⟨htakes, hbind, hstore⟩ := (stores_iff p c hc).mp ⟨hr, row, hrows⟩
    refine ⟨hc, htakes, hbind, hstore, fun k' hk' => (provides_iff c).mpr ?_⟩
    obtain rfl : k = k' := Option.some.inj (hk.symm.trans hk')
    obtain ⟨row', hrows', hvalue'⟩ := column_value p c hc hbind hr hk
    obtain rfl : row' = row := (Multiset.cons_inj_left _).mp (hrows'.symm.trans hrows)
    have hblob := Option.some.inj (hvalue'.symm.trans hvalue)
    cases hb : boundValue limit (contents c.calls) k with
    | none => simp [hb] at hblob
    | some value =>
      rw [hb, Option.getD_some] at hblob
      rw [hblob]

def blobColumn : Column := plainColumn (ascii "a") .blob

def blobTable : RowTable (List Row) := listTable defaultLimit (ascii "t") [blobColumn] (by simp)

/-- Nine bytes are no row when a record has ten at most. -/
example : (listTable ⟨10, by decide⟩ (ascii "t") [blobColumn] (by simp)).store []
    [some (.blob (List.replicate 9 0))] = none := by decide

/-- One byte. -/
def oneByte :
    BlobInsert blobTable defaultLimit plainLibrary (fun _ => true) (Impl.opened []) where
  table := ascii "t"
  calls := [.putBlob (ascii "a") [0]]
  env := serve blobTable.toTable defaultLimit plainLibrary (.opened []) .insertion
  index := 0
  column := blobColumn
  key := ascii "a"
  blob := [0]
  intoTable := by decide
  serves := serve_serves _ _ _ _ _
  isColumn := rfl
  isBlob := rfl
  isNamed := by decide
  put := by simp [contents, run, apply]
  short := by decide

theorem oneByte_back : oneByte.ComesBack .noConversion := by
  have hown : oneByte.provider = some oneByte.key := by decide
  have hc : NamesClean oneByte.call := by decide
  obtain ⟨htakes, hbind, hstore⟩ := (stores_iff .noConversion oneByte hc).mp
    ⟨by decide, [.blob [0]], by decide⟩
  refine (blob_comes_back .noConversion oneByte).1 ⟨hc, htakes, hbind, hstore, fun k hk => ?_⟩
  obtain rfl := Option.some.inj (hown.symm.trans hk)
  rw [if_pos rfl]
  exact List.cons_ne_nil _ _

def putEmpty : List ContentMap.Call := [.putBlob (ascii "a") []]

def emptyBlob :
    BlobInsert blobTable defaultLimit plainLibrary (fun _ => true) (Impl.opened []) where
  table := ascii "t"
  calls := putEmpty
  env := serve blobTable.toTable defaultLimit plainLibrary (.opened []) .insertion
  index := 0
  column := blobColumn
  key := ascii "a"
  blob := []
  intoTable := by decide
  serves := serve_serves _ _ _ _ _
  isColumn := rfl
  isBlob := rfl
  isNamed := by decide
  put := by simp [putEmpty, contents, run, apply]
  short := by decide

theorem emptyBlob_null : ¬emptyBlob.ComesBack .noConversion := by
  rintro ⟨hr, row, hrows, hvalue, -⟩
  have hk : emptyBlob.provider = some (ascii "a") := by decide
  have hc : NamesClean emptyBlob.call := by decide
  obtain ⟨-, hbind, -⟩ := (stores_iff .noConversion emptyBlob hc).mp ⟨hr, row, hrows⟩
  obtain ⟨row', hrows', hvalue'⟩ := column_value .noConversion emptyBlob hc hbind hr hk
  obtain rfl : row' = row := (Multiset.cons_inj_left _).mp (hrows'.symm.trans hrows)
  rw [show ascii "a" = emptyBlob.key from rfl, boundValue_own] at hvalue'
  exact absurd (hvalue'.symm.trans hvalue) (by decide)

end BlobRoundTrip
