import MadSqlite.BlobRoundTrip
import MadSqlite.JniInsert
import MadSqlite.NumberRoundTrip
import MadSqlite.TextRoundTrip

/-! # A row of the Java side, there and back

What the bridge puts into a row and what its four functions read from a cursor on that row: a
string as modified UTF-8, an array as its bytes, a number as 64 bits. -/
namespace JniRows

open CppStrings ContentValues ContentMap FloatFormat FloatRounding ModifiedUtf8 SqliteAtoi
open SqliteConnection MadDatabase HandleCalls InsertText SqliteRows SqliteValues SqliteNumbers
open SqliteBindings SqliteTable TableInsert TextRoundTrip NumberRoundTrip JniInsert Runs

variable (lib : NumberLibrary)

def getString (q : MadQuery.Impl) (v : Vdbe Row) (columnIndex : ℤ) : Option JString :=
  newStringUTF (cStr (MadQuery.getString lib.values q v columnIndex))

/-- None where the size does not fit the length of an array. -/
def getBlob (q : MadQuery.Impl) (v : Vdbe Row) (columnIndex : ℤ) : Option (List Int8) :=
  let vec := MadQuery.getBlob lib.values q v columnIndex
  if 0 ≤ (toInt vec.length).toInt then
    some ((vec.take (toInt vec.length).toInt.toNat).map UInt8.toInt8)
  else none

def getLong (q : MadQuery.Impl) (v : Vdbe Row) (columnIndex : ℤ) : Option Int64 :=
  MadQuery.getInt q v columnIndex

def getReal (q : MadQuery.Impl) (v : Vdbe Row) (columnIndex : ℤ) : Double :=
  MadQuery.getReal lib q v columnIndex

/-- The function for values of this class gives the value. -/
def ReadsBack (q : MadQuery.Impl) (v : Vdbe Row) (i : ℤ) : JObject → Prop
  | .string s => getString lib q v i = some s
  | .byteArray b => getBlob lib q v i = some b
  | .integer n => getLong q v i = some n.toInt64
  | .long n => getLong q v i = some n
  | .float f => getReal lib q v i = widen f
  | .double d => getReal lib q v i = d
  | .null | .other => False

/-- A double that a column of the affinity keeps. -/
def KeptReal (affinity : Affinity) (d : Double) : Prop :=
  affinity ≠ .text ∧ sqlite3IsNaN d = false ∧ (affinity = .blob ∨ d ≠ negativeZero)

/-- What a column of the affinity keeps of what the bridge puts into it. -/
def Kept (limit : LengthLimit) (affinity : Affinity) : JObject → Prop
  | .string s => (affinity = .text ∨ affinity = .blob) ∧ (encode s).length ≤ limit.iLimit
  | .byteArray b => b.length ≤ limit.iLimit
  | .integer _ => True
  | .long n => affinity = .real → Representable n ∨ n = LARGEST_INT64
  | .float f => KeptReal affinity (widen f)
  | .double d => KeptReal affinity d
  | .null | .other => False

instance (affinity : Affinity) (d : Double) : Decidable (KeptReal affinity d) :=
  inferInstanceAs (Decidable (_ ∧ _ ∧ _))

instance (limit : LengthLimit) (affinity : Affinity) (value : JObject) :
    Decidable (Kept limit affinity value) := by
  cases value <;> unfold Kept <;> infer_instance

/-- The value a column has after a value of this kind was put. -/
def stored (limit : LengthLimit) (affinity : Affinity) (v : Value) : SqlValue :=
  applyAffinity lib.values affinity ((bindValue limit (bindCallOf v)).getD .null)

section Values

variable {lib} {limit : LengthLimit} {affinity : Affinity} {q : MadQuery.Impl} {v : Vdbe Row}
  {i : ℕ}

theorem string_reads_back {s : JString} (ha : affinity = .text ∨ affinity = .blob)
    (hl : (encode s).length ≤ limit.iLimit)
    (hs : Selects q.statement v i (stored lib limit affinity (.text (encode s)))) :
    getString lib q v i = some s := by
  have hlen : (encode s).length < 2 ^ 31 := hl.trans_lt limit.lt
  have hbound : bindValue limit (bindCallOf (.text (encode s))) = some (.text (encode s)) := by
    rw [bindCallOf, bindValue, setStr_short limit .utf8 hlen, if_neg (not_lt.mpr hl),
      Option.map_some]
  have hstored : stored lib limit affinity (.text (encode s)) = .text (encode s) := by
    rw [stored, hbound]
    rcases ha with rfl | rfl <;> rfl
  rw [hstored] at hs
  rw [getString, MadQuery.getString, hs.columnMem]
  simp [sqlite3ValueText]

theorem toInt8_toUInt8 (b : List Int8) : (b.map Int8.toUInt8).map UInt8.toInt8 = b := by
  simp [Function.comp_def]

theorem array_of_bytes {b : List Int8} (hl : b.length ≤ limit.iLimit)
    (hb : MadQuery.getBlob lib.values q v i = b.map Int8.toUInt8) : getBlob lib q v i = some b := by
  have hlen : b.length < 2 ^ 31 := hl.trans_lt limit.lt
  have hsize : (toInt (b.map Int8.toUInt8).length).toInt = b.length := by
    rw [List.length_map]
    exact Int32.toInt_ofNat_of_lt hlen
  simp only [getBlob, hb, hsize]
  rw [if_pos (by omega), Int.toNat_natCast, List.take_of_length_le (by simp), toInt8_toUInt8]

/-- An empty array is bound as NULL, and a NULL is read as an empty array. -/
theorem blob_reads_back {b : List Int8} (hl : b.length ≤ limit.iLimit)
    (hs : Selects q.statement v i (stored lib limit affinity (.blob (b.map Int8.toUInt8)))) :
    getBlob lib q v i = some b := by
  refine array_of_bytes hl ?_
  cases b with
  | nil =>
    have hnull : stored lib limit affinity (.blob ([].map Int8.toUInt8)) = .null := by
      cases affinity <;> rfl
    rw [hnull] at hs
    rw [MadQuery.getBlob, hs.columnMem]
    rfl
  | cons x b =>
    have hlen : ((x :: b).map Int8.toUInt8).length < 2 ^ 31 := by
      rw [List.length_map]
      exact hl.trans_lt limit.lt
    have hbound : bindValue limit (bindCallOf (.blob ((x :: b).map Int8.toUInt8))) =
        some (.blob ((x :: b).map Int8.toUInt8)) := by
      rw [bindCallOf, if_neg (by simp), bindValue, setStr_short limit .none hlen,
        if_neg (by rw [List.length_map]; exact not_lt.mpr hl), Option.map_some]
    have hstored : stored lib limit affinity (.blob ((x :: b).map Int8.toUInt8)) =
        .blob ((x :: b).map Int8.toUInt8) := by
      rw [stored, hbound]
      cases affinity <;> rfl
    rw [hstored] at hs
    exact BlobRoundTrip.getBlob_eq hs

theorem long_reads_back {n : Int64} (hn : affinity = .real → Representable n ∨ n = LARGEST_INT64)
    (hs : Selects q.statement v i (stored lib limit affinity (.int n))) :
    getLong q v i = some n := by
  rw [getLong, MadQuery.getInt, hs.columnMem]
  exact (intValue_column lib affinity n).mpr hn

theorem double_reads_back {d : Double} (hd : KeptReal affinity d)
    (hs : Selects q.statement v i (stored lib limit affinity (.real d))) :
    getReal lib q v i = d := by
  rw [getReal, MadQuery.getReal, hs.columnMem]
  exact (realValue_column lib limit hd.1 d).mpr hd.2

/-- An `int` has fewer bits than a double. -/
theorem representable_int (n : Int32) : Representable n.toInt64 := by
  have hl := n.le_toInt
  have hu := n.toInt_lt
  have habs : n.toInt64.toInt.natAbs < 2 ^ 53 := by
    rw [Int32.toInt_toInt64]
    omega
  refine rounded_of_dvd (.inl ?_)
  by_cases h0 : n.toInt64.toInt.natAbs = 0
  · rw [h0]
    decide
  · exact Nat.lt_succ_iff.mp ((Nat.log2_lt h0).mpr habs)

theorem reads_back {value : JObject} {w : Value} (hv : value.value = some w)
    (hk : Kept limit affinity value) (hs : Selects q.statement v i (stored lib limit affinity w)) :
    ReadsBack lib q v i value := by
  cases value with
  | null | other => exact hk
  | integer n =>
    cases hv
    exact long_reads_back (fun _ => .inl (representable_int n)) hs
  | long n =>
    cases hv
    exact long_reads_back hk hs
  | float f =>
    cases hv
    exact double_reads_back hk hs
  | double d =>
    cases hv
    exact double_reads_back hk hs
  | string s =>
    cases hv
    exact string_reads_back hk.1 hk.2 hs
  | byteArray b =>
    cases hv
    exact blob_reads_back hk hs

end Values

variable {σ : Type*} {p : Platform} {t : RowTable σ} {limit : LengthLimit} {lib}
  {db : MadDatabase.Impl σ}

/-- An insert of the Java side that stored its row. -/
structure RowInsert (p : Platform) (t : RowTable σ) (limit : LengthLimit) (lib : NumberLibrary)
    (db : MadDatabase.Impl σ) where
  table : JString
  keys : List (Option JString)
  values : List JObject
  env : InsertEnv σ
  asked : List (JString × Value)
  after : MadDatabase.Impl σ
  sameLength : keys.length = values.length
  isPairs : pairs keys values = some asked
  intoTable : sqlite3StrICmp (encode table) t.name = true
  stores : Stores t.toTable limit lib.values db.db.store.view env
  clean : NamesClean (insertCall (encode table) (putCalls keys values) env)
  bound : BindsSucceed (run ContentMap.next .new (putCalls keys values)).impl env
  returned : insert p db table keys values env = .ok (true, after)

namespace RowInsert

variable (c : RowInsert p t limit lib db)

/-- The key that provides the value of a column, of several ones for it. -/
def Provides (col : Column) (key : JString) : Prop :=
  col.keyFor (insertKeys (putCalls c.keys c.values) c.env) = some (encode key)

/-- There is one row more. Whatever cursor is on it, where a column keeps the last value that
the arrays have for its key, the value is read from it. -/
def ComesBack : Prop :=
  ∃ row, t.rows c.after.db.store.view = row ::ₘ t.rows db.db.store.view ∧
    ∀ (j : ℕ) (col : Column) (key : JString) (value : JObject), t.columns[j]? = some col →
      col.isRowid = false → c.Provides col key →
      (pairsMap c.asked).lookup key = value.value → Kept limit col.affinity value →
        ∃ kept, row[j]? = some kept ∧ ∀ (q : MadQuery.Impl) (v : Vdbe Row) (i : ℕ),
          Selects q.statement v i kept → ReadsBack lib q v i value

end RowInsert

theorem kept_value {affinity : Affinity} {value : JObject} (hk : Kept limit affinity value) :
    ∃ w, value.value = some w := by
  cases value with
  | null | other => exact hk.elim
  | _ => exact ⟨_, rfl⟩

theorem readable_of_pairs {keys : List (Option JString)} {values : List JObject}
    (hl : keys.length = values.length) {asked : List (JString × Value)}
    (hp : pairs keys values = some asked) : Readable keys values := by
  induction keys generalizing values asked with
  | nil => exact ⟨Nat.zero_le _, by simp, by simp⟩
  | cons key keys ih =>
    obtain ⟨value, values, rfl⟩ := List.exists_cons_of_length_eq_add_one hl.symm
    obtain ⟨k, w, rest, rfl, hw, hrest, -⟩ := pairs_cons.mp hp
    have hn : value ≠ .null := by
      rintro rfl
      cases hw
    exact readable_cons.mpr ⟨hn, ih (Nat.succ.inj hl) hrest⟩

namespace RowInsert

variable (c : RowInsert p t limit lib db)

theorem insertValues_eq : insertValues p db
    (insertCall (encode c.table) (putCalls c.keys c.values) c.env) = (true, c.after) := by
  have hreturned := c.returned
  rw [insert_readable p db c.table c.env (readable_of_pairs c.sameLength c.isPairs)] at hreturned
  exact Except.ok.inj hreturned

theorem encodes : Encodes (contents (putCalls c.keys c.values)) (pairsMap c.asked) :=
  encodes_putCalls c.isPairs ⟨fun _ => rfl, fun _ hm => absurd hm Finmap.notMem_empty⟩

/-- The table has taken what the keys put together. -/
theorem isStored : t.store db.db.store.view
    (t.rowOf limit lib.values (contents (putCalls c.keys c.values)) fun col =>
      col.keyFor (insertKeys (putCalls c.keys c.values) c.env)) =
        some c.after.db.store.view := by
  have hcall := c.insertValues_eq
  rcases returned_true p c.stores c.intoTable c.clean (by rw [hcall]) with ⟨hn, -⟩ | ⟨-, hstore⟩
  · exact absurd c.bound hn
  · rwa [hcall] at hstore

theorem valueOf {col : Column} {key : JString} (hp : c.Provides col key) {w : Value}
    (hw : (pairsMap c.asked).lookup key = some w) :
    ((col.keyFor (insertKeys (putCalls c.keys c.values) c.env)).map fun k =>
        applyAffinity lib.values col.affinity
          ((boundValue limit (contents (putCalls c.keys c.values)) k).getD .null)) =
      some (stored lib limit col.affinity w) := by
  rw [hp, Option.map_some, boundValue, c.encodes.lookup key, hw]
  rfl

end RowInsert

/-- What the Java side inserts the Java side reads. -/
theorem java_row_comes_back (c : RowInsert p t limit lib db) : c.ComesBack := by
  obtain ⟨row, hrows, hvalues⟩ := t.adds _ _ _ c.isStored
  refine ⟨row, hrows, fun j col key value hcol hord hprovides hlookup hkept => ?_⟩
  obtain ⟨w, hw⟩ := kept_value hkept
  have hrow : row[j]? = some (stored lib limit col.affinity w) := by
    refine hvalues j col _ hcol hord ?_
    rw [Table.rowOf, List.getElem?_map, hcol, Option.map_some,
      c.valueOf hprovides (hlookup.trans hw)]
  exact ⟨_, hrow, fun q v i hs => reads_back hw hkept hs⟩

def fourColumns : RowTable (List Row) :=
  listTable defaultLimit (ascii "t") _ (@plainColumns_apart [(ascii "a", .text),
    (ascii "b", .blob), (ascii "c", .integer), (ascii "d", .real)] (by decide))

def fourKeys : List (Option JString) := [some [97], some [98], some [99], some [100]]

/-- A string with the character 0 in it, which the encoding writes with two bytes, an array, an
integer that is no double, and 1.5. -/
def fourObjects : List JObject :=
  [.string [97, 0, 98], .byteArray [-1, 0, 7], .long 9007199254740993, .double 0x3FF8000000000000]

def serveFour : InsertEnv (List Row) :=
  serve fourColumns.toTable defaultLimit integersOnly.values (.opened []) .insertion

def askedFour : List (JString × Value) :=
  [([97], .text [97, 192, 128, 98]), ([98], .blob [255, 0, 7]), ([99], .int 9007199254740993),
    ([100], .real 0x3FF8000000000000)]

def fourValues : RowInsert .noConversion fourColumns defaultLimit integersOnly
    (MadDatabase.Impl.opened []) where
  table := [116]
  keys := fourKeys
  values := fourObjects
  env := serveFour
  asked := askedFour
  after := (insertValues .noConversion (Impl.opened [])
    ⟨encode [116], run ContentMap.next .new (putCalls fourKeys fourObjects), serveFour⟩).2
  sameLength := rfl
  isPairs := by decide
  intoTable := by decide
  stores := (serve_serves _ _ _ _ _).stores
  clean := by decide
  bound := by decide
  returned := by
    have htrue : (insertValues .noConversion (Impl.opened []) ⟨encode [116],
        run ContentMap.next .new (putCalls fourKeys fourObjects), serveFour⟩).1 = true := by
      decide +kernel
    have hpairs : pairs fourKeys fourObjects = some askedFour := by decide
    rw [insert_readable _ _ _ _ (readable_of_pairs rfl hpairs)]
    have hpair (r : Bool × Impl (List Row)) (hr : r.1 = true) : r = (true, r.2) := Prod.ext hr rfl
    exact congrArg Except.ok (hpair _ htrue)

/-- Each of the four is read from its column. -/
theorem fourValues_back : ∃ row, fourColumns.rows fourValues.after.db.store.view = {row} ∧
    ∀ (j : ℕ) (value : JObject), fourObjects[j]? = some value → ∃ kept, row[j]? = some kept ∧
      ∀ (q : MadQuery.Impl) (v : Vdbe Row) (i : ℕ), Selects q.statement v i kept →
        ReadsBack integersOnly q v i value := by
  obtain ⟨row, hrows, hvalues⟩ := java_row_comes_back fourValues
  refine ⟨row, hrows, fun j value hj => ?_⟩
  rcases j with _ | _ | _ | _ | j
  · obtain rfl := Option.some.inj hj
    exact hvalues 0 _ [97] _ rfl rfl rfl (by decide) (by decide)
  · obtain rfl := Option.some.inj hj
    exact hvalues 1 _ [98] _ rfl rfl rfl (by decide) (by decide)
  · obtain rfl := Option.some.inj hj
    exact hvalues 2 _ [99] _ rfl rfl rfl (by decide) (by decide)
  · obtain rfl := Option.some.inj hj
    exact hvalues 3 _ [100] _ rfl rfl rfl (by decide) (by decide)
  · cases hj

end JniRows
