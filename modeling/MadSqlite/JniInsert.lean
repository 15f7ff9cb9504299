import MadSqlite.TableInsert
import MadSqlite.FloatFormat
import MadSqlite.ModifiedUtf8

/-! # The insert of the Java side

The bridge gets the keys and the values of a row as two arrays and puts them into a container
pair by pair. It takes the length of the keys for both lengths, and `IsInstanceOf` holds of a
null reference whatever the class is. -/
namespace JniInsert

open CppStrings ContentValues ContentMap MadDatabase HandleCalls TableInsert FloatFormat
open ModifiedUtf8 Runs

/-- What an element of an `Object[]` refers to; `other` is an object of any other class. -/
inductive JObject where
  | null
  | integer (v : Int32)
  | long (v : Int64)
  | float (v : UInt32)
  | double (v : Double)
  | string (v : JString)
  | byteArray (v : List Int8)
  | other
  deriving DecidableEq

inductive JClass where
  | integer | long | float | double | string | byteArray

inductive JType where
  | unknown | jint | jlong | jfloat | jdouble | jstring | jbytearray

/-- A pending exception, and a call that the interface leaves undefined: on a null reference,
or on an object that has no such method. -/
inductive JniError where
  | arrayIndexOutOfBounds
  | undefined
  deriving DecidableEq

def isInstanceOf : JObject → JClass → Bool
  | .null, _ => true
  | .integer _, .integer | .long _, .long | .float _, .float | .double _, .double
  | .string _, .string | .byteArray _, .byteArray => true
  | _, _ => false

def typeOf (object : JObject) : JType :=
  if isInstanceOf object .integer then .jint
  else if isInstanceOf object .long then .jlong
  else if isInstanceOf object .float then .jfloat
  else if isInstanceOf object .double then .jdouble
  else if isInstanceOf object .string then .jstring
  else if isInstanceOf object .byteArray then .jbytearray
  else .unknown

def getObjectArrayElement {α : Type} (array : List α) (i : ℕ) : Except JniError α :=
  match array[i]? with
  | some a => .ok a
  | none => .error .arrayIndexOutOfBounds

def getStringUTFChars : Option JString → Except JniError Bytes
  | some s => .ok (encode s)
  | none => .error .undefined

def jobjectToInteger : JObject → Except JniError Int32
  | .integer v => .ok v
  | _ => .error .undefined

def jobjectToLong : JObject → Except JniError Int64
  | .long v => .ok v
  | _ => .error .undefined

def jobjectToDouble : JObject → Except JniError Double
  | .double v => .ok v
  | _ => .error .undefined

def jobjectToFloat : JObject → Except JniError UInt32
  | .float v => .ok v
  | _ => .error .undefined

def jobjectToString : JObject → Except JniError Bytes
  | .string v => .ok (cStr (encode v))
  | _ => .error .undefined

def getByteArrayElements : JObject → Except JniError (List Int8)
  | .byteArray v => .ok v
  | _ => .error .undefined

/-- The switch over the type of a value. -/
def putValue (contentValues : MadContentValues) (key : Bytes) (value : JObject) :
    Except JniError MadContentValues :=
  match typeOf value with
  | .jint => do .ok (contentValues.putInteger key (← jobjectToInteger value).toInt64)
  | .jlong => do .ok (contentValues.putInteger key (← jobjectToLong value))
  | .jfloat => do .ok (contentValues.putReal key (widen (← jobjectToFloat value)))
  | .jdouble => do .ok (contentValues.putReal key (← jobjectToDouble value))
  | .jstring => do .ok (contentValues.putString key (← jobjectToString value))
  | .jbytearray => do
    let elements ← getByteArrayElements value
    .ok (contentValues.putBlobRange key (fun i => (elements.getD i 0).toUInt8) elements.length)
  | .unknown => .ok contentValues

/-- The loop from index `i` on, for so many more indices. -/
def putLoop (keys : List (Option JString)) (values : List JObject) :
    ℕ → ℕ → MadContentValues → Except JniError MadContentValues
  | 0, _, contentValues => .ok contentValues
  | count + 1, i, contentValues => do
    let keyStr ← getStringUTFChars (← getObjectArrayElement keys i)
    let value ← getObjectArrayElement values i
    let contentValues ← putValue contentValues (cStr keyStr) value
    putLoop keys values count (i + 1) contentValues

def insert {σ : Type*} (p : Platform) (db : Impl σ) (table : JString)
    (keys : List (Option JString)) (values : List JObject) (env : InsertEnv σ) :
    Except JniError (Bool × Impl σ) :=
  let tableStr := encode table
  let keyCount := keys.length
  let valueCount := keys.length
  if keyCount = valueCount then
    match putLoop keys values keyCount 0 .new with
    | .ok contentValues => .ok (insertValues p db ⟨cStr tableStr, contentValues, env⟩)
    | .error e => .error e
  else .ok (false, db)

/-- What a value is for the container, if its type is known. -/
def JObject.value : JObject → Option Value
  | .integer v => some (.int v.toInt64)
  | .long v => some (.int v)
  | .float v => some (.real (widen v))
  | .double v => some (.real v)
  | .string v => some (.text (encode v))
  | .byteArray v => some (.blob (v.map Int8.toUInt8))
  | .null | .other => none

/-- A float becomes a real that is the same number. -/
theorem float_value (v : UInt32) : ∃ d, (JObject.float v).value = some (.real d) ∧
    binary64.negative d.toNat = binary32.negative v.toNat ∧
      binary64.isFinite d.toNat = binary32.isFinite v.toNat ∧
      (binary32.isFinite v.toNat = true →
        binary64.magnitude d.toNat = binary32.magnitude v.toNat * 2 ^ 925) :=
  ⟨widen v, rfl, widen_spec v⟩

abbrev JavaMap := Finmap fun _ : JString => Value

/-- The pairs of the two arrays, if each has a key and a value of a known type. -/
def pairs (keys : List (Option JString)) (values : List JObject) :
    Option (List (JString × Value)) :=
  (keys.zip values).mapM fun q => do return (← q.1, ← q.2.value)

/-- The map that putting the pairs in their order makes. -/
def pairsMap (qs : List (JString × Value)) : JavaMap :=
  qs.foldl (fun m q => m.insert q.1 q.2) ∅

/-- The same values under the bytes of the keys, and nothing else. -/
structure Encodes (m : Contents) (j : JavaMap) : Prop where
  lookup : ∀ key, m.lookup (encode key) = j.lookup key
  key : ∀ name ∈ m, ∃ key, encode key = name

def Carries (cv : MadContentValues) (j : JavaMap) : Prop :=
  ∃ m, Represents cv.impl m ∧ Encodes m j

/-- The call returns false and leaves the rows as they are. -/
def Refused {σ : Type*} (db : Impl σ) (r : Except JniError (Bool × Impl σ)) : Prop :=
  ∃ db', r = .ok (false, db') ∧ db'.db.store.view = db.db.store.view

/-- What the arrays ask for, with any table of any database. -/
def Correct (p : Platform) (keys : List (Option JString)) (values : List JObject) : Prop :=
  ∀ (σ : Type) (db : Impl σ) (table : JString) (env : InsertEnv σ),
    if keys.length = values.length then
      match pairs keys values with
      | some qs => ∃ cv, Carries cv (pairsMap qs) ∧
          insert p db table keys values env = .ok (insertValues p db ⟨encode table, cv, env⟩)
      | none => Refused db (insert p db table keys values env)
    else Refused db (insert p db table keys values env)

/-- No key is null, and the arrays are of one length and have values of known types only; or
no value that would be read is of a known type. -/
def CorrectWhen (keys : List (Option JString)) (values : List JObject) : Prop :=
  (∀ key ∈ keys, key ≠ none) ∧
    ((keys.length = values.length ∧ ∀ value ∈ values, value.value ≠ none) ∨
      (keys.length ≤ values.length ∧ ∀ value ∈ values.take keys.length, value = .other))

instance (keys : List (Option JString)) (values : List JObject) :
    Decidable (CorrectWhen keys values) :=
  inferInstanceAs (Decidable (_ ∧ _))

/-- The call that the switch makes for a value, if it makes one. -/
def putCall (key : Bytes) : JObject → Option Call
  | .integer v => some (.putInteger key v.toInt64)
  | .long v => some (.putInteger key v)
  | .float v => some (.putReal key (widen v))
  | .double v => some (.putReal key v)
  | .string v => some (.putString key (encode v))
  | .byteArray v => some (.putBlobRange key (fun i => (v.getD i 0).toUInt8) v.length)
  | .null | .other => none

theorem putValue_eq (cv : MadContentValues) (key : Bytes) {value : JObject}
    (hn : value ≠ .null) :
    putValue cv key value = .ok (run next cv (putCall key value).toList) := by
  cases value with
  | null => exact absurd rfl hn
  | string v =>
    rw [putCall, ← cStr_encode v]
    rfl
  | _ => rfl

/-- The calls of the loop, as long as there are keys and values. -/
def putCalls (keys : List (Option JString)) (values : List JObject) : List Call :=
  (keys.zip values).filterMap fun q => q.1.bind fun key => putCall (encode key) q.2

/-- The loop gets through when there is a value for each key and neither is null. -/
def Readable (keys : List (Option JString)) (values : List JObject) : Prop :=
  keys.length ≤ values.length ∧ (∀ key ∈ keys, key ≠ none) ∧
    ∀ value ∈ values.take keys.length, value ≠ .null

theorem readable_cons {key : JString} {keys : List (Option JString)} {value : JObject}
    {values : List JObject} :
    Readable (some key :: keys) (value :: values) ↔ value ≠ .null ∧ Readable keys values := by
  simp only [Readable, List.length_cons, Nat.add_le_add_iff_right, List.forall_mem_cons,
    List.take_succ_cons]
  constructor
  · rintro ⟨hl, ⟨-, hk⟩, hn, hv⟩
    exact ⟨hn, hl, hk, hv⟩
  · rintro ⟨hn, hl, hk, hv⟩
    exact ⟨hl, ⟨Option.some_ne_none key, hk⟩, hn, hv⟩

/-- The loop as a recursion over the arrays. -/
def putPairs : List (Option JString) → List JObject → MadContentValues →
    Except JniError MadContentValues
  | [], _, cv => .ok cv
  | none :: _, _, _ => .error .undefined
  | some _ :: _, [], _ => .error .arrayIndexOutOfBounds
  | some key :: keys, value :: values, cv => do
    putPairs keys values (← putValue cv (encode key) value)

theorem putLoop_eq {keys ks : List (Option JString)} {values vs : List JObject} {i : ℕ}
    (hks : keys.drop i = ks) (hvs : values.drop i = vs) (cv : MadContentValues) :
    putLoop keys values ks.length i cv = putPairs ks vs cv := by
  induction ks generalizing vs i cv with
  | nil => rfl
  | cons key ks ih =>
    have hkey : keys[i]? = some key := by rw [← List.head?_drop, hks]; rfl
    have hnext : keys.drop (i + 1) = ks := by rw [← List.tail_drop, hks]; rfl
    have hvalue : values[i]? = vs.head? := by rw [← List.head?_drop, hvs]
    have hrest : values.drop (i + 1) = vs.tail := by rw [← List.tail_drop, hvs]
    rw [List.length_cons, putLoop, getObjectArrayElement, hkey]
    cases key with
    | none => rfl
    | some key =>
      cases vs with
      | nil => simp [getObjectArrayElement, hvalue, getStringUTFChars, putPairs, bind, Except.bind]
      | cons value vs =>
        simp only [getObjectArrayElement, hvalue, getStringUTFChars, putPairs, bind, Except.bind,
          List.head?_cons, cStr_encode]
        cases putValue cv (encode key) value with
        | error e => rfl
        | ok cv => exact ih hnext hrest cv

theorem putPairs_ok {keys : List (Option JString)} {values : List JObject}
    (hr : Readable keys values) (cv : MadContentValues) :
    putPairs keys values cv = .ok (run next cv (putCalls keys values)) := by
  induction keys generalizing values cv with
  | nil => rfl
  | cons key keys ih =>
    cases key with
    | none => exact absurd rfl (hr.2.1 none List.mem_cons_self)
    | some key =>
      cases values with
      | nil => exact absurd hr.1 (by simp)
      | cons value values =>
        obtain ⟨hn, hr⟩ := readable_cons.mp hr
        rw [putPairs, putValue_eq cv (encode key) hn]
        refine (ih hr _).trans ?_
        rw [← run_append]
        cases hc : putCall (encode key) value <;> simp [putCalls, hc]

theorem putPairs_error {keys : List (Option JString)} {values : List JObject}
    (hr : ¬Readable keys values) (cv : MadContentValues) :
    ∃ e, putPairs keys values cv = .error e := by
  induction keys generalizing values cv with
  | nil => exact absurd ⟨Nat.zero_le _, by simp, by simp⟩ hr
  | cons key keys ih =>
    cases key with
    | none => exact ⟨_, rfl⟩
    | some key =>
      cases values with
      | nil => exact ⟨_, rfl⟩
      | cons value values =>
        by_cases hn : value = .null
        · subst hn
          exact ⟨.undefined, rfl⟩
        · have hrest : ¬Readable keys values := fun h => hr (readable_cons.mpr ⟨hn, h⟩)
          rw [putPairs, putValue_eq cv (encode key) hn]
          exact ih hrest _

section Result

variable (p : Platform) {σ : Type*} (db : Impl σ) (table : JString)
  {keys : List (Option JString)} {values : List JObject} (env : InsertEnv σ)

theorem insert_eq : insert p db table keys values env =
    (putPairs keys values .new).map fun cv => insertValues p db ⟨encode table, cv, env⟩ := by
  have hloop : putLoop keys values keys.length 0 .new = putPairs keys values .new :=
    putLoop_eq List.drop_zero List.drop_zero .new
  simp only [insert, if_true, hloop, cStr_encode]
  cases putPairs keys values .new <;> rfl

theorem insert_readable (hr : Readable keys values) : insert p db table keys values env =
    .ok (insertValues p db ⟨encode table, run next .new (putCalls keys values), env⟩) := by
  rw [insert_eq, putPairs_ok hr]
  rfl

theorem insert_unreadable (hr : ¬Readable keys values) :
    ∃ e, insert p db table keys values env = .error e := by
  obtain ⟨e, he⟩ := putPairs_error hr .new
  rw [insert_eq, he]
  exact ⟨e, rfl⟩

/-- An insert that nothing stands in the way of stores what it is given. -/
def takesAll : InsertEnv σ :=
  ⟨.insertion, fun _ => none, fun _ _ => none, fun _ => .ran (.stored id)⟩

theorem insertValues_takesAll (cv : MadContentValues) (hn : isEmpty cv.impl = false) :
    (insertValues p db ⟨encode table, cv, takesAll⟩).1 = true := by
  have hran : insertRan ⟨encode table, cv, takesAll (σ := σ)⟩ = some (.stored id) :=
    insertRan_some.mpr ⟨⟨hn, rfl⟩, fun _ _ => rfl, rfl⟩
  exact (outcome_stored p (h := db) hran ⟨rfl, rfl, rfl, rfl, fun _ => rfl⟩).1

end Result

theorem apply_putCall (m : Contents) (key : Bytes) (value : JObject) :
    (putCall key value).map (apply m) = value.value.map fun v => m.insert key v := by
  cases value with
  | byteArray v =>
    have hb : (List.ofFn fun i : Fin v.length => (v.getD i 0).toUInt8) = v.map Int8.toUInt8 :=
      List.ext_getElem (by simp) (by simp)
    exact congrArg (fun b => some (m.insert key (.blob b))) hb
  | _ => rfl

theorem Encodes.insert {m : Contents} {j : JavaMap} (h : Encodes m j) (key : JString)
    (v : Value) : Encodes (m.insert (encode key) v) (j.insert key v) := by
  constructor
  · intro key'
    by_cases he : key' = key
    · rw [he, Finmap.lookup_insert, Finmap.lookup_insert]
    · rw [Finmap.lookup_insert_of_ne _ fun hn => he (encode_injective hn),
        Finmap.lookup_insert_of_ne _ he, h.lookup]
  · intro name hm
    rcases Finmap.mem_insert.mp hm with rfl | hm
    · exact ⟨key, rfl⟩
    · exact h.key name hm

theorem pairs_cons {key : Option JString} {keys : List (Option JString)} {value : JObject}
    {values : List JObject} {qs : List (JString × Value)} :
    pairs (key :: keys) (value :: values) = some qs ↔ ∃ k v rest, key = some k ∧
      value.value = some v ∧ pairs keys values = some rest ∧ qs = (k, v) :: rest := by
  simp only [pairs, List.zip_cons_cons, List.mapM_cons]
  cases key with
  | none => simp
  | some k =>
    cases value.value with
    | none => simp
    | some v =>
      cases (keys.zip values).mapM fun q => do return (← q.1, ← q.2.value) with
      | none => simp
      | some rest => simp [eq_comm]

theorem encodes_putCalls {keys : List (Option JString)} {values : List JObject}
    {qs : List (JString × Value)} (hq : pairs keys values = some qs) {m : Contents} {j : JavaMap}
    (h : Encodes m j) : Encodes (run apply m (putCalls keys values))
      (qs.foldl (fun m q => m.insert q.1 q.2) j) := by
  induction keys generalizing values qs m j with
  | nil =>
    cases hq
    exact h
  | cons key keys ih =>
    cases values with
    | nil =>
      cases hq
      exact h
    | cons value values =>
      obtain ⟨k, v, rest, rfl, hv, hrest, rfl⟩ := pairs_cons.mp hq
      have ha := apply_putCall m (encode k) value
      rw [hv, Option.map_some, Option.map_eq_some_iff] at ha
      obtain ⟨call, hc, ha⟩ := ha
      have hcalls : putCalls (some k :: keys) (value :: values) =
          call :: putCalls keys values := by simp [putCalls, hc]
      rw [hcalls, run_cons, ha]
      exact ih hrest (h.insert k v)

theorem carries_pairs {keys : List (Option JString)} {values : List JObject}
    {qs : List (JString × Value)} (hq : pairs keys values = some qs) :
    Carries (run next .new (putCalls keys values)) (pairsMap qs) := by
  have hempty : Encodes ∅ ∅ := ⟨fun _ => rfl, fun _ hm => absurd hm Finmap.notMem_empty⟩
  have he := encodes_putCalls hq hempty
  have ha : Agrees (run next .new (putCalls keys values)).impl
      (run apply ∅ (putCalls keys values)) := run_agrees empty_agrees _
  exact ⟨_, ha.represents, he⟩

theorem pairs_isSome {keys : List (Option JString)} {values : List JObject}
    (hl : keys.length = values.length) (hk : ∀ key ∈ keys, key ≠ none) :
    (∃ qs, pairs keys values = some qs) ↔ ∀ value ∈ values, value.value ≠ none := by
  induction keys generalizing values with
  | nil =>
    obtain rfl := List.length_eq_zero_iff.mp hl.symm
    exact iff_of_true ⟨[], rfl⟩ (by simp)
  | cons key keys ih =>
    obtain ⟨value, values, rfl⟩ := List.exists_cons_of_length_eq_add_one hl.symm
    rw [List.forall_mem_cons] at hk ⊢
    obtain ⟨k, rfl⟩ := Option.ne_none_iff_exists'.mp hk.1
    rw [← ih (Nat.succ.inj hl) hk.2, Option.ne_none_iff_exists']
    constructor
    · rintro ⟨qs, hq⟩
      obtain ⟨-, v, rest, -, hv, hrest, -⟩ := pairs_cons.mp hq
      exact ⟨⟨v, hv⟩, rest, hrest⟩
    · rintro ⟨⟨v, hv⟩, rest, hrest⟩
      exact ⟨_, pairs_cons.mpr ⟨k, v, rest, rfl, hv, hrest, rfl⟩⟩

theorem putCall_eq_none (key : Bytes) {value : JObject} (hn : value ≠ .null) :
    putCall key value = none ↔ value = .other := by
  cases value <;> simp_all [putCall]

theorem putCalls_eq_nil {keys : List (Option JString)} {values : List JObject}
    (hr : Readable keys values) :
    putCalls keys values = [] ↔ ∀ value ∈ values.take keys.length, value = .other := by
  induction keys generalizing values with
  | nil => simp [putCalls]
  | cons key keys ih =>
    obtain ⟨k, rfl⟩ := Option.ne_none_iff_exists'.mp (hr.2.1 key List.mem_cons_self)
    cases values with
    | nil => exact absurd hr.1 (by simp)
    | cons value values =>
      obtain ⟨hn, hr⟩ := readable_cons.mp hr
      rw [List.length_cons, List.take_succ_cons, List.forall_mem_cons, ← ih hr,
        ← putCall_eq_none (encode k) hn]
      cases hc : putCall (encode k) value <;> simp [putCalls, hc]

theorem mem_apply {m : Contents} {call : Call} (hc : call.key ≠ none) {name : Bytes}
    (hm : name ∈ m ∨ call.key = some name) : name ∈ apply m call := by
  cases call with
  | clear => exact absurd rfl hc
  | _ =>
    refine Finmap.mem_insert.mpr ?_
    rcases hm with hm | hm
    · exact .inr hm
    · exact .inl (Option.some.inj hm).symm

theorem run_apply_mem {calls : List Call} (hc : ∀ call ∈ calls, call.key ≠ none) {m : Contents}
    {name : Bytes} (hm : name ∈ m) : name ∈ run apply m calls := by
  induction calls generalizing m with
  | nil => exact hm
  | cons call calls ih =>
    rw [List.forall_mem_cons] at hc
    exact ih hc.2 (mem_apply hc.1 (.inl hm))

theorem putCalls_key {keys : List (Option JString)} {values : List JObject} :
    ∀ call ∈ putCalls keys values, call.key ≠ none := by
  intro call hm
  obtain ⟨⟨key, value⟩, -, hc⟩ := List.mem_filterMap.mp hm
  obtain ⟨k, -, hc⟩ := Option.bind_eq_some_iff.mp hc
  cases value <;> cases hc <;> exact Option.some_ne_none _

/-- Once a call is made there is something to insert. -/
theorem putCalls_not_empty {keys : List (Option JString)} {values : List JObject}
    (hn : putCalls keys values ≠ []) :
    isEmpty (run next .new (putCalls keys values)).impl = false := by
  have ha : Agrees (run next .new (putCalls keys values)).impl
      (run apply ∅ (putCalls keys values)) := run_agrees empty_agrees _
  rw [← Bool.not_eq_true, ha.represents.isEmpty]
  intro he
  have hkey : ∀ call ∈ putCalls keys values, call.key ≠ none := putCalls_key
  obtain ⟨call, calls, hcs⟩ := List.exists_cons_of_ne_nil hn
  rw [hcs, List.forall_mem_cons] at hkey
  obtain ⟨name, hname⟩ := Option.ne_none_iff_exists'.mp hkey.1
  have hm : name ∈ run apply ∅ (call :: calls) :=
    run_apply_mem hkey.2 (mem_apply hkey.1 (.inr hname))
  rw [← hcs, he] at hm
  exact Finmap.notMem_empty hm

/-- Nothing is inserted on any database exactly when the loop makes no call. -/
theorem refused_iff (p : Platform) {keys : List (Option JString)} {values : List JObject}
    (hr : Readable keys values) :
    (∀ (σ : Type) (db : Impl σ) (table : JString) (env : InsertEnv σ),
      Refused db (insert p db table keys values env)) ↔ putCalls keys values = [] := by
  constructor
  · intro h
    by_contra hn
    obtain ⟨db', he, -⟩ := h Unit (.opened ()) [] takesAll
    rw [insert_readable p _ _ _ hr] at he
    have ht := insertValues_takesAll p (Impl.opened ()) [] _ (putCalls_not_empty hn)
    rw [Except.ok.inj he] at ht
    cases ht
  · intro hn σ db table env
    rw [insert_readable p db table env hr, hn]
    exact ⟨db, congrArg Except.ok (insertValues_empty p db rfl), rfl⟩

theorem correct_unreadable (p : Platform) {keys : List (Option JString)} {values : List JObject}
    (hr : ¬Readable keys values) : ¬Correct p keys values := by
  intro hc
  obtain ⟨e, he⟩ := insert_unreadable p (Impl.opened ()) [] takesAll hr
  have h := hc Unit (.opened ()) [] takesAll
  rw [he] at h
  split at h
  · split at h
    · obtain ⟨cv, -, hok⟩ := h
      cases hok
    · obtain ⟨db', hok, -⟩ := h
      cases hok
  · obtain ⟨db', hok, -⟩ := h
    cases hok

theorem known_ne_null {value : JObject} (h : value.value ≠ none) : value ≠ .null := by
  rintro rfl
  exact h rfl

theorem readable_of_correctWhen {keys : List (Option JString)} {values : List JObject}
    (h : CorrectWhen keys values) : Readable keys values := by
  obtain ⟨hk, ⟨hl, hv⟩ | ⟨hl, hv⟩⟩ := h
  · exact ⟨hl.le, hk, fun value hm => known_ne_null (hv value (List.mem_of_mem_take hm))⟩
  · refine ⟨hl, hk, fun value hm => ?_⟩
    rw [hv value hm]
    exact nofun

/-- The arrays get what they ask for exactly when they are of one length and have no null and
values of known types only, or when there is nothing to insert in them anyway. -/
theorem correct_iff (p : Platform) (keys : List (Option JString)) (values : List JObject) :
    Correct p keys values ↔ CorrectWhen keys values := by
  by_cases hr : Readable keys values
  · have hall := (refused_iff p hr).trans (putCalls_eq_nil hr)
    have hright : keys.length ≤ values.length ∧
        (∀ value ∈ values.take keys.length, value = .other) ↔
          ∀ value ∈ values.take keys.length, value = .other := and_iff_right hr.1
    rw [CorrectWhen, and_iff_right hr.2.1, hright, ← hall]
    by_cases hl : keys.length = values.length
    · simp only [Correct, if_pos hl]
      have hsome := pairs_isSome hl hr.2.1
      cases hq : pairs keys values with
      | some qs =>
        rw [hq] at hsome
        refine iff_of_true (fun σ db table env => ?_) (.inl ⟨hl, hsome.mp ⟨qs, rfl⟩⟩)
        exact ⟨_, carries_pairs hq, insert_readable p db table env hr⟩
      | none =>
        rw [hq] at hsome
        have hno : ¬∀ value ∈ values, value.value ≠ none := fun h => nomatch hsome.mpr h
        rw [or_iff_right fun h => hno h.2]
    · simp only [Correct, if_neg hl]
      rw [or_iff_right fun h => hl h.1]
  · exact iff_of_false (correct_unreadable p hr) fun h => hr (readable_of_correctWhen h)

/-- Two values for one key: the second one is left out, and the insert goes ahead. -/
theorem twoValues_accepted : ¬Correct .noConversion [some [107]] [.integer 1, .integer 2] := by
  intro hc
  have hr : Readable [some [107]] [.integer 1, .integer 2] := ⟨by decide, by decide, by decide⟩
  have hn : putCalls [some [107]] [.integer 1, .integer 2] = [] :=
    (refused_iff .noConversion hr).mp hc
  cases hn

end JniInsert
