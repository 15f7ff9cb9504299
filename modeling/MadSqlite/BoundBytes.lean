import MadSqlite.SqliteBindings

/-! # The bytes that are bound

The length of a text or a blob goes to SQLite as an `int`. From two gigabytes on it wraps, and
where SQLite accepts what has come of it, it takes fewer bytes than the caller gave. -/
namespace BoundBytes

open CppStrings ContentValues ContentMap SqliteConnection MadDatabase HandleCalls SqliteBindings
open SqliteValues Runs

variable {σ : Type*} {limit : LengthLimit} (p : Platform)

/-- The two operations that bind bytes. An insert comes with the calls that have filled its
container; SQLite accepts no value over its limit. -/
inductive Operation (limit : LengthLimit) (σ : Type*) where
  | insert (table : Bytes) (calls : List ContentMap.Call) (env : InsertEnv σ)
      (within : WithinLimit limit env.bind)
  | query (sql : Bytes) (args : List Bytes) (env : QueryEnv) (within : WithinLimit limit env.bind)

/-- The bytes of a text or a blob. -/
def bytesOf : Value → Option Bytes
  | .text z | .blob z => some z
  | _ => none

/-- The bytes a parameter holds; NULL holds none. -/
def boundBytes : SqlValue → Option Bytes
  | .text z | .blob z => some z
  | .null => some []
  | _ => none

/-- SQLite accepts the value of this key. -/
def Accepted (calls : List ContentMap.Call) (env : InsertEnv σ) (i : ℕ) : Prop :=
  ∀ key v, (insertKeys calls env)[i]? = some key → (contents calls).lookup key = some v →
    env.bind (i + 1) (bindCallOf v) = none

/-- The bytes that a parameter of a statement is bound to. -/
def parameterBytes (limit : LengthLimit) (s : Stmt) (i : ℕ) : Option Bytes :=
  ((s.bound.lookup i).bind (bindValue limit)).bind boundBytes

/-- In the statement that is left, the parameter of every text, blob and argument has exactly
the caller's bytes, or its bind call failed; after a failure an insert makes no more of them. -/
def Exact (h : MadDatabase.Impl σ) : Operation limit σ → Prop
  | .insert table calls env _ => ∀ s, insertedStmt p h (insertCall table calls env) = some s →
      ∀ i key v z, (insertKeys calls env)[i]? = some key →
        (contents calls).lookup key = some v → bytesOf v = some z →
          parameterBytes limit s (i + 1) = some z ∨ ∃ j ≤ i, ¬Accepted calls env j
  | .query sql args env _ => ∀ s, queriedStmt h sql args env = some s → ∀ i z, args[i]? = some z →
      parameterBytes limit s (i + 1) = some z ∨ env.bind (i + 1) (argument z) ≠ none

/-- What is accepted has less than two gigabytes. -/
def ExactWhen : Operation limit σ → Prop
  | .insert table calls env _ => Prepared (insertCall table calls env) →
      ∀ i key v z, (insertKeys calls env)[i]? = some key →
        (contents calls).lookup key = some v → bytesOf v = some z →
          (∀ j ≤ i, Accepted calls env j) → z.length < 2 ^ 31
  | .query sql args env _ => Compiles sql env → ∀ i z, args[i]? = some z →
      env.bind (i + 1) (.text z (toInt z.length)) = none → z.length < 2 ^ 31

/-- For a call that is accepted the length alone decides. -/
theorem bound_iff {v : Value} {z : Bytes} (hz : bytesOf v = some z)
    (h : bindValue limit (bindCallOf v) ≠ none) :
    (bindValue limit (bindCallOf v)).bind boundBytes = some z ↔ z.length < 2 ^ 31 := by
  cases v with
  | int v => cases hz
  | real v => cases hz
  | text y =>
    cases hz
    have hs : sqlite3VdbeMemSetStr limit .utf8 z (toInt z.length) ≠ none := by
      simpa [bindCallOf, bindValue] using h
    rw [← setStr_whole_iff hs]
    cases hy : sqlite3VdbeMemSetStr limit .utf8 z (toInt z.length) with
    | none => simp [bindCallOf, bindValue, hy]
    | some y => simp [bindCallOf, bindValue, hy, boundBytes]
  | blob y =>
    cases hz
    by_cases he : z = []
    · simp [he, bindCallOf, bindValue, boundBytes]
    · have hs : sqlite3VdbeMemSetStr limit .none z (toInt z.length) ≠ none := by
        simpa [bindCallOf, he, bindValue] using h
      rw [← setStr_whole_iff hs]
      cases hy : sqlite3VdbeMemSetStr limit .none z (toInt z.length) with
      | none => simp [bindCallOf, he, bindValue, hy]
      | some y => simp [bindCallOf, he, bindValue, hy, boundBytes]

section Insert

variable {calls : List ContentMap.Call} {env : InsertEnv σ} {vs : List Value}

/-- The parameter of a key is bound to its value. -/
theorem bindCall_at (hvs : (insertKeys calls env).map (contents calls).lookup = vs.map some)
    {i : ℕ} {key : Bytes} {v : Value} (hk : (insertKeys calls env)[i]? = some key)
    (hl : (contents calls).lookup key = some v) :
    (vs.map bindCallOf)[i]? = some (bindCallOf v) := by
  rw [List.getElem?_map, (value_at hvs i v).mpr ⟨key, hk, hl⟩]
  rfl

theorem accepted_iff (hvs : (insertKeys calls env).map (contents calls).lookup = vs.map some)
    (j : ℕ) : Accepted calls env j ↔
      ∀ w, (vs.map bindCallOf)[j]? = some w → env.bind (j + 1) w = none := by
  constructor
  · intro h w hw
    rw [List.getElem?_map] at hw
    obtain ⟨v, hv, rfl⟩ := Option.map_eq_some_iff.mp hw
    obtain ⟨key, hk, hl⟩ := (value_at hvs j v).mp hv
    exact h key v hk hl
  · intro h key v hk hl
    exact h (bindCallOf v) (bindCall_at hvs hk hl)

theorem exact_insert (h : MadDatabase.Impl σ) (table : Bytes) (calls : List ContentMap.Call)
    (env : InsertEnv σ) (within : WithinLimit limit env.bind) :
    Exact p h (.insert table calls env within) ↔ ExactWhen (.insert table calls env within) := by
  have hagrees := contents_agrees calls
  obtain ⟨vs, hvs⟩ := exists_values hagrees env.order
  rw [Exact, ExactWhen]
  by_cases hp : Prepared (insertCall table calls env)
  · obtain ⟨s, hs, -, hbound⟩ := insertedStmt_prepared p h hp
    have hcalls : bindCalls (insertCall table calls env).values.impl 0 (insertKeys calls env) =
        ((vs.map bindCallOf).zipIdx (0 + 1)).map fun q => (q.2, q.1) := bindCalls_lookup hagrees hvs
    rw [hs, forall_prop_of_true hp]
    simp only [Option.some.injEq, forall_eq']
    refine forall_congr' fun i => forall_congr' fun key => forall_congr' fun v => ?_
    refine forall_congr' fun z => imp_congr_right fun hk => imp_congr_right fun hl => ?_
    refine imp_congr_right fun hz => ?_
    by_cases hall : ∀ j ≤ i, Accepted calls env j
    · have hlookup : s.bound.lookup (i + 1) = some (bindCallOf v) := by
        have hat := @lookup_acceptedCalls env.bind 0 i _ _ (bindCall_at hvs hk hl)
          fun j hj x hx => by simpa using (accepted_iff hvs j).mp (hall j hj) x hx
        rw [← hcalls, Nat.zero_add] at hat
        rw [hbound]
        exact hat
      have hw := within (i + 1) _ (hall i le_rfl key v hk hl)
      rw [parameterBytes, hlookup, Option.bind_some, bound_iff hz hw, forall_prop_of_true hall]
      exact or_iff_left fun ⟨j, hj, hn⟩ => hn (hall j hj)
    · refine iff_of_true (.inr ?_) fun h => absurd h hall
      simpa using hall
  · rw [insertedStmt_unprepared p h hp]
    exact iff_of_true (fun s hs => by cases hs) fun h => absurd h hp

end Insert

theorem exact_query (h : MadDatabase.Impl σ) (sql : Bytes) (args : List Bytes) (env : QueryEnv)
    (within : WithinLimit limit env.bind) :
    Exact p h (.query sql args env within) ↔ ExactWhen (.query sql args env within : Operation
      limit σ) := by
  rw [Exact, ExactWhen]
  by_cases hc : Compiles sql env
  · rw [(query_stmt h args hc).2, forall_prop_of_true hc]
    simp only [Option.some.injEq, forall_eq']
    refine forall_congr' fun i => forall_congr' fun z => imp_congr_right fun hz => ?_
    have hlookup := lookup_acceptedFrom env.bind (i := 0) hz
    rw [Nat.zero_add] at hlookup
    rw [parameterBytes, hlookup]
    by_cases ha : env.bind (i + 1) (argument z) = none
    · have hbound := @bound_iff limit (.text z) z rfl (within (i + 1) _ ha)
      rw [if_pos ha, Option.bind_some, or_iff_left (not_not.mpr ha)]
      exact hbound.trans ⟨fun hl _ => hl, fun hl => hl ha⟩
    · exact iff_of_true (.inr ha) fun h => absurd h ha
  · rw [queriedStmt_not_compiled h args hc]
    exact iff_of_true (fun s hs => by cases hs) fun h => absurd h hc

/-- In an insert and in a query, every bind call fails or binds exactly the caller's bytes
exactly when all that is accepted has less than two gigabytes. -/
theorem exact_iff (h : MadDatabase.Impl σ) (op : Operation limit σ) :
    Exact p h op ↔ ExactWhen op := by
  cases op with
  | insert table calls env within => exact exact_insert p h table calls env within
  | query sql args env within => exact exact_query p h sql args env within

/-- An argument of four gigabytes, whose length comes out as zero. -/
def fourGigabytes : Bytes := List.replicate (2 ^ 32) 65

def longArgument : Operation defaultLimit (List ℕ) :=
  .query (ascii "SELECT ?") [fourGigabytes] ⟨fun _ => none, false, false,
    limited defaultLimit fun _ _ => none⟩ (limited_within defaultLimit _)

theorem longArgument_truncated : ¬Exact .noConversion (Impl.opened []) longArgument := by
  have hlen : fourGigabytes.length = 2 ^ 32 := List.length_replicate
  have hn : (toInt fourGigabytes.length).toInt = 0 := by rw [hlen]; decide
  have hc : Compiles (ascii "SELECT ?") ⟨fun _ => none, false, false,
    limited defaultLimit fun _ _ => none⟩ := ⟨rfl, by decide⟩
  rw [longArgument, exact_query, ExactWhen]
  generalize fourGigabytes = z at hlen hn ⊢
  have hb : bindValue defaultLimit (.text z (toInt z.length)) = some (.text []) := by
    rw [bindValue, setStr_of_nonneg (by omega), hn]
    rfl
  intro h
  have hshort := h hc 0 z rfl (by simp [limited, hb])
  omega

end BoundBytes
