import MadSqlite.SqliteCalls

/-! # The SQL text of an insert

The names go into the text between brackets as they are. SQLite reads them back unless a
name holds a closing bracket, which ends it early, or a NUL, which ends the text. -/
namespace InsertText

open CppStrings ContentValues SqliteTokens SqliteCommands SqliteConnection
open MadDatabase HandleCalls SqliteCalls

variable {σ : Type*} (p : Platform)

def bracketed (name : Bytes) : Bytes := 91 :: (name ++ [93])
def ident (name : Bytes) : Token := ⟨.id, bracketed name⟩
def comma : Token := ⟨.comma, ascii ","⟩
def param : Token := ⟨.variable, ascii "?"⟩
def lp : Token := ⟨.lp, ascii "("⟩
def rp : Token := ⟨.rp, ascii ")"⟩

/-- INSERT INTO table (k1, ..., kn) VALUES (?, ..., ?); -/
def insertTokens (table : Bytes) (keys : List Bytes) : List Token :=
  ⟨kw "INSERT", ascii "INSERT"⟩ :: ⟨kw "INTO", ascii "INTO"⟩ :: ident table :: lp ::
    ((keys.map ident).intersperse comma ++ rp :: ⟨kw "VALUES", ascii "VALUES"⟩ :: lp ::
      ((keys.map fun _ => param).intersperse comma ++ [rp, ⟨.semi, ascii ";"⟩]))

/-- SQLite reads the text as this statement, and each name as it was given. -/
structure ReadsBack (table : Bytes) (keys : List Bytes) : Prop where
  tokens : tokenize (cStr (insertSql table keys)) = insertTokens table keys
  names : ∀ name ∈ table :: keys, sqlite3Dequote (bracketed name) = name

def Clean (name : Bytes) : Prop := 93 ∉ name ∧ 0 ∉ name

instance (name : Bytes) : Decidable (Clean name) :=
  inferInstanceAs (Decidable (_ ∧ _))

def columnText : List Bytes → Bytes
  | [] => []
  | [key] => bracketed key ++ ascii " )"
  | key :: keys => bracketed key ++ ascii " ," ++ columnText keys

def valueText : List Bytes → Bytes
  | [] => []
  | [_] => ascii "?);"
  | _ :: keys => ascii "?," ++ valueText keys

theorem foldl_appendKey {ks : List Bytes} (hn : ks ≠ []) (hd : ks.Nodup) (s : Bytes × Bytes) :
    ks.foldl (appendKey (ks.getLast hn)) s = (s.1 ++ columnText ks, s.2 ++ valueText ks) := by
  induction ks generalizing s with
  | nil => exact absurd rfl hn
  | cons key ks ih =>
    cases ks with
    | nil => simp [appendKey, columnText, valueText, bracketed, ascii]
    | cons key' ks =>
      have hback : key ≠ (key' :: ks).getLast (List.cons_ne_nil _ _) := by
        intro he
        exact (List.nodup_cons.mp hd).1 (he ▸ List.getLast_mem _)
      rw [List.foldl_cons, List.getLast_cons_cons, ih (List.cons_ne_nil _ _) hd.of_cons]
      simp [appendKey, hback, columnText, valueText, bracketed, ascii]

theorem insertSql_eq (table : Bytes) {ks : List Bytes} (hn : ks ≠ []) (hd : ks.Nodup) :
    insertSql table ks = ascii "INSERT INTO " ++ (bracketed table ++ (ascii " (" ++
      (columnText ks ++ (ascii " VALUES (" ++ valueText ks)))) := by
  have hback : ks.getLast?.getD [] = ks.getLast hn := by rw [List.getLast?_eq_some_getLast hn]; rfl
  rw [insertSql, hback, foldl_appendKey hn hd]
  simp [bracketed, ascii]

theorem tokenize_bracketed {name : Bytes} (hc : 93 ∉ name) (rest : Bytes) :
    tokenize (bracketed name ++ rest) = ident name :: tokenize rest := by
  have hspan : span (· ≠ 93) (name ++ 93 :: rest) = name.length := by
    refine span_append ?_ (by decide) rest
    intro c hm
    rw [decide_eq_true_iff]
    rintro rfl
    exact hc hm
  have hget : sqlite3GetToken (bracketed name ++ rest) = (.id, (bracketed name).length) := by
    have hq : sqlite3GetToken (91 :: (name ++ 93 :: rest)) =
        if span (· ≠ 93) (name ++ 93 :: rest) < (name ++ 93 :: rest).length then
          (.id, span (· ≠ 93) (name ++ 93 :: rest) + 2)
        else (.illegal, (name ++ 93 :: rest).length + 1) := rfl
    rw [hspan, if_pos (by simp)] at hq
    simpa [bracketed] using hq
  exact tokenize_cons (a := bracketed name) (List.cons_ne_nil _ _) (by decide) hget

theorem tokenize_space {b : UInt8} (hb : isspace b = false) (rest : Bytes) :
    tokenize (32 :: b :: rest) = tokenize (b :: rest) := by
  have hget : sqlite3GetToken ([32] ++ b :: rest) = (.space, [32].length) := by
    have hs : span isspace (b :: rest) = 0 := by simp [span, hb]
    have hq : sqlite3GetToken (32 :: b :: rest) = (.space, 1 + span isspace (b :: rest)) := rfl
    rw [hs] at hq
    exact hq
  exact tokenize_append (List.cons_ne_nil _ _) hget

theorem tokenize_question {b : UInt8} (hb : isdigit b = false) (rest : Bytes) :
    tokenize (63 :: b :: rest) = param :: tokenize (b :: rest) := by
  have hget : sqlite3GetToken ([63] ++ b :: rest) = (.variable, [63].length) := by
    have hs : span isdigit (b :: rest) = 0 := by simp [span, hb]
    have hq : sqlite3GetToken (63 :: b :: rest) = (.variable, 1 + span isdigit (b :: rest)) := rfl
    rw [hs] at hq
    exact hq
  exact tokenize_cons (List.cons_ne_nil _ _) (by decide) hget

section Fixed

variable (rest : Bytes)

theorem tokenize_insertInto : tokenize (ascii "INSERT INTO " ++ 91 :: rest) =
    ⟨kw "INSERT", ascii "INSERT"⟩ :: ⟨kw "INTO", ascii "INTO"⟩ :: tokenize (91 :: rest) := by
  have h1 : tokenize (ascii "INSERT" ++ 32 :: (ascii "INTO" ++ 32 :: 91 :: rest)) =
      ⟨kw "INSERT", ascii "INSERT"⟩ :: tokenize (32 :: (ascii "INTO" ++ 32 :: 91 :: rest)) :=
    tokenize_cons (a := ascii "INSERT") (by decide) (by decide) rfl
  have h2 : tokenize (ascii "INTO" ++ 32 :: 91 :: rest) =
      ⟨kw "INTO", ascii "INTO"⟩ :: tokenize (32 :: 91 :: rest) :=
    tokenize_cons (a := ascii "INTO") (by decide) (by decide) rfl
  have hs : tokenize (32 :: (ascii "INTO" ++ 32 :: 91 :: rest)) =
      tokenize (ascii "INTO" ++ 32 :: 91 :: rest) := tokenize_space (by decide) _
  rw [hs, h2, tokenize_space (by decide)] at h1
  exact h1

theorem tokenize_open : tokenize (ascii " (" ++ rest) = lp :: tokenize rest :=
  (tokenize_space (by decide) rest).trans (tokenize_cons (a := [40]) (by decide) (by decide) rfl)

theorem tokenize_next : tokenize (ascii " ," ++ rest) = comma :: tokenize rest :=
  (tokenize_space (by decide) rest).trans (tokenize_cons (a := [44]) (by decide) (by decide) rfl)

theorem tokenize_values : tokenize (ascii " )" ++ (ascii " VALUES (" ++ rest)) =
    rp :: ⟨kw "VALUES", ascii "VALUES"⟩ :: lp :: tokenize rest := by
  have h1 : tokenize (ascii ")" ++ (ascii " VALUES (" ++ rest)) =
      rp :: tokenize (ascii " VALUES (" ++ rest) :=
    tokenize_cons (a := ascii ")") (by decide) (by decide) rfl
  have h2 : tokenize (ascii "VALUES" ++ (ascii " (" ++ rest)) =
      ⟨kw "VALUES", ascii "VALUES"⟩ :: tokenize (ascii " (" ++ rest) :=
    tokenize_cons (a := ascii "VALUES") (by decide) (by decide) rfl
  have hs : tokenize (ascii " VALUES (" ++ rest) =
      tokenize (ascii "VALUES" ++ (ascii " (" ++ rest)) :=
    tokenize_space (by decide) _
  rw [hs, h2, tokenize_open] at h1
  exact (tokenize_space (by decide) _).trans h1

theorem tokenize_question_next : tokenize (ascii "?," ++ rest) = param :: comma :: tokenize rest :=
  (tokenize_question (by decide) rest).trans
    (congrArg (param :: ·) (tokenize_cons (a := [44]) (by decide) (by decide) rfl))

end Fixed

theorem tokenize_questions {ks : List Bytes} (hn : ks ≠ []) : tokenize (valueText ks) =
    (ks.map fun _ => param).intersperse comma ++ [rp, ⟨.semi, ascii ";"⟩] := by
  induction ks with
  | nil => exact absurd rfl hn
  | cons key ks ih =>
    cases ks with
    | nil => rfl
    | cons key' ks =>
      have hv : valueText (key :: key' :: ks) = ascii "?," ++ valueText (key' :: ks) := rfl
      rw [hv, tokenize_question_next, ih (List.cons_ne_nil _ _)]
      rfl

theorem tokenize_columns {ks : List Bytes} (hn : ks ≠ []) (hc : ∀ k ∈ ks, 93 ∉ k)
    (rest : Bytes) : tokenize (columnText ks ++ (ascii " VALUES (" ++ rest)) =
      (ks.map ident).intersperse comma ++
        rp :: ⟨kw "VALUES", ascii "VALUES"⟩ :: lp :: tokenize rest := by
  induction ks with
  | nil => exact absurd rfl hn
  | cons key ks ih =>
    rw [List.forall_mem_cons] at hc
    cases ks with
    | nil =>
      rw [columnText, List.append_assoc, tokenize_bracketed hc.1, tokenize_values]
      rfl
    | cons key' ks =>
      have ht : columnText (key :: key' :: ks) =
          bracketed key ++ ascii " ," ++ columnText (key' :: ks) := rfl
      rw [ht, List.append_assoc, List.append_assoc, tokenize_bracketed hc.1,
        tokenize_next, ih (List.cons_ne_nil _ _) hc.2]
      rfl

theorem unquote_bracketed {name : Bytes} (hc : 93 ∉ name) : unquote 93 (name ++ [93]) = name := by
  induction name with
  | nil => rfl
  | cons c name ih =>
    rw [List.mem_cons, not_or] at hc
    cases name with
    | nil => simp [unquote, Ne.symm hc.1]
    | cons d name =>
      have hn : unquote 93 (c :: d :: name ++ [93]) = c :: unquote 93 (d :: name ++ [93]) := by
        simp [unquote, Ne.symm hc.1]
      rw [hn, ih hc.2]

theorem zero_notMem_columnText {ks : List Bytes} (hc : ∀ k ∈ ks, 0 ∉ k) : 0 ∉ columnText ks := by
  induction ks with
  | nil => simp [columnText]
  | cons key ks ih =>
    rw [List.forall_mem_cons] at hc
    cases ks with
    | nil => simp [columnText, bracketed, ascii, hc.1]
    | cons key' ks =>
      have ht : columnText (key :: key' :: ks) =
          bracketed key ++ ascii " ," ++ columnText (key' :: ks) := rfl
      simp [ht, bracketed, ascii, hc.1, ih hc.2]

theorem zero_notMem_valueText (ks : List Bytes) : 0 ∉ valueText ks := by
  induction ks with
  | nil => simp [valueText]
  | cons key ks ih =>
    cases ks with
    | nil => simp [valueText, ascii]
    | cons key' ks =>
      have hv : valueText (key :: key' :: ks) = ascii "?," ++ valueText (key' :: ks) := rfl
      simp [hv, ascii, ih]

theorem readsBack_of_clean {table : Bytes} {ks : List Bytes} (hn : ks ≠ []) (hd : ks.Nodup)
    (hc : ∀ name ∈ table :: ks, Clean name) : ReadsBack table ks := by
  have h93 : ∀ k ∈ ks, 93 ∉ k := fun k hm => (hc k (List.mem_cons_of_mem _ hm)).1
  have h0 : ∀ k ∈ ks, 0 ∉ k := fun k hm => (hc k (List.mem_cons_of_mem _ hm)).2
  have ht := hc table List.mem_cons_self
  constructor
  · have hz : 0 ∉ insertSql table ks := by
      have hcol := zero_notMem_columnText h0
      have hval := zero_notMem_valueText ks
      simp [insertSql_eq table hn hd, bracketed, ascii, ht.2, hcol, hval]
    rw [cStr_eq_self hz, insertSql_eq table hn hd]
    have hb (z : Bytes) : ascii "INSERT INTO " ++ (bracketed table ++ z) =
        ascii "INSERT INTO " ++ 91 :: (table ++ [93] ++ z) := rfl
    have hb' (z : Bytes) : 91 :: (table ++ [93] ++ z) = bracketed table ++ z := rfl
    rw [hb, tokenize_insertInto, hb', tokenize_bracketed ht.1, tokenize_open,
      tokenize_columns hn h93, tokenize_questions hn]
    rfl
  · intro name hm
    exact unquote_bracketed (hc name hm).1

theorem mem_intersperse {α : Type*} {sep a : α} {l : List α} (h : a ∈ l) :
    a ∈ l.intersperse sep := by
  induction l with
  | nil => cases h
  | cons b l ih =>
    cases l with
    | nil => exact h
    | cons c l =>
      rw [List.intersperse_cons_cons, List.mem_cons, List.mem_cons]
      rcases List.mem_cons.mp h with rfl | h
      · exact .inl rfl
      · exact .inr (.inr (ih h))

theorem clean_of_readsBack {table : Bytes} {ks : List Bytes} (h : ReadsBack table ks) :
    ∀ name ∈ table :: ks, Clean name := by
  intro name hm
  have ht : ident name ∈ tokenize (cStr (insertSql table ks)) := by
    rw [h.tokens, insertTokens]
    rcases List.mem_cons.mp hm with rfl | hm
    · simp
    · have hmem : ident name ∈ (ks.map ident).intersperse comma :=
        mem_intersperse (List.mem_map_of_mem hm)
      simp [hmem]
  constructor
  · exact bracket_text ht
  · intro h0
    have hz := mem_text ht 0 (by simp [ident, bracketed, h0])
    simpa [cStr] using List.mem_takeWhile_imp hz

def NamesClean (c : InsertCall σ) : Prop :=
  ∀ name ∈ c.table :: keys c.env.order c.values.impl, Clean name

instance (c : InsertCall σ) : Decidable (NamesClean c) :=
  inferInstanceAs (Decidable (∀ name ∈ _, _))

/-- SQLite reads the text as it is meant, or the insert returns false and executes nothing. -/
def Safe (h : Impl σ) (c : InsertCall σ) : Prop :=
  ReadsBack c.table (keys c.env.order c.values.impl) ∨
    ((insertValues p h c).1 = false ∧ ∀ q ∈ insertLog p h c, q.function ≠ .step)

theorem refused_iff (h : Impl σ) (c : InsertCall σ) :
    ((insertValues p h c).1 = false ∧ ∀ q ∈ insertLog p h c, q.function ≠ .step) ↔
      ¬Prepared c := by
  by_cases he : isEmpty c.values.impl = true
  · simp [insertValues_empty p h he, insertLog, he, Prepared]
  · obtain ⟨oks, q, hl, ho, -, hlast⟩ := insertLog_last p h (by simpa using he)
    have hstep : (∀ o ∈ insertLog p h c, o.function ≠ .step) ↔ q.function ≠ .step := by
      rw [hl, List.forall_mem_append, List.forall_mem_singleton]
      exact and_iff_right fun o hm => (ho o hm).2
    rw [hstep]
    generalize (insertValues p h c).1 = b at hlast
    cases hlast with
    | prepare hp hfn => simp [hp, hfn]
    | bind hp => simp [hp]
    | done hp => simp [hp]
    | step hp _ hfn => simp [hp, hfn]

theorem keys_ne_nil {cv : ContentValues.Impl} (he : isEmpty cv = false) (o : HashOrder) :
    keys o cv ≠ [] := by
  intro hk
  have hn : cv._keys = [] := List.nil_perm.mp (hk ▸ o.perm cv._keys)
  simp [ContentValues.isEmpty, hn] at he

theorem readsBack_of_namesClean {c : InsertCall σ} (he : isEmpty c.values.impl = false)
    (hc : NamesClean c) : ReadsBack c.table (keys c.env.order c.values.impl) := by
  have hd : (keys c.env.order c.values.impl).Nodup :=
    (c.env.order.perm _).nodup_iff.mpr c.values.wellFormed.nodup
  exact readsBack_of_clean (keys_ne_nil he c.env.order) hd hc

/-- A prepared insert is safe exactly when no name holds a closing bracket or a NUL. -/
theorem safe_iff (h : Impl σ) (c : InsertCall σ) : Safe p h c ↔ NamesClean c ∨ ¬Prepared c := by
  rw [Safe, refused_iff]
  constructor
  · rintro (hr | hp)
    · exact .inl (clean_of_readsBack hr)
    · exact .inr hp
  · rintro (hc | hp)
    · by_cases hp : Prepared c
      · exact .inl (readsBack_of_namesClean hp.1 hc)
      · exact .inr hp
    · exact .inr hp

/-- The statement ends inside the table's name, and the rest of the text is a comment. -/
def injected : InsertCall (List ℕ) := { insertRow 1 with table := ascii "t] VALUES (?);--" }

theorem injected_not_safe : ¬Safe .noConversion (Impl.opened []) injected := by
  rintro (hr | ⟨hf, -⟩)
  · exact absurd (clean_of_readsBack hr injected.table List.mem_cons_self).1 (by decide)
  · exact absurd hf (by decide)

end InsertText
