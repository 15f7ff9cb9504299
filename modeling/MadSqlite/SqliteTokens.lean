import MadSqlite.CppStrings

/-! # The tokens of SQL text

`sqlite3GetToken` on the bytes before the terminating NUL. Reading past the end gives
the NUL, which belongs to no class below, so every loop of the source stops there. -/
namespace SqliteTokens

open CppStrings

inductive CharClass where
  | x | kywd | id | digit | dollar | varalpha | varnum | space | quote | quote2 | pipe | minus
  | lt | gt | eq | bang | slash | lp | rp | semi | plus | star | percent | comma | and | tilda
  | dot | illegal
  deriving DecidableEq, Repr

def isAlpha (c : UInt8) : Bool := (65 ≤ c ∧ c ≤ 90) ∨ (97 ≤ c ∧ c ≤ 122)
def isXdigit (c : UInt8) : Bool := isdigit c ∨ (65 ≤ c ∧ c ≤ 70) ∨ (97 ≤ c ∧ c ≤ 102)

/-- Letters, digits, `_`, `$` and every byte with the high bit. -/
def idChar (c : UInt8) : Bool := isAlpha c ∨ isdigit c ∨ c = 95 ∨ c = 36 ∨ 128 ≤ c

def aiClass (c : UInt8) : CharClass :=
  if c = 88 ∨ c = 120 then .x
  else if isAlpha c ∨ c = 95 then .kywd
  else if 128 ≤ c then .id
  else if isdigit c then .digit
  else match c with
    | 36 => .dollar
    | 64 | 35 | 58 => .varalpha
    | 63 => .varnum
    | 32 | 9 | 10 | 12 | 13 => .space
    | 34 | 39 | 96 => .quote
    | 91 => .quote2
    | 124 => .pipe
    | 45 => .minus
    | 60 => .lt
    | 62 => .gt
    | 61 => .eq
    | 33 => .bang
    | 47 => .slash
    | 40 => .lp
    | 41 => .rp
    | 59 => .semi
    | 43 => .plus
    | 42 => .star
    | 37 => .percent
    | 44 => .comma
    | 38 => .and
    | 126 => .tilda
    | 46 => .dot
    | _ => .illegal

def keywords : List Bytes := ["REINDEX", "INDEXED", "INDEX", "DESC", "ESCAPE", "EACH", "CHECK",
  "KEY", "BEFORE", "FOREIGN", "FOR", "IGNORE", "REGEXP", "EXPLAIN", "INSTEAD", "ADD", "DATABASE",
  "AS", "SELECT", "TABLE", "LEFT", "THEN", "END", "DEFERRABLE", "ELSE", "EXCEPT", "TRANSACTION",
  "ACTION", "ON", "NATURAL", "ALTER", "RAISE", "EXCLUSIVE", "EXISTS", "SAVEPOINT", "INTERSECT",
  "TRIGGER", "REFERENCES", "CONSTRAINT", "INTO", "OFFSET", "OF", "SET", "TEMPORARY", "TEMP", "OR",
  "UNIQUE", "QUERY", "WITHOUT", "WITH", "OUTER", "RELEASE", "ATTACH", "HAVING", "GROUP", "UPDATE",
  "BEGIN", "INNER", "RECURSIVE", "BETWEEN", "NOTNULL", "NOT", "NO", "NULL", "LIKE", "CASCADE",
  "ASC", "DELETE", "CASE", "COLLATE", "CREATE", "CURRENT_DATE", "DETACH", "IMMEDIATE", "JOIN",
  "INSERT", "MATCH", "PLAN", "ANALYZE", "PRAGMA", "ABORT", "VALUES", "VIRTUAL", "LIMIT", "WHEN",
  "WHERE", "RENAME", "AFTER", "REPLACE", "AND", "DEFAULT", "AUTOINCREMENT", "TO", "IN", "CAST",
  "COLUMN", "COMMIT", "CONFLICT", "CROSS", "CURRENT_TIMESTAMP", "CURRENT_TIME", "PRIMARY",
  "DEFERRED", "DISTINCT", "IS", "DROP", "FAIL", "FROM", "FULL", "GLOB", "BY", "IF", "ISNULL",
  "ORDER", "RESTRICT", "RIGHT", "ROLLBACK", "ROW", "UNION", "USING", "VACUUM", "VIEW", "INITIALLY",
  "ALL"].map ascii

inductive TokenType where
  | space | illegal | semi | lp | rp | comma | plus | minus | star | slash | rem | eq | ne | lt | le
  | gt | ge | lshift | rshift | bitor | concat | bitand | bitnot | dot
  | string | id | integer | float | variable | blob
  | keyword (word : Bytes)
  deriving DecidableEq, Repr

structure Token where
  type : TokenType
  text : Bytes
  deriving DecidableEq, Repr

def keywordCode (z : Bytes) : TokenType :=
  if z.map toupper ∈ keywords then .keyword (z.map toupper) else .id

def span (p : UInt8 → Bool) (z : Bytes) : ℕ := (z.takeWhile p).length

theorem span_append {p : UInt8 → Bool} {a : Bytes} {b : UInt8} (ha : ∀ c ∈ a, p c = true)
    (hb : p b = false) (rest : Bytes) : span p (a ++ b :: rest) = a.length := by
  rw [span, List.takeWhile_append_of_pos ha, List.takeWhile_cons_of_neg (by simp [hb]),
    List.append_nil]

/-- After `/*`: up to and including the first `*/`, or to the end of the text. -/
def commentEnd : UInt8 → Bytes → ℕ
  | _, [] => 0
  | c, d :: z => if c = 42 ∧ d = 47 then 1 else 1 + commentEnd d z

/-- After the opening quote: up to and including the closing one, a doubled quote
being part of the text. None when the quote is not closed. -/
def quoteEnd (delim : UInt8) : Bytes → Option ℕ
  | [] => none
  | [c] => if c = delim then some 1 else none
  | c :: d :: z =>
    if c = delim then
      if d = delim then (quoteEnd delim z).map (2 + ·) else some 1
    else (quoteEnd delim (d :: z)).map (1 + ·)

/-- The tail of a variable name: whether it has a character at all and whether a
parenthesis stays open, with the length. -/
def variableEnd : ℕ → Bytes → TokenType × ℕ
  | n, [] => (if n = 0 then .illegal else .variable, 0)
  | n, c :: z =>
    if idChar c then
      let r := variableEnd (n + 1) z
      (r.1, 1 + r.2)
    else if c = 40 ∧ 0 < n then
      let m := span (fun d => !isspace d && d ≠ 41) z
      if z[m]? = some 41 then (.variable, m + 2) else (.illegal, m + 1)
    else if c = 58 ∧ z.head? = some 58 then
      match z with
      | [] => (.illegal, 0)
      | _ :: z =>
        let r := variableEnd n z
        (r.1, 2 + r.2)
    else (if n = 0 then .illegal else .variable, 0)

def numberEnd (z : Bytes) : TokenType × ℕ :=
  if z.head? = some 48 ∧ (z[1]? = some 120 ∨ z[1]? = some 88) ∧ (z[2]?.any isXdigit) then
    (.integer, 3 + span isXdigit (z.drop 3))
  else
    let i := span isdigit z
    let (t, i) :=
      if z[i]? = some 46 then (TokenType.float, i + 1 + span isdigit (z.drop (i + 1)))
      else (.integer, i)
    let (t, i) :=
      if (z[i]? = some 101 ∨ z[i]? = some 69) ∧
          (z[i + 1]?.any isdigit ∨
            ((z[i + 1]? = some 43 ∨ z[i + 1]? = some 45) ∧ z[i + 2]?.any isdigit)) then
        (TokenType.float, i + 2 + span isdigit (z.drop (i + 2)))
      else (t, i)
    let m := span idChar (z.drop i)
    (if m = 0 then t else .illegal, i + m)

def blobEnd (z : Bytes) : TokenType × ℕ :=
  let i := 2 + span isXdigit (z.drop 2)
  if z[i]? = some 39 ∧ i % 2 = 0 then (.blob, i + 1)
  else
    let j := i + span (· ≠ 39) (z.drop i)
    (.illegal, if j < z.length then j + 1 else j)

def sqlite3GetToken (z : Bytes) : TokenType × ℕ :=
  match z with
  | [] => (.illegal, 0)
  | c :: rest =>
    let identifier := (TokenType.id, 1 + span idChar rest)
    match aiClass c with
    | .space => (.space, 1 + span isspace rest)
    | .minus =>
      if rest.head? = some 45 then (.space, 2 + span (· ≠ 10) (rest.drop 1)) else (.minus, 1)
    | .lp => (.lp, 1)
    | .rp => (.rp, 1)
    | .semi => (.semi, 1)
    | .plus => (.plus, 1)
    | .star => (.star, 1)
    | .slash =>
      match rest with
      | d :: e :: z => if d = 42 then (.space, 3 + commentEnd e z) else (.slash, 1)
      | _ => (.slash, 1)
    | .percent => (.rem, 1)
    | .eq => (.eq, if rest.head? = some 61 then 2 else 1)
    | .lt =>
      match rest.head? with
      | some 61 => (.le, 2)
      | some 62 => (.ne, 2)
      | some 60 => (.lshift, 2)
      | _ => (.lt, 1)
    | .gt =>
      match rest.head? with
      | some 61 => (.ge, 2)
      | some 62 => (.rshift, 2)
      | _ => (.gt, 1)
    | .bang => if rest.head? = some 61 then (.ne, 2) else (.illegal, 1)
    | .pipe => if rest.head? = some 124 then (.concat, 2) else (.bitor, 1)
    | .comma => (.comma, 1)
    | .and => (.bitand, 1)
    | .tilda => (.bitnot, 1)
    | .quote =>
      match quoteEnd c rest with
      | some n => (if c = 39 then .string else .id, 1 + n)
      | none => (.illegal, z.length)
    | .dot => if rest.head?.any isdigit then numberEnd z else (.dot, 1)
    | .digit => numberEnd z
    | .quote2 =>
      let m := span (· ≠ 93) rest
      if m < rest.length then (.id, m + 2) else (.illegal, z.length)
    | .varnum => (.variable, 1 + span isdigit rest)
    | .dollar | .varalpha =>
      let r := variableEnd 0 rest
      (r.1, 1 + r.2)
    | .kywd =>
      let i := 1 + span (fun d => aiClass d = .x ∨ aiClass d = .kywd) rest
      if (z[i]?.any idChar) then (.id, i + span idChar (z.drop i))
      else (keywordCode (z.take i), i)
    | .x => if rest.head? = some 39 then blobEnd z else identifier
    | .id => identifier
    | .illegal => (.illegal, 1)

/-- The tokens the parser is fed: white space and comments are dropped. -/
def tokens : ℕ → Bytes → List Token
  | 0, _ => []
  | fuel + 1, z =>
    if z = [] then []
    else
      let (type, n) := sqlite3GetToken z
      let rest := tokens fuel (z.drop n)
      if type = .space then rest else ⟨type, z.take n⟩ :: rest

/-- Every token has at least one byte, so a text has no more tokens than bytes. -/
def tokenize (z : Bytes) : List Token := tokens z.length z

theorem numberEnd_pos {z : Bytes} (h : 0 < span isdigit z ∨ z[span isdigit z]? = some 46) :
    0 < (numberEnd z).2 := by
  unfold numberEnd
  split
  · dsimp only
    omega
  · dsimp only
    split
    · split <;> dsimp only <;> omega
    · next hn =>
      have hpos := h.resolve_right hn
      split <;> dsimp only <;> omega

theorem isdigit_of_class {c : UInt8} (h : aiClass c = .digit) : isdigit c = true := by
  unfold aiClass at h
  split_ifs at h with hx hk hi hd
  · exact hd
  · split at h <;> cases h

theorem eq_dot_of_class {c : UInt8} (h : aiClass c = .dot) : c = 46 := by
  unfold aiClass at h
  split_ifs at h
  split at h <;> first | rfl | cases h

/-- No token is empty. -/
theorem sqlite3GetToken_pos (c : UInt8) (rest : Bytes) : 0 < (sqlite3GetToken (c :: rest)).2 := by
  cases hc : aiClass c with
  | digit =>
    simp only [sqlite3GetToken, hc]
    refine numberEnd_pos (.inl ?_)
    simp [span, isdigit_of_class hc]
  | dot =>
    obtain rfl := eq_dot_of_class hc
    simp only [sqlite3GetToken, hc]
    split
    · exact numberEnd_pos (.inr rfl)
    · exact Nat.one_pos
  | x =>
    simp only [sqlite3GetToken, hc]
    split
    · unfold blobEnd
      dsimp only
      split
      · omega
      · dsimp only
        split <;> omega
    · dsimp only
      omega
  | space | varnum | dollar | varalpha | id =>
    simp only [sqlite3GetToken, hc]
    omega
  | slash =>
    simp only [sqlite3GetToken, hc]
    split
    · split <;> dsimp only <;> omega
    · exact Nat.one_pos
  | quote | quote2 =>
    simp only [sqlite3GetToken, hc, List.length_cons]
    split <;> dsimp only <;> omega
  | eq =>
    simp only [sqlite3GetToken, hc]
    split <;> omega
  | minus | lt | gt | bang | pipe | kywd =>
    simp only [sqlite3GetToken, hc]
    split <;> dsimp only <;> omega
  | _ => simp only [sqlite3GetToken, hc, Nat.one_pos]

/-- What a token adds to the list. -/
def keep (type : TokenType) (text : Bytes) : List Token :=
  if type = .space then [] else [⟨type, text⟩]

theorem tokens_cons (fuel : ℕ) (c : UInt8) (rest : Bytes) : tokens (fuel + 1) (c :: rest) =
    keep (sqlite3GetToken (c :: rest)).1 ((c :: rest).take (sqlite3GetToken (c :: rest)).2) ++
      tokens fuel ((c :: rest).drop (sqlite3GetToken (c :: rest)).2) := by
  rw [tokens, if_neg (List.cons_ne_nil c rest)]
  unfold keep
  dsimp only
  split <;> rfl

/-- More fuel than bytes changes nothing. -/
theorem tokens_succ {fuel : ℕ} {z : Bytes} (h : z.length ≤ fuel) :
    tokens (fuel + 1) z = tokens fuel z := by
  induction fuel generalizing z with
  | zero =>
    obtain rfl := List.length_eq_zero_iff.mp (Nat.le_zero.mp h)
    rfl
  | succ n ih =>
    cases z with
    | nil => rfl
    | cons c rest =>
      have hpos := sqlite3GetToken_pos c rest
      have hlen : ((c :: rest).drop (sqlite3GetToken (c :: rest)).2).length ≤ n := by
        rw [List.length_drop]
        omega
      rw [tokens_cons, tokens_cons, ih hlen]

theorem tokens_eq_tokenize {fuel : ℕ} {z : Bytes} (h : z.length ≤ fuel) :
    tokens fuel z = tokenize z := by
  induction fuel, h using Nat.le_induction with
  | base => rfl
  | succ n hle ih => rw [tokens_succ hle, ih]

/-- A first token that ends where `a` does leaves the rest of the text to be read by itself. -/
theorem tokenize_append {a rest : Bytes} {type : TokenType} (ha : a ≠ [])
    (h : sqlite3GetToken (a ++ rest) = (type, a.length)) :
    tokenize (a ++ rest) = keep type a ++ tokenize rest := by
  cases a with
  | nil => exact absurd rfl ha
  | cons c a =>
    have hlen : rest.length ≤ (a ++ rest).length := by simp
    rw [tokenize, List.cons_append, List.length_cons, tokens_cons, ← List.cons_append, h]
    simp only [List.take_left, List.drop_left]
    rw [tokens_eq_tokenize hlen]

theorem tokenize_cons {a rest : Bytes} {type : TokenType} (ha : a ≠ []) (hs : type ≠ .space)
    (h : sqlite3GetToken (a ++ rest) = (type, a.length)) :
    tokenize (a ++ rest) = ⟨type, a⟩ :: tokenize rest := by
  rw [tokenize_append ha h, keep, if_neg hs]
  rfl

/-- A token is the first one of a rest of the text. -/
theorem mem_tokens {fuel : ℕ} {z : Bytes} {t : Token} (h : t ∈ tokens fuel z) :
    ∃ w, w <:+ z ∧ t = ⟨(sqlite3GetToken w).1, w.take (sqlite3GetToken w).2⟩ := by
  induction fuel generalizing z with
  | zero => cases h
  | succ n ih =>
    cases z with
    | nil => cases h
    | cons c rest =>
      rw [tokens_cons, List.mem_append] at h
      rcases h with h | h
      · refine ⟨c :: rest, List.suffix_refl _, ?_⟩
        unfold keep at h
        split at h
        · cases h
        · exact List.mem_singleton.mp h
      · obtain ⟨w, hw, ht⟩ := ih h
        exact ⟨w, hw.trans (List.drop_suffix _ _), ht⟩

theorem mem_text {fuel : ℕ} {z : Bytes} {t : Token} (h : t ∈ tokens fuel z) :
    ∀ b ∈ t.text, b ∈ z := by
  obtain ⟨w, hw, rfl⟩ := mem_tokens h
  exact fun b hb => hw.subset (List.mem_of_mem_take hb)

/-- A bracketed name ends at its first closing bracket. -/
theorem bracket_text {fuel : ℕ} {z body : Bytes} (h : ⟨.id, 91 :: (body ++ [93])⟩ ∈ tokens fuel z) :
    93 ∉ body := by
  obtain ⟨w, -, ht⟩ := mem_tokens h
  rw [Token.mk.injEq] at ht
  obtain ⟨hty, htx⟩ := ht
  cases w with
  | nil => simp at htx
  | cons c rest =>
    have hpos := sqlite3GetToken_pos c rest
    obtain ⟨n, hn⟩ := Nat.exists_eq_add_one.mpr hpos
    rw [hn, List.take_succ_cons, List.cons.injEq] at htx
    obtain ⟨rfl, htx⟩ := htx
    have hq : sqlite3GetToken (91 :: rest) = if span (· ≠ 93) rest < rest.length then
        (.id, span (· ≠ 93) rest + 2) else (.illegal, rest.length + 1) := rfl
    rw [hq] at hty hn
    split at hty
    · next hlt =>
      rw [if_pos hlt] at hn
      obtain rfl : n = span (· ≠ 93) rest + 1 := (Nat.succ.inj hn).symm
      have hlen : body.length = span (· ≠ 93) rest := by
        have h := congrArg List.length htx
        rw [List.length_append, List.length_take, List.length_singleton] at h
        omega
      have hbody : body = rest.takeWhile (· ≠ 93) := by
        have h := congrArg (List.take (span (· ≠ 93) rest)) htx
        rw [← hlen, List.take_left, hlen, List.take_take, Nat.min_eq_left (Nat.le_succ _)] at h
        rw [h]
        exact (List.prefix_iff_eq_take.mp (List.takeWhile_prefix _)).symm
      rw [hbody]
      intro hm
      simpa using List.mem_takeWhile_imp hm
    · cases hty

example : (tokenize (ascii "/* a */ bEgin -- x")).map Token.type =
    [.keyword (ascii "BEGIN")] := by decide

end SqliteTokens
