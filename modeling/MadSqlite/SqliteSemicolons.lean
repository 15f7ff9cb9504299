import MadSqlite.SqliteTokens

/-! # Tokens before a semicolon

`sqlite3GetToken` looks some bytes ahead, but not beyond a semicolon that is not itself in the
token. So a text that ends with a semicolon is read in the same way whatever comes after it,
unless a quote, a comment or a name is open at its end. -/
namespace SqliteSemicolons

open CppStrings SqliteTokens

variable {a b : Bytes} {p : UInt8 → Bool}

section Reading

theorem getElem?_before {k : ℕ} (hk : k ≤ a.length) : (a ++ 59 :: b)[k]? = (a ++ [59])[k]? := by
  rcases hk.lt_or_eq with hlt | rfl
  · rw [List.getElem?_append_left hlt, List.getElem?_append_left hlt]
  · rw [List.getElem?_append_right le_rfl, List.getElem?_append_right le_rfl, Nat.sub_self]
    rfl

theorem head?_before (a b : Bytes) : (a ++ 59 :: b).head? = (a ++ [59]).head? := by
  cases a <;> rfl

theorem span_before (h : span p (a ++ [59]) ≤ a.length) :
    span p (a ++ 59 :: b) = span p (a ++ [59]) := by
  induction a with
  | nil =>
    have hp : p 59 = false := by
      by_contra hp
      simp [span, hp] at h
    simp [span, hp]
  | cons c a ih =>
    cases hc : p c with
    | false => simp [span, hc]
    | true =>
      have hle : span p (a ++ [59]) ≤ a.length := by simpa [span, hc] using h
      simpa [span, hc] using ih hle

theorem span_stops (hp : p 59 = false) (a : Bytes) : span p (a ++ [59]) ≤ a.length := by
  induction a with
  | nil => simp [span, hp]
  | cons c a ih =>
    cases hc : p c with
    | false => simp [span, hc]
    | true => simpa [span, hc] using ih

theorem drop_before {i : ℕ} (hi : i ≤ a.length) (b : Bytes) :
    (a ++ 59 :: b).drop i = a.drop i ++ 59 :: b := List.drop_append_of_le_length hi

theorem span_drop_before {i : ℕ} (hi : i ≤ a.length)
    (h : i + span p ((a ++ [59]).drop i) ≤ a.length) :
    span p ((a ++ 59 :: b).drop i) = span p ((a ++ [59]).drop i) := by
  rw [drop_before hi] at h ⊢
  rw [drop_before hi]
  refine span_before ?_
  rw [List.length_drop]
  omega

theorem span_drop_stops {i : ℕ} (hp : p 59 = false) (hi : i ≤ a.length) :
    i + span p ((a ++ [59]).drop i) ≤ a.length := by
  have h := span_stops hp (a.drop i)
  rw [List.length_drop] at h
  rw [drop_before hi]
  omega

end Reading

theorem commentEnd_before {c : UInt8} (h : commentEnd c (a ++ [59]) ≤ a.length) :
    commentEnd c (a ++ 59 :: b) = commentEnd c (a ++ [59]) := by
  induction a generalizing c with
  | nil => simp [commentEnd] at h
  | cons d a ih =>
    simp only [List.cons_append, commentEnd, List.length_cons] at h ⊢
    by_cases hc : c = 42 ∧ d = 47
    · rw [if_pos hc, if_pos hc]
    · rw [if_neg hc] at h ⊢
      rw [if_neg hc, ih (by omega)]

theorem quoteEnd_before {delim : UInt8} {n : ℕ} (hd : delim ≠ 59)
    (h : quoteEnd delim (a ++ [59]) = some n) : quoteEnd delim (a ++ 59 :: b) = some n := by
  induction hn : a.length using Nat.strong_induction_on generalizing a n with
  | _ len ih =>
    match a with
    | [] => simp [quoteEnd, hd.symm] at h
    | [c] =>
      by_cases hc : c = delim
      · simpa [quoteEnd, hc, hd.symm] using h
      · simp [quoteEnd, hc, hd.symm] at h
    | c :: d :: a =>
      simp only [List.cons_append, quoteEnd] at h ⊢
      by_cases hc : c = delim
      · by_cases hcd : d = delim
        · rw [if_pos hc, if_pos hcd, Option.map_eq_some_iff] at h ⊢
          obtain ⟨m, hm, rfl⟩ := h
          exact ⟨m, ih a.length (by simp at hn; omega) hm rfl, rfl⟩
        · rwa [if_pos hc, if_neg hcd] at h ⊢
      · rw [if_neg hc, Option.map_eq_some_iff] at h ⊢
        obtain ⟨m, hm, rfl⟩ := h
        exact ⟨m, ih (d :: a).length (by simp at hn ⊢; omega) hm rfl, rfl⟩

/-- The bytes of a name of a Tcl variable in parentheses. -/
def parenthesised (d : UInt8) : Bool := !isspace d && d ≠ 41

theorem variableEnd_cons (n : ℕ) (c : UInt8) (z : Bytes) : variableEnd n (c :: z) =
    if idChar c then ((variableEnd (n + 1) z).1, 1 + (variableEnd (n + 1) z).2)
    else if c = 40 ∧ 0 < n then
      if z[span parenthesised z]? = some 41 then (.variable, span parenthesised z + 2)
      else (.illegal, span parenthesised z + 1)
    else if c = 58 ∧ z.head? = some 58 then
      ((variableEnd n z.tail).1, 2 + (variableEnd n z.tail).2)
    else (if n = 0 then .illegal else .variable, 0) := by
  rw [variableEnd.eq_def]
  cases z with
  | nil => simp [span]
  | cons d z => rfl

theorem variableEnd_before {n : ℕ} (h : (variableEnd n (a ++ [59])).2 ≤ a.length) :
    variableEnd n (a ++ 59 :: b) = variableEnd n (a ++ [59]) := by
  induction hn : a.length using Nat.strong_induction_on generalizing a n with
  | _ len ih =>
    cases a with
    | nil =>
      rw [List.nil_append, List.nil_append, variableEnd_cons, variableEnd_cons]
      simp [idChar, isAlpha, isdigit]
    | cons c a =>
      rw [List.cons_append, variableEnd_cons] at h ⊢
      rw [List.cons_append, variableEnd_cons, head?_before]
      rw [List.length_cons] at h hn
      by_cases hid : idChar c = true
      · simp only [if_pos hid] at h ⊢
        rw [ih a.length (by omega) (by omega) rfl]
      · by_cases hopen : c = 40 ∧ 0 < n
        · simp only [if_neg hid, if_pos hopen] at h ⊢
          have hle : span parenthesised (a ++ [59]) ≤ a.length := by
            split at h <;> dsimp only at h <;> omega
          rw [span_before hle, getElem?_before hle]
        · by_cases hcolon : c = 58 ∧ (a ++ [59]).head? = some 58
          · simp only [if_neg hid, if_neg hopen, if_pos hcolon] at h ⊢
            cases a with
            | nil => simp at hcolon
            | cons d a =>
              simp only [List.cons_append, List.tail_cons, List.length_cons] at h hn ⊢
              rw [ih a.length (by omega) (by omega) rfl]
          · simp only [if_neg hid, if_neg hopen, if_neg hcolon]

section Numbers

theorem lt_of_any {k : ℕ} (hk : k ≤ a.length) (h : (a ++ [59])[k]?.any p = true)
    (hp : p 59 = false) : k < a.length := by
  refine hk.lt_of_ne ?_
  rintro rfl
  rw [List.getElem?_append_right le_rfl, Nat.sub_self] at h
  exact Bool.false_ne_true (hp.symm.trans h)

theorem lt_of_getElem? {k : ℕ} {c : UInt8} (hk : k ≤ a.length)
    (h : (a ++ [59])[k]? = some c) (hc : c ≠ 59) : k < a.length :=
  lt_of_any (p := (· == c)) hk (by simp [h]) (by simpa using hc.symm)

/-- The start of a number in hexadecimal digits. -/
abbrev IsHex (z : Bytes) : Prop :=
  z.head? = some 48 ∧ (z[1]? = some 120 ∨ z[1]? = some 88) ∧ z[2]?.any isXdigit

/-- A number up to its exponent. -/
def mantissaEnd (z : Bytes) : TokenType × ℕ :=
  let i := span isdigit z
  if z[i]? = some 46 then (.float, i + 1 + span isdigit (z.drop (i + 1))) else (.integer, i)

abbrev HasExponent (z : Bytes) (i : ℕ) : Prop :=
  (z[i]? = some 101 ∨ z[i]? = some 69) ∧
    (z[i + 1]?.any isdigit ∨
      ((z[i + 1]? = some 43 ∨ z[i + 1]? = some 45) ∧ z[i + 2]?.any isdigit))

/-- A number with its exponent, if it has one. -/
def exponentEnd (z : Bytes) (r : TokenType × ℕ) : TokenType × ℕ :=
  if HasExponent z r.2 then (.float, r.2 + 2 + span isdigit (z.drop (r.2 + 2))) else r

theorem numberEnd_eq (z : Bytes) : numberEnd z =
    if IsHex z then (.integer, 3 + span isXdigit (z.drop 3))
    else
      let r := exponentEnd z (mantissaEnd z)
      (if span idChar (z.drop r.2) = 0 then r.1 else .illegal,
        r.2 + span idChar (z.drop r.2)) := rfl

theorem isHex_before (a b : Bytes) : IsHex (a ++ 59 :: b) ↔ IsHex (a ++ [59]) := by
  rw [IsHex, IsHex, head?_before]
  refine and_congr_right fun h0 => ?_
  rw [List.head?_eq_getElem?] at h0
  have h1 := lt_of_getElem? (Nat.zero_le _) h0 (by decide)
  rw [getElem?_before h1]
  refine and_congr_right fun hx => ?_
  have h2 : 1 < a.length := hx.elim (lt_of_getElem? h1 · (by decide))
    (lt_of_getElem? h1 · (by decide))
  rw [getElem?_before h2]

theorem hasExponent_before {i : ℕ} (hi : i ≤ a.length) :
    HasExponent (a ++ 59 :: b) i ↔ HasExponent (a ++ [59]) i := by
  rw [HasExponent, HasExponent, getElem?_before hi]
  refine and_congr_right fun he => ?_
  have h1 : i < a.length := he.elim (lt_of_getElem? hi · (by decide))
    (lt_of_getElem? hi · (by decide))
  rw [getElem?_before h1]
  refine or_congr_right (and_congr_right fun hs => ?_)
  have h2 : i + 1 < a.length := hs.elim (lt_of_getElem? h1 · (by decide))
    (lt_of_getElem? h1 · (by decide))
  rw [getElem?_before h2]

theorem mantissaEnd_before (a b : Bytes) :
    mantissaEnd (a ++ 59 :: b) = mantissaEnd (a ++ [59]) ∧
      (mantissaEnd (a ++ [59])).2 ≤ a.length := by
  have hi : span isdigit (a ++ [59]) ≤ a.length := span_stops rfl a
  simp only [mantissaEnd, span_before hi, getElem?_before hi]
  by_cases hdot : (a ++ [59])[span isdigit (a ++ [59])]? = some 46
  · have hlt := lt_of_getElem? hi hdot (by decide)
    have hend := span_drop_stops (p := isdigit) rfl hlt
    simp only [if_pos hdot]
    exact ⟨by rw [span_drop_before hlt hend], hend⟩
  · simp only [if_neg hdot]
    exact ⟨trivial, hi⟩

theorem exponentEnd_before {r : TokenType × ℕ} (hr : r.2 ≤ a.length) :
    exponentEnd (a ++ 59 :: b) r = exponentEnd (a ++ [59]) r ∧
      (exponentEnd (a ++ [59]) r).2 ≤ a.length := by
  unfold exponentEnd
  rw [if_congr (hasExponent_before hr) rfl rfl]
  by_cases he : HasExponent (a ++ [59]) r.2
  · have hlt : r.2 < a.length := he.1.elim (lt_of_getElem? hr · (by decide))
      (lt_of_getElem? hr · (by decide))
    have hlt2 : r.2 + 1 < a.length := by
      rcases he.2 with hd | hs
      · exact lt_of_any hlt hd rfl
      · exact hs.1.elim (lt_of_getElem? hlt · (by decide)) (lt_of_getElem? hlt · (by decide))
    have hend := span_drop_stops (p := isdigit) rfl hlt2
    simp only [if_pos he]
    exact ⟨by rw [span_drop_before hlt2 hend], hend⟩
  · simp only [if_neg he]
    exact ⟨trivial, hr⟩

/-- A number never goes on past a semicolon. -/
theorem numberEnd_before (a b : Bytes) : numberEnd (a ++ 59 :: b) = numberEnd (a ++ [59]) := by
  rw [numberEnd_eq, numberEnd_eq, if_congr (isHex_before a b) rfl rfl]
  by_cases hx : IsHex (a ++ [59])
  · have h0 := lt_of_getElem? (Nat.zero_le _) (List.head?_eq_getElem? ▸ hx.1) (by decide)
    have h1 : 1 < a.length := hx.2.1.elim (lt_of_getElem? h0 · (by decide))
      (lt_of_getElem? h0 · (by decide))
    have h2 : 2 < a.length := lt_of_any h1 hx.2.2 rfl
    rw [if_pos hx, if_pos hx, span_drop_before h2 (span_drop_stops rfl h2)]
  · obtain ⟨hm, hmle⟩ := mantissaEnd_before a b
    obtain ⟨he, hele⟩ := exponentEnd_before (b := b) hmle
    simp only [if_neg hx, hm, he]
    rw [span_drop_before hele (span_drop_stops rfl hele)]

end Numbers

theorem blobEnd_before (ha : 2 ≤ a.length) (h : (blobEnd (a ++ [59])).2 ≤ a.length) :
    blobEnd (a ++ 59 :: b) = blobEnd (a ++ [59]) := by
  have hi := span_drop_stops (p := isXdigit) rfl ha
  unfold blobEnd at h ⊢
  simp only [span_drop_before ha hi, getElem?_before hi] at h ⊢
  generalize 2 + span isXdigit ((a ++ [59]).drop 2) = i at hi h ⊢
  by_cases hq : (a ++ [59])[i]? = some 39 ∧ i % 2 = 0
  · rw [if_pos hq, if_pos hq]
  · rw [if_neg hq] at h ⊢
    rw [if_neg hq]
    have hj : i + span (· ≠ 39) ((a ++ [59]).drop i) ≤ a.length := by
      dsimp only at h
      split at h <;> omega
    have hlt (z : Bytes) : i + span (· ≠ 39) ((a ++ [59]).drop i) < (a ++ 59 :: z).length := by
      rw [List.length_append, List.length_cons]
      omega
    rw [span_drop_before hi hj, if_pos (hlt b), if_pos (hlt [])]

/-- A token that ends before the semicolon is the same whatever comes after the semicolon. -/
theorem getToken_before (ha : a ≠ []) (h : (sqlite3GetToken (a ++ [59])).2 ≤ a.length) :
    sqlite3GetToken (a ++ 59 :: b) = sqlite3GetToken (a ++ [59]) := by
  cases a with
  | nil => exact absurd rfl ha
  | cons c a =>
    cases hc : aiClass c with
    | minus =>
      simp only [List.cons_append, sqlite3GetToken, hc, head?_before] at h ⊢
      by_cases hm : (a ++ [59]).head? = some 45
      · rw [if_pos hm] at h ⊢
        rw [if_pos hm]
        cases a with
        | nil => simp at hm
        | cons d a =>
          simp only [List.cons_append, List.drop_one, List.tail_cons, List.length_cons] at h ⊢
          rw [span_before (by omega)]
      · simp only [if_neg hm]
    | slash =>
      simp only [List.cons_append, sqlite3GetToken, hc] at h ⊢
      rcases a with _ | ⟨d, _ | ⟨e, a⟩⟩
      · cases b <;> rfl
      · by_cases hd : d = 42
        · simp [hd, commentEnd] at h
        · simp [hd]
      · by_cases hd : d = 42
        · simp only [List.cons_append, if_pos hd, List.length_cons] at h ⊢
          rw [commentEnd_before (by omega)]
        · simp only [List.cons_append, if_neg hd]
    | quote =>
      have hne : c ≠ 59 := by
        rintro rfl
        cases hc
      simp only [List.cons_append, sqlite3GetToken, hc] at h ⊢
      cases hq : quoteEnd c (a ++ [59]) with
      | none =>
        rw [hq] at h
        simp at h
      | some n => rw [quoteEnd_before hne hq]
    | quote2 =>
      simp only [List.cons_append, sqlite3GetToken, hc] at h ⊢
      have hle : span (· ≠ 93) (a ++ [59]) ≤ a.length := by
        split at h
        · simp only [List.length_cons] at h
          omega
        · simp at h
      have hlt (z : Bytes) : span (· ≠ 93) (a ++ [59]) < (a ++ 59 :: z).length := by
        rw [List.length_append, List.length_cons]
        omega
      rw [span_before hle, if_pos (hlt b), if_pos (hlt [])]
    | digit =>
      simp only [List.cons_append, sqlite3GetToken, hc]
      exact numberEnd_before (c :: a) b
    | dot =>
      simp only [List.cons_append, sqlite3GetToken, hc, head?_before]
      split
      · exact numberEnd_before (c :: a) b
      · rfl
    | dollar | varalpha =>
      simp only [List.cons_append, sqlite3GetToken, hc, List.length_cons] at h ⊢
      rw [variableEnd_before (by omega)]
    | kywd =>
      simp only [List.cons_append, sqlite3GetToken, hc]
      rw [span_before (span_stops rfl a)]
      obtain ⟨i, hi, hle⟩ : ∃ i, 1 + span (fun d => aiClass d = .x ∨ aiClass d = .kywd)
          (a ++ [59]) = i ∧ i ≤ (c :: a).length := by
        have hle := span_stops (p := fun d => aiClass d = .x ∨ aiClass d = .kywd) rfl a
        exact ⟨_, rfl, by rw [List.length_cons]; omega⟩
      have hget := getElem?_before (b := b) hle
      have hspan := span_drop_before (b := b) hle (span_drop_stops (p := idChar) rfl hle)
      have htake (z : Bytes) : (c :: (a ++ z)).take i = (c :: a).take i :=
        List.take_append_of_le_length hle
      rw [List.cons_append, List.cons_append] at hget hspan
      rw [hi, hget, hspan, htake, htake]
    | x =>
      simp only [List.cons_append, sqlite3GetToken, hc, head?_before] at h ⊢
      by_cases hq : (a ++ [59]).head? = some 39
      · rw [if_pos hq] at h ⊢
        rw [if_pos hq]
        cases a with
        | nil => simp at hq
        | cons d a => exact blobEnd_before (a := c :: d :: a) (by simp) h
      · rw [if_neg hq, if_neg hq, span_before (span_stops rfl a)]
    | space | varnum | id =>
      simp only [List.cons_append, sqlite3GetToken, hc]
      rw [span_before (span_stops rfl a)]
    | eq | lt | gt | bang | pipe =>
      simp only [List.cons_append, sqlite3GetToken, hc, head?_before]
    | _ => simp only [List.cons_append, sqlite3GetToken, hc]

/-- The rests of a text that start with a token, with white space and comments as tokens. -/
def tokenStarts : ℕ → Bytes → List Bytes
  | 0, _ => []
  | fuel + 1, z => if z = [] then [] else z :: tokenStarts fuel (z.drop (sqlite3GetToken z).2)

/-- A semicolon after the text is a token by itself: no quote, comment or name is open. -/
def Closed (a : Bytes) : Prop := [59] ∈ tokenStarts (a.length + 1) (a ++ [59])

instance : DecidablePred Closed := fun _ => inferInstanceAs (Decidable (_ ∈ _))

abbrev semi : Token := ⟨.semi, [59]⟩

theorem tokenStarts_nil (fuel : ℕ) : tokenStarts fuel [] = [] := by
  cases fuel <;> rfl

theorem tokenize_of_starts {fuel : ℕ} (h : [59] ∈ tokenStarts fuel (a ++ [59])) :
    ∃ ts, ∀ b, tokenize (a ++ 59 :: b) = ts ++ semi :: tokenize b := by
  induction fuel generalizing a with
  | zero => cases h
  | succ fuel ih =>
    by_cases ha : a = []
    · subst ha
      exact ⟨[], fun b => tokenize_cons (a := [59]) (List.cons_ne_nil _ _) (by decide) rfl⟩
    · obtain ⟨c, w, rfl⟩ := List.exists_cons_of_ne_nil ha
      have hpos : 0 < (sqlite3GetToken (c :: w ++ [59])).2 := by
        rw [List.cons_append]
        exact sqlite3GetToken_pos c (w ++ [59])
      rw [tokenStarts, if_neg (by simp), List.mem_cons] at h
      replace h := h.resolve_left (by simp)
      by_cases hle : (sqlite3GetToken (c :: w ++ [59])).2 ≤ (c :: w).length
      · rw [List.drop_append_of_le_length hle] at h
        obtain ⟨ts, hts⟩ := ih h
        refine ⟨keep (sqlite3GetToken (c :: w ++ [59])).1
          ((c :: w).take (sqlite3GetToken (c :: w ++ [59])).2) ++ ts, fun b => ?_⟩
        have htoken := getToken_before (b := b) ha hle
        generalize sqlite3GetToken (c :: w ++ [59]) = r at hpos hle hts htoken ⊢
        have hsplit : c :: w ++ 59 :: b =
            (c :: w).take r.2 ++ ((c :: w).drop r.2 ++ 59 :: b) := by
          rw [← List.append_assoc, List.take_append_drop]
        have hlen : ((c :: w).take r.2).length = r.2 := List.length_take_of_le hle
        rw [hsplit] at htoken ⊢
        rw [tokenize_append (by rw [← List.length_pos_iff, hlen]; exact hpos)
          (htoken.trans (Prod.ext rfl hlen.symm)), hts, List.append_assoc]
      · have hend : (c :: w ++ [59]).length ≤ (sqlite3GetToken (c :: w ++ [59])).2 := by
          rw [List.length_append, List.length_singleton]
          omega
        rw [List.drop_eq_nil_of_le hend, tokenStarts_nil] at h
        cases h

theorem tokenize_closed (h : Closed a) : ∃ ts, ∀ b,
    tokenize (a ++ 59 :: b) = ts ++ semi :: tokenize b := tokenize_of_starts h

end SqliteSemicolons
