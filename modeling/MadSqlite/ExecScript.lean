import MadSqlite.SqliteSemicolons
import MadSqlite.ExecFilter

/-! # Scripts

A text for exec may hold several commands. Cut at its semicolons it can be given to exec piece
by piece, with the same result. -/
namespace ExecScript

open CppStrings SqliteTokens SqliteCommands SqliteSemicolons SqliteConnection SqliteExec
open MadDatabase ExecFilter

variable {σ : Type*} {a : Bytes}

section Control

/-- The last token is a semicolon. -/
def Ends (ts : List Token) : Prop := ts.getLast? = some semi

theorem Ends.tail {t n : Token} {ts : List Token} (h : Ends (t :: n :: ts)) : Ends (n :: ts) := by
  simpa [Ends] using h

theorem Ends.eq_semi {t : Token} (h : Ends [t]) : t = semi := by simpa [Ends] using h

theorem Ends.after {t : Token} {ts : List Token} (h : Ends (t :: ts)) (ht : t.type ≠ .semi) :
    Ends ts := by
  cases ts with
  | nil => exact absurd (congrArg Token.type h.eq_semi) ht
  | cons n ts => exact h.tail

theorem ne_semi_of_name {t : Token} (h : isName t = true) : t.type ≠ .semi := by
  intro ht
  simp [isName, ht] at h

theorem Ends.suffix {ts rest : List Token} (h : Ends ts) (hs : rest <:+ ts) :
    rest = [] ∨ Ends rest := by
  obtain ⟨w, rfl⟩ := hs
  cases rest with
  | nil => exact .inl rfl
  | cons t rest =>
    refine .inr ?_
    rw [Ends, List.getLast?_append] at h
    simpa [Ends, List.getLast?_cons] using h

theorem commandEnd_append {ts : List Token} (h : Ends ts) (us : List Token) :
    commandEnd (ts ++ us) = (commandEnd ts).map (· ++ us) := by
  cases ts with
  | nil => cases h
  | cons t ts =>
    rw [List.cons_append, commandEnd, commandEnd]
    split <;> rfl

theorem transOpt_append {ts : List Token} (h : Ends ts) (us : List Token) :
    transOpt (ts ++ us) = transOpt ts ++ us ∧ Ends (transOpt ts) := by
  match ts with
  | [] => cases h
  | [t] =>
    obtain rfl := h.eq_semi
    exact ⟨rfl, rfl⟩
  | t :: n :: ts =>
    simp only [List.cons_append, transOpt]
    split
    · split
      · next hn => exact ⟨rfl, h.tail.after (ne_semi_of_name hn)⟩
      · exact ⟨rfl, h.tail⟩
    · exact ⟨rfl, h⟩

theorem savepointOpt_append {ts : List Token} (h : Ends ts) (us : List Token) :
    savepointOpt (ts ++ us) = savepointOpt ts ++ us ∧ Ends (savepointOpt ts) := by
  match ts with
  | [] => cases h
  | [t] =>
    obtain rfl := h.eq_semi
    exact ⟨rfl, rfl⟩
  | t :: n :: ts =>
    simp only [List.cons_append, savepointOpt]
    split
    · exact ⟨rfl, h.tail⟩
    · exact ⟨rfl, h⟩

theorem transType_append {ts : List Token} (h : Ends ts) (us : List Token) :
    transType (ts ++ us) = ((transType ts).1, (transType ts).2 ++ us) ∧
      Ends (transType ts).2 := by
  match ts with
  | [] => cases h
  | [t] =>
    obtain rfl := h.eq_semi
    exact ⟨rfl, rfl⟩
  | t :: n :: ts =>
    simp only [List.cons_append, transType]
    split
    · exact ⟨rfl, h.tail⟩
    · split
      · exact ⟨rfl, h.tail⟩
      · split
        · exact ⟨rfl, h.tail⟩
        · exact ⟨rfl, h⟩

theorem nameEnd_append {ts : List Token} (h : Ends ts) (us : List Token) :
    nameEnd (ts ++ us) = (nameEnd ts).map fun r => (r.1, r.2 ++ us) := by
  cases ts with
  | nil => cases h
  | cons n ts =>
    simp only [List.cons_append, nameEnd]
    split
    · next hn =>
      rw [commandEnd_append (h.after (ne_semi_of_name hn)), Option.map_map, Option.map_map]
      rfl
    · rfl

/-- What comes after the semicolon has no say in a command of transaction control. -/
theorem parseControl_append {ts : List Token} (h : Ends ts) (us : List Token) :
    parseControl (ts ++ us) = (parseControl ts).map fun r => (r.1, r.2 ++ us) := by
  match ts with
  | [] => cases h
  | [t] =>
    obtain rfl := h.eq_semi
    rfl
  | t :: n :: ts =>
    have h := h.tail
    simp only [List.cons_append, parseControl]
    rw [← List.cons_append]
    obtain ⟨htype, hafter⟩ := transType_append h us
    split
    · rw [htype]
      dsimp only
      obtain ⟨hopt, hend⟩ := transOpt_append hafter us
      rw [hopt, commandEnd_append hend, Option.map_map, Option.map_map]
      rfl
    · obtain ⟨hopt, hend⟩ := transOpt_append h us
      split
      · rw [hopt, commandEnd_append hend, Option.map_map, Option.map_map]
        rfl
      · split
        · rw [hopt]
          cases hu : transOpt (n :: ts) with
          | nil =>
            rw [hu] at hend
            cases hend
          | cons u us' =>
            rw [hu] at hend
            simp only [List.cons_append]
            split
            · next hto =>
              have hne : u.type ≠ .semi := by simp [hto, kw]
              obtain ⟨hsp, hname⟩ := savepointOpt_append (hend.after hne) us
              rw [hsp, nameEnd_append hname, Option.map_map, Option.map_map]
              rfl
            · rw [← List.cons_append, commandEnd_append hend, Option.map_map, Option.map_map]
              rfl
        · split
          · rw [nameEnd_append h, Option.map_map, Option.map_map]
            rfl
          · split
            · obtain ⟨hsp, hname⟩ := savepointOpt_append h us
              rw [hsp, nameEnd_append hname, Option.map_map, Option.map_map]
              rfl
            · rfl

theorem commandEnd_suffix {ts rest : List Token} (h : commandEnd ts = some rest) :
    rest <:+ ts := by
  cases ts with
  | nil =>
    cases h
    exact List.suffix_refl _
  | cons t ts =>
    rw [commandEnd] at h
    split at h
    · cases h
      exact List.suffix_cons t rest
    · cases h

theorem transOpt_suffix (ts : List Token) : transOpt ts <:+ ts := by
  cases ts with
  | nil => exact List.suffix_refl _
  | cons t ts =>
    rw [transOpt.eq_def]
    dsimp only
    split
    · split
      · split
        · exact (List.suffix_cons _ _).trans (List.suffix_cons _ _)
        · exact List.suffix_cons _ _
      · exact List.suffix_cons _ _
    · exact List.suffix_refl _

theorem transType_suffix (ts : List Token) : (transType ts).2 <:+ ts := by
  cases ts with
  | nil => exact List.suffix_refl _
  | cons t ts =>
    rw [transType]
    split_ifs
    · exact List.suffix_cons t ts
    · exact List.suffix_cons t ts
    · exact List.suffix_cons t ts
    · exact List.suffix_refl _

theorem savepointOpt_suffix (ts : List Token) : savepointOpt ts <:+ ts := by
  cases ts with
  | nil => exact List.suffix_refl _
  | cons t ts =>
    rw [savepointOpt]
    split_ifs
    · exact List.suffix_cons t ts
    · exact List.suffix_refl _

theorem nameEnd_suffix {ts rest : List Token} {name : Bytes}
    (h : nameEnd ts = some (name, rest)) : rest <:+ ts := by
  cases ts with
  | nil => cases h
  | cons n ts =>
    rw [nameEnd] at h
    split at h
    · obtain ⟨r, hr, he⟩ := Option.map_eq_some_iff.mp h
      cases he
      exact (commandEnd_suffix hr).trans (List.suffix_cons n ts)
    · cases h

theorem parseControl_suffix {t : Token} {ts rest : List Token} {c : TransactionControl}
    (h : parseControl (t :: ts) = some (c, rest)) : rest <:+ ts := by
  have hend {us : List Token} {c' : TransactionControl} (hus : us <:+ ts)
      (h : (commandEnd us).map (fun r => (c', r)) = some (c, rest)) : rest <:+ ts := by
    obtain ⟨r, hr, he⟩ := Option.map_eq_some_iff.mp h
    cases he
    exact (commandEnd_suffix hr).trans hus
  have hname {us : List Token} {f : Bytes → TransactionControl} (hus : us <:+ ts)
      (h : (nameEnd us).map (fun p => (f p.1, p.2)) = some (c, rest)) : rest <:+ ts := by
    obtain ⟨r, hr, he⟩ := Option.map_eq_some_iff.mp h
    cases he
    exact (nameEnd_suffix hr).trans hus
  have hopt := transOpt_suffix ts
  rw [parseControl] at h
  dsimp only at h
  split at h
  · exact hend ((transOpt_suffix _).trans (transType_suffix ts)) h
  · split at h
    · exact hend hopt h
    · split at h
      · split at h
        · next u us hu =>
          rw [hu] at hopt
          split at h
          · exact hname (((savepointOpt_suffix us).trans (List.suffix_cons u us)).trans hopt) h
          · exact hend hopt h
        · cases h
          exact List.nil_suffix
      · split at h
        · exact hname (List.suffix_refl ts) h
        · split at h
          · exact hname (savepointOpt_suffix ts) h
          · cases h

end Control

section Scripts

variable {g : Grammar}

/-- The parser reads from left to right, and is done with a command at its semicolon. -/
structure LeftToRight (g : Grammar) : Prop where
  suffix : ∀ ts rest, g.command ts = some rest → rest <:+ ts
  goesOn : ∀ ts rest us, Ends ts → g.command ts = some rest →
    g.command (ts ++ us) = some (rest ++ us)

def allCommands (g : Grammar) (ts : List Token) : List Command := commands g ts.length ts

theorem commands_semi {t : Token} (ht : t.type = .semi) (fuel : ℕ) (ts : List Token) :
    commands g (fuel + 1) (t :: ts) = commands g (fuel + 1) ts := by
  rw [commands, commands, List.dropWhile_cons_of_pos (by simp [ht])]

theorem commands_cons {t : Token} (ht : t.type ≠ .semi) (fuel : ℕ) (ts : List Token) :
    commands g (fuel + 1) (t :: ts) =
      if t.type ∈ controlWords then
        (parseControl (t :: ts)).elim [.syntaxError] fun r =>
          .control r.1 :: commands g fuel r.2
      else
        (g.command (t :: ts)).elim [.syntaxError] fun rest =>
          .other ((t :: ts).take (ts.length + 1 - rest.length)) :: commands g fuel rest := by
  rw [commands, List.dropWhile_cons_of_neg (by simp [ht])]
  dsimp only
  split
  · cases parseControl (t :: ts) <;> rfl
  · cases g.command (t :: ts) <;> rfl

/-- More fuel than tokens changes nothing. -/
theorem commands_succ {fuel : ℕ} {ts : List Token} (h : ts.length ≤ fuel) :
    commands g (fuel + 1) ts = commands g fuel ts := by
  induction fuel generalizing ts with
  | zero =>
    obtain rfl := List.length_eq_zero_iff.mp (Nat.le_zero.mp h)
    rfl
  | succ n ih =>
    induction ts with
    | nil => rfl
    | cons t ts iht =>
      rw [List.length_cons] at h
      by_cases ht : t.type = .semi
      · rw [commands_semi ht, commands_semi ht, iht (by omega)]
      · rw [commands_cons ht, commands_cons ht]
        split
        · cases hp : parseControl (t :: ts) with
          | none => rfl
          | some r =>
            have hle := (parseControl_suffix (c := r.1) hp).length_le
            simp only [Option.elim_some, ih (hle.trans (by omega))]
        · cases hp : g.command (t :: ts) with
          | none => rfl
          | some rest =>
            have hlt := g.shorter _ _ hp
            rw [List.length_cons] at hlt
            simp only [Option.elim_some, @ih rest (by omega)]

theorem commands_eq_all {fuel : ℕ} {ts : List Token} (h : ts.length ≤ fuel) :
    commands g fuel ts = allCommands g ts := by
  induction fuel, h using Nat.le_induction with
  | base => rfl
  | succ n hle ih => rw [commands_succ hle, ih]

theorem allCommands_semi {t : Token} (ht : t.type = .semi) (ts : List Token) :
    allCommands g (t :: ts) = allCommands g ts :=
  (commands_semi ht ts.length ts).trans (commands_eq_all (Nat.le_succ _))

theorem allCommands_control {t : Token} {ts rest : List Token} {c : TransactionControl}
    (ht : t.type ≠ .semi) (hc : t.type ∈ controlWords)
    (hp : parseControl (t :: ts) = some (c, rest)) :
    allCommands g (t :: ts) = .control c :: allCommands g rest := by
  rw [allCommands, List.length_cons, commands_cons ht, if_pos hc, hp]
  exact congrArg _ (commands_eq_all (parseControl_suffix hp).length_le)

theorem allCommands_other {t : Token} {ts rest : List Token} (ht : t.type ≠ .semi)
    (hc : t.type ∉ controlWords) (hp : g.command (t :: ts) = some rest) :
    allCommands g (t :: ts) =
      .other ((t :: ts).take (ts.length + 1 - rest.length)) :: allCommands g rest := by
  rw [allCommands, List.length_cons, commands_cons ht, if_neg hc, hp]
  have hlt := g.shorter _ _ hp
  rw [List.length_cons] at hlt
  exact congrArg _ (commands_eq_all (by omega))

theorem allCommands_append (hg : LeftToRight g) {ts : List Token} (he : ts = [] ∨ Ends ts)
    (hs : .syntaxError ∉ allCommands g ts) (us : List Token) :
    allCommands g (ts ++ us) = allCommands g ts ++ allCommands g us := by
  induction hn : ts.length using Nat.strong_induction_on generalizing ts with
  | _ n ih =>
    cases ts with
    | nil => rfl
    | cons t ts =>
      have hends : Ends (t :: ts) := he.resolve_left (List.cons_ne_nil t ts)
      rw [List.length_cons] at hn
      by_cases ht : t.type = .semi
      · rw [allCommands_semi ht] at hs
        rw [List.cons_append, allCommands_semi ht, allCommands_semi ht]
        exact ih ts.length (by omega) (hends.suffix (List.suffix_cons t ts)) hs rfl
      · by_cases hc : t.type ∈ controlWords
        · cases hp : parseControl (t :: ts) with
          | none =>
            rw [allCommands, List.length_cons, commands_cons ht, if_pos hc, hp] at hs
            exact absurd (List.mem_singleton_self _) hs
          | some r =>
            obtain ⟨c, rest⟩ := r
            have hsuffix := parseControl_suffix hp
            have happend : parseControl (t :: (ts ++ us)) = some (c, rest ++ us) := by
              rw [← List.cons_append, parseControl_append hends, hp]
              rfl
            rw [allCommands_control ht hc hp] at hs ⊢
            rw [List.cons_append, allCommands_control ht hc happend, List.cons_append]
            rw [ih rest.length (hsuffix.length_le.trans_lt (by omega))
              (hends.suffix (hsuffix.trans (List.suffix_cons t ts)))
              (fun h => hs (List.mem_cons_of_mem _ h)) rfl]
        · cases hp : g.command (t :: ts) with
          | none =>
            rw [allCommands, List.length_cons, commands_cons ht, if_neg hc, hp] at hs
            exact absurd (List.mem_singleton_self _) hs
          | some rest =>
            have hlt := g.shorter _ _ hp
            rw [List.length_cons] at hlt
            have happend : g.command (t :: (ts ++ us)) = some (rest ++ us) :=
              hg.goesOn _ _ us hends hp
            have htake : (t :: (ts ++ us)).take ((ts ++ us).length + 1 - (rest ++ us).length) =
                (t :: ts).take (ts.length + 1 - rest.length) := by
              rw [List.length_append, List.length_append, ← List.cons_append,
                List.take_append_of_le_length (by rw [List.length_cons]; omega)]
              congr 1
              omega
            rw [allCommands_other ht hc hp] at hs ⊢
            rw [List.cons_append, allCommands_other ht hc happend, htake, List.cons_append]
            rw [ih rest.length (by omega) (hends.suffix (hg.suffix _ _ hp))
              (fun h => hs (List.mem_cons_of_mem _ h)) rfl]

/-- The commands of a text that goes on after a semicolon are those before it and those after
it. -/
theorem sqlCommands_append (hg : LeftToRight g) (hz : 0 ∉ a) (ha : Closed a)
    (hs : .syntaxError ∉ sqlCommands g (a ++ [59])) (b : Bytes) :
    sqlCommands g (a ++ 59 :: b) = sqlCommands g (a ++ [59]) ++ sqlCommands g b := by
  obtain ⟨ts, hts⟩ := tokenize_closed ha
  have hcut (z : Bytes) : cStr (a ++ 59 :: z) = a ++ 59 :: cStr z :=
    List.takeWhile_append_of_pos fun _ hc => decide_eq_true (ne_of_mem_of_not_mem hc hz)
  have hfirst : tokenize (cStr (a ++ [59])) = ts ++ [semi] := by
    rw [hcut [], hts]
    rfl
  have hall : tokenize (cStr (a ++ 59 :: b)) = (ts ++ [semi]) ++ tokenize (cStr b) := by
    rw [hcut b, hts, List.append_assoc]
    rfl
  have hfirstCommands : sqlCommands g (a ++ [59]) = allCommands g (ts ++ [semi]) := by
    rw [sqlCommands, hfirst]
    rfl
  rw [hfirstCommands] at hs ⊢
  rw [sqlCommands, hall]
  exact allCommands_append hg (.inr (by simp [Ends])) hs _

end Scripts

section Execution

variable {g : Grammar}

/-- The environment of the commands that follow the first ones. -/
def following (env : ExecEnv σ) (n : ℕ) : ExecEnv σ := fun i => env (i + n)

theorem execCommands_following (env : ExecEnv σ) (n i : ℕ) (cmds : List Command)
    (c : Connection σ) :
    execCommands (following env n) i cmds c = execCommands env (i + n) cmds c := by
  induction cmds generalizing i c with
  | nil => rfl
  | cons cmd cmds ih =>
    rw [execCommands, execCommands, following]
    split
    · next d _ => rw [ih, Nat.add_right_comm]
    · rfl

theorem execCommands_append (env : ExecEnv σ) (i : ℕ) (xs ys : List Command)
    (c : Connection σ) : execCommands env i (xs ++ ys) c =
      if (execCommands env i xs c).1 = none then
        execCommands env (i + xs.length) ys (execCommands env i xs c).2
      else execCommands env i xs c := by
  induction xs generalizing i c with
  | nil => exact (if_pos rfl).symm
  | cons x xs ih =>
    rw [List.cons_append, execCommands, execCommands, List.length_cons]
    split
    · next d _ => rw [ih, Nat.add_right_comm, Nat.add_assoc]
    · next f d _ => exact (if_neg (Option.some_ne_none f)).symm

/-- What comes after a semicolon is run if all commands before it were. -/
theorem sqlite3Exec_append (hg : LeftToRight g) (hz : 0 ∉ a) (ha : Closed a)
    (hs : .syntaxError ∉ sqlCommands g (a ++ [59])) (b : Bytes) (env : ExecEnv σ)
    (c : Connection σ) : sqlite3Exec g c (a ++ 59 :: b) env =
      if (sqlite3Exec g c (a ++ [59]) env).1 = none then
        sqlite3Exec g (sqlite3Exec g c (a ++ [59]) env).2 b
          (following env (sqlCommands g (a ++ [59])).length)
      else sqlite3Exec g c (a ++ [59]) env := by
  have hd := (execCommands_untouched env 0 (sqlCommands g (a ++ [59])) (c.report none)).errMsg
  unfold sqlite3Exec
  rw [sqlCommands_append hg hz ha hs, execCommands_append, Nat.zero_add]
  generalize execCommands env 0 (sqlCommands g (a ++ [59])) (c.report none) = r at hd ⊢
  obtain ⟨_ | f, d⟩ := r
  · have hreport : (d.report none).report none = d := by
      obtain ⟨store, autoCommit, savepoints, isTransactionSavepoint, nDeferredCons, nChange,
        errMsg, stmts⟩ := d
      obtain rfl : errMsg = msgOk := hd
      rfl
    simp only [if_true, hreport, execCommands_following, Nat.zero_add]
  · rfl

end Execution

/-- The texts in one, each with a semicolon after it, and a last one as it is. -/
def script (pieces : List Bytes) (last : Bytes) : Bytes :=
  pieces.foldr (fun a text => a ++ 59 :: text) last

/-- A call of exec for each of the texts with its semicolon, which even the text BEGIN is not
filtered with, and for the last one as it is, up to the first one that fails. -/
def execEach (g : Grammar) (last : Bytes) : List Bytes → Impl σ → ExecEnv σ → ℤ × Impl σ
  | [], h, env => exec g h last env
  | a :: pieces, h, env =>
    let r := exec g h (a ++ [59]) env
    if (sqlite3Exec g h.db (a ++ [59]) env).1 = none then
      execEach g last pieces r.2 (following env (sqlCommands g (a ++ [59])).length)
    else r

/-- A text that is whole commands: no NUL, nothing left open, and no error of syntax. -/
structure Piece (g : Grammar) (a : Bytes) : Prop where
  noNul : 0 ∉ a
  closed : Closed a
  parsed : .syntaxError ∉ sqlCommands g (a ++ [59])

theorem not_filtered_of_semicolon (hz : 0 ∉ a) (b : Bytes) : ¬Filtered (a ++ 59 :: b) := by
  intro hf
  have hmem : 59 ∈ upperCaseString (a ++ 59 :: b) := by
    have hcut : cStr (a ++ 59 :: b) = a ++ 59 :: cStr b :=
      List.takeWhile_append_of_pos fun _ hc => decide_eq_true (ne_of_mem_of_not_mem hc hz)
    rw [upperCaseString, hcut, List.map_append]
    exact List.mem_append_right _ (List.mem_cons_self)
  have hnone : ∀ w ∈ transactionKeyWords, 59 ∉ w := by decide
  exact hnone _ hf hmem

theorem script_not_filtered {g : Grammar} {pieces : List Bytes} (hp : ∀ a ∈ pieces, Piece g a)
    {last : Bytes} (hl : ¬Filtered last) : ¬Filtered (script pieces last) := by
  cases pieces with
  | nil => exact hl
  | cons a pieces => exact not_filtered_of_semicolon (hp a List.mem_cons_self).noNul _

/-- A script does what its pieces with their semicolons do, and returns what the last one that was
run returns. -/
theorem script_piece_by_piece {g : Grammar} (hg : LeftToRight g) {pieces : List Bytes}
    (hp : ∀ a ∈ pieces, Piece g a) {last : Bytes} (hl : ¬Filtered last) (h : Impl σ)
    (env : ExecEnv σ) : exec g h (script pieces last) env = execEach g last pieces h env := by
  induction pieces generalizing h env with
  | nil => rfl
  | cons a pieces ih =>
    have ha := hp a List.mem_cons_self
    have hrest : ∀ w ∈ pieces, Piece g w := fun w hw => hp w (List.mem_cons_of_mem a hw)
    have happend :=
      sqlite3Exec_append hg ha.noNul ha.closed ha.parsed (script pieces last) env h.db
    have hwhole : exec g h (script (a :: pieces) last) env =
        execInternal g h (a ++ 59 :: script pieces last) env :=
      exec_not_filtered g (script_not_filtered hp hl) h env
    have hfirst : exec g h (a ++ [59]) env = execInternal g h (a ++ [59]) env :=
      exec_not_filtered g (not_filtered_of_semicolon ha.noNul []) h env
    rw [hwhole, execEach, hfirst, execInternal, execInternal, happend]
    generalize sqlite3Exec g h.db (a ++ [59]) env = r
    obtain ⟨_ | f, d⟩ := r
    · dsimp only
      rw [if_pos rfl, ← ih hrest, exec_not_filtered g (script_not_filtered hrest hl)]
      rfl
    · dsimp only
      rw [if_neg (Option.some_ne_none f), if_neg (Option.some_ne_none f)]

/-- A grammar where a command is all the tokens up to the next semicolon. -/
def upToSemicolon : Grammar where
  command ts := if ts = [] then none else some (ts.dropWhile fun t => t.type ≠ .semi).tail
  shorter ts rest h := by
    split at h
    · cases h
    · next hne =>
      cases h
      have hle := (List.dropWhile_suffix (l := ts) fun t : Token => t.type ≠ .semi).length_le
      have hpos := List.length_pos_iff.mpr hne
      rw [List.length_tail]
      omega

theorem upToSemicolon_leftToRight : LeftToRight upToSemicolon where
  suffix ts rest h := by
    unfold upToSemicolon at h
    dsimp only at h
    split at h
    · cases h
    · cases h
      exact (List.tail_suffix _).trans (List.dropWhile_suffix _)
  goesOn ts rest us he h := by
    unfold upToSemicolon at h ⊢
    dsimp only at h ⊢
    split at h
    · cases h
    · next hne =>
      cases h
      obtain ⟨w, rfl⟩ := List.getLast?_eq_some_iff.mp he
      have hstop : ((w ++ [semi]).dropWhile fun t : Token => t.type ≠ .semi) ≠ [] := by
        rw [Ne, List.dropWhile_eq_nil_iff]
        exact fun hall => absurd (hall semi (by simp)) (by decide)
      rw [if_neg (by simp), List.dropWhile_append, if_neg (by simp),
        List.tail_append_of_ne_nil hstop]

def insertThenBegin : List Bytes := [ascii "INSERT INTO t VALUES ('a;b')", ascii "BEGIN"]

/-- Every command stores its position. -/
def positions : ExecEnv (List ℕ) := fun i =>
  ⟨none, true, true, .ran ⟨⟨none, .abort, true, 1, none, none⟩, (· ++ [i]), 0⟩⟩

theorem insertThenBegin_pieces : ∀ a ∈ insertThenBegin, Piece upToSemicolon a := by
  intro a ha
  rw [insertThenBegin, List.mem_cons, List.mem_singleton] at ha
  rcases ha with rfl | rfl
  · exact ⟨by decide, by decide, by decide⟩
  · exact ⟨by decide, by decide, by decide⟩

/-- The semicolon in the quotes ends nothing, and the last command is in a transaction. -/
theorem insertThenBegin_each :
    exec upToSemicolon (.opened []) (script insertThenBegin (ascii "DELETE FROM t")) positions =
        execEach upToSemicolon (ascii "DELETE FROM t") insertThenBegin (.opened []) positions ∧
      (execEach upToSemicolon (ascii "DELETE FROM t") insertThenBegin (.opened [])
        positions).2.db.store.view = [0, 2] :=
  ⟨script_piece_by_piece upToSemicolon_leftToRight insertThenBegin_pieces (by decide) _ _,
    by decide⟩

end ExecScript
