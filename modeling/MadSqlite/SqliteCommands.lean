import MadSqlite.SqliteTokens

/-! # Commands of an SQL text

The grammar rules of transaction control are written out; no other command starts with
one of their words. The rest of the SQL grammar is a parameter that says where the next
command ends. A text is read up to its first syntax error. -/
namespace SqliteCommands

open CppStrings SqliteTokens

def kw (w : String) : TokenType := .keyword (ascii w)

/-- The keywords the parser also takes as a name, by fallback to ID or as JOIN_KW. -/
def nameWords : List Bytes := ["EXPLAIN", "QUERY", "PLAN", "BEGIN", "DEFERRED", "IMMEDIATE",
  "EXCLUSIVE", "END", "ROLLBACK", "SAVEPOINT", "RELEASE", "IF", "TEMP", "TEMPORARY", "WITHOUT",
  "MATCH", "LIKE", "GLOB", "REGEXP", "ABORT", "ACTION", "AFTER", "ANALYZE", "ASC", "ATTACH",
  "BEFORE", "BY", "CASCADE", "CAST", "COLUMN", "CONFLICT", "DATABASE", "DESC", "DETACH", "EACH",
  "FAIL", "FOR", "IGNORE", "INITIALLY", "INSTEAD", "NO", "KEY", "OF", "OFFSET", "PRAGMA", "RAISE",
  "RECURSIVE", "REPLACE", "RESTRICT", "ROW", "TRIGGER", "VACUUM", "VIEW", "VIRTUAL", "WITH",
  "REINDEX", "RENAME", "CURRENT_DATE", "CURRENT_TIME", "CURRENT_TIMESTAMP", "CROSS", "FULL",
  "INNER", "LEFT", "NATURAL", "OUTER", "RIGHT", "INDEXED"].map ascii

def isName (t : Token) : Bool :=
  match t.type with
  | .id | .string => true
  | .keyword w => w ∈ nameWords
  | _ => false

def unquote (quote : UInt8) : Bytes → Bytes
  | [] => []
  | [c] => if c = quote then [] else [c]
  | c :: d :: z =>
    if c = quote then (if d = quote then c :: unquote quote z else [])
    else c :: unquote quote (d :: z)

def sqlite3Dequote (z : Bytes) : Bytes :=
  match z with
  | 91 :: rest => unquote 93 rest
  | c :: rest => if c = 34 ∨ c = 39 ∨ c = 96 then unquote c rest else z
  | [] => []

inductive BeginType where
  | deferred | immediate | exclusive
  deriving DecidableEq, Repr

inductive TransactionControl where
  | begin (type : BeginType)
  | commit
  | rollback
  | savepoint (name : Bytes)
  | release (name : Bytes)
  | rollbackTo (name : Bytes)
  deriving DecidableEq, Repr

def controlWords : List TokenType :=
  [kw "BEGIN", kw "COMMIT", kw "END", kw "ROLLBACK", kw "SAVEPOINT", kw "RELEASE"]

/-- A command ends at a semicolon or at the end of the text. -/
def commandEnd : List Token → Option (List Token)
  | [] => some []
  | t :: ts => if t.type = .semi then some ts else none

def transOpt : List Token → List Token
  | [] => []
  | t :: ts =>
    if t.type = kw "TRANSACTION" then
      match ts with
      | n :: rest => if isName n then rest else ts
      | [] => []
    else t :: ts

def transType : List Token → BeginType × List Token
  | [] => (.deferred, [])
  | t :: ts =>
    if t.type = kw "DEFERRED" then (.deferred, ts)
    else if t.type = kw "IMMEDIATE" then (.immediate, ts)
    else if t.type = kw "EXCLUSIVE" then (.exclusive, ts)
    else (.deferred, t :: ts)

def savepointOpt : List Token → List Token
  | [] => []
  | t :: ts => if t.type = kw "SAVEPOINT" then ts else t :: ts

def nameEnd (ts : List Token) : Option (Bytes × List Token) :=
  match ts with
  | [] => none
  | n :: rest =>
    if isName n then (commandEnd rest).map fun r => (sqlite3Dequote n.text, r) else none

/-- `cmd ::= BEGIN transtype trans_opt` and the rules that follow it in the grammar. -/
def parseControl : List Token → Option (TransactionControl × List Token)
  | [] => none
  | t :: ts =>
    if t.type = kw "BEGIN" then
      let (type, ts) := transType ts
      (commandEnd (transOpt ts)).map fun r => (.begin type, r)
    else if t.type = kw "COMMIT" ∨ t.type = kw "END" then
      (commandEnd (transOpt ts)).map fun r => (.commit, r)
    else if t.type = kw "ROLLBACK" then
      match transOpt ts with
      | u :: us =>
        if u.type = kw "TO" then (nameEnd (savepointOpt us)).map fun p => (.rollbackTo p.1, p.2)
        else (commandEnd (u :: us)).map fun r => (.rollback, r)
      | [] => some (.rollback, [])
    else if t.type = kw "SAVEPOINT" then (nameEnd ts).map fun p => (.savepoint p.1, p.2)
    else if t.type = kw "RELEASE" then
      (nameEnd (savepointOpt ts)).map fun p => (.release p.1, p.2)
    else none

/-- The rest of the grammar: the tokens left after the first command, if it is one. -/
structure Grammar where
  command : List Token → Option (List Token)
  shorter : ∀ ts rest, command ts = some rest → rest.length < ts.length

def Grammar.controlOnly : Grammar := ⟨fun _ => none, by simp⟩

inductive Command where
  | control (c : TransactionControl)
  | other (ts : List Token)
  | syntaxError
  deriving DecidableEq, Repr

def commands (g : Grammar) : ℕ → List Token → List Command
  | 0, _ => []
  | fuel + 1, ts =>
    match ts.dropWhile fun t => t.type = .semi with
    | [] => []
    | t :: ts =>
      if t.type ∈ controlWords then
        match parseControl (t :: ts) with
        | some (c, rest) => .control c :: commands g fuel rest
        | none => [.syntaxError]
      else
        match g.command (t :: ts) with
        | some rest =>
          .other ((t :: ts).take (ts.length + 1 - rest.length)) :: commands g fuel rest
        | none => [.syntaxError]

/-- The commands SQLite reads in the text a caller passes as `c_str()`. A command has a
token at least, so there are no more of them than tokens. -/
def sqlCommands (g : Grammar) (sql : Bytes) : List Command :=
  commands g (tokenize (cStr sql)).length (tokenize (cStr sql))

def HasTransactionControl (g : Grammar) (sql : Bytes) : Prop :=
  ∃ c, .control c ∈ sqlCommands g sql

instance (g : Grammar) (sql : Bytes) : Decidable (HasTransactionControl g sql) :=
  decidable_of_iff ((sqlCommands g sql).any fun
    | .control _ => true
    | _ => false) (by
      rw [List.any_eq_true]
      constructor
      · rintro ⟨c, hm, hc⟩
        cases c with
        | control c => exact ⟨c, hm⟩
        | other ts => cases hc
        | syntaxError => cases hc
      · rintro ⟨c, hm⟩
        exact ⟨_, hm, rfl⟩)

/-- Whatever the other rules of the grammar are, these three texts are one command. -/
theorem sqlCommands_begin (g : Grammar) :
    sqlCommands g (ascii "BEGIN") = [.control (.begin .deferred)] := rfl
theorem sqlCommands_commit (g : Grammar) :
    sqlCommands g (ascii "COMMIT") = [.control .commit] := rfl
theorem sqlCommands_rollback (g : Grammar) :
    sqlCommands g (ascii "ROLLBACK") = [.control .rollback] := rfl

end SqliteCommands
