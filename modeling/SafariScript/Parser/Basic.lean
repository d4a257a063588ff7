import SafariScript.Parser.Complaint
import SafariScript.Program
import SafariScript.Token

/-!
# Parsing tokens

A parser consumes tokens from the front of a list. It may record problems and go on, or stop at one; when
it stops, the tokens not yet consumed and the records so far are kept, so that parsing can resume.
Loops run over the tokens that are left when they begin: every turn consumes one, so they end in time.
-/

namespace SafariScript

/-- Why a parser stops. -/
inductive ParseStop where
  /-- The next token does not fit. -/
  | complaint (complaint : Complaint) (place : Word)
  /-- The source is nested too deeply. -/
  | tooDeep

/-- The tokens to come, the line where the source ends, the line of the token consumed last, and the
problems recorded so far. -/
structure ParseState where
  rest : List Token
  endLine : Int
  lastLine : Int
  problems : Diagnostics

/-- A parser: a step that consumes tokens and may stop. -/
abbrev Parser := EStateM ParseStop ParseState

namespace ParseState

/-- The place of the next token, or the end of the source. -/
def here (s : ParseState) : Word :=
  match s.rest with
  | t :: _ => t.word
  | [] => ⟨"", s.endLine⟩

/-- The next token is of the given kind. -/
def sees (s : ParseState) (kind : TokenKind) : Bool :=
  match s.rest with
  | t :: _ => t.kind == kind
  | [] => false

/-- Consume the next token. -/
def advance (s : ParseState) : ParseState :=
  match s.rest with
  | t :: rest => { s with rest, lastLine := t.line }
  | [] => s

/-- Nothing more stands on the line of the token consumed last. -/
def atLineEnd (s : ParseState) : Bool :=
  match s.rest with
  | [] => true
  | t :: _ => s.lastLine < t.line

/-- Record a complaint and attach its notes to it. -/
def report (s : ParseState) (complaint : Complaint) (place : Word) : ParseState :=
  { s with
    problems := complaint.hints.foldl (fun ds hint => ds.attachHint place hint)
      (s.problems.record (complaint.diagnostic place)) }

end ParseState

namespace Parser

/-- The tokens to come. -/
def remaining : Parser (List Token) :=
  return (← get).rest

/-- Look at the kind of the next token. -/
def peek? : Parser (Option TokenKind) :=
  return (← get).rest.head?.map Token.kind

/-- Look whether the next token is of the given kind. -/
def sees (kind : TokenKind) : Parser Bool :=
  return (← get).sees kind

/-- Consume the next token and give its line. -/
def advance : Parser Int := do
  modify ParseState.advance
  return (← get).lastLine

/-- Stop at a place. -/
def stopAt {α : Type} (place : Word) (complaint : Complaint) : Parser α :=
  throw (.complaint complaint place)

/-- Stop at the next token. -/
def stop {α : Type} (complaint : Complaint) : Parser α := do
  stopAt (← get).here complaint

/-- Stop because of too deep nesting. -/
def tooDeep {α : Type} : Parser α :=
  throw .tooDeep

/-- Record a complaint about a place and go on. -/
def complain (place : Word) (complaint : Complaint) : Parser Unit :=
  modify fun s => { s with problems := s.problems.record (complaint.diagnostic place) }

/-- Consume the next token if it is of the given kind. -/
def accept (kind : TokenKind) : Parser Bool := do
  if ← sees kind then
    let _ ← advance
    return true
  else
    return false

/-- Consume a token of the given kind, or stop. -/
def expect (kind : TokenKind) (position : String) : Parser Int := do
  if ← sees kind then advance else stop (.missing kind.lexeme position)

/-- Consume a symbol, or stop. -/
def symbol (symbol : Symbol) (position : String) : Parser Int :=
  expect (.symbol symbol) position

/-- Consume an identifier, or stop. -/
def name (role : String) : Parser Word := do
  match ← peek? with
  | some (.ident text) => return ⟨text, ← advance⟩
  | _ => stop (.missingName role)

/-- What follows the first item of a list: a comma and one more item, any number of times. -/
def separatedRest {α : Type} (item : Parser α) : List Token → Parser (List α)
  | [] => return []
  | _ :: fuel => do
    if ← accept (.symbol .comma) then
      let first ← item
      let others ← separatedRest item fuel
      return first :: others
    else
      return []

/-- One or more items with commas between them. -/
def separated {α : Type} (item : Parser α) : Parser (List α) := do
  let first ← item
  let others ← separatedRest item (← remaining)
  return first :: others

/-- Any number of items with commas between them: none if the symbol that closes the list comes next. -/
def listBefore {α : Type} (close : Symbol) (item : Parser α) : Parser (List α) := do
  if ← sees (.symbol close) then return [] else separated item

/-- A part that is there if a token of the given kind stands in front of it. -/
def optionalAfter {α : Type} (kind : TokenKind) (part : Parser α) : Parser (Option α) := do
  if ← accept kind then some <$> part else return none

end Parser
end SafariScript
