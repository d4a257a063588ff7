import SafariScript.Parser.Expression
import SafariScript.Parser.Recovery
import SafariScript.Stack

/-!
# Parsing statements

One rule for each kind of statement. What may stand where depends on the blocks around a statement: a
semicolon may be left out at the end of a line outside all blocks in interactive use, `break` and
`continue` need a loop, and `run` needs a loop or an `if`; the body of a function starts afresh.
-/

namespace SafariScript

/-- What stands around a statement. -/
structure Surroundings where
  interactive : Bool
  inBlock : Bool := false
  inLoop : Bool := false
  inControl : Bool := false
deriving DecidableEq, Inhabited, Repr

namespace Surroundings

/-- Inside a block. -/
def block (around : Surroundings) : Surroundings :=
  { around with inBlock := true }

/-- Inside the block of a loop. -/
def loop (around : Surroundings) : Surroundings :=
  { around with inBlock := true, inLoop := true, inControl := true }

/-- Inside a block of an `if` statement. -/
def control (around : Surroundings) : Surroundings :=
  { around with inBlock := true, inControl := true }

/-- Inside the body of a function. -/
def function (around : Surroundings) : Surroundings :=
  { around with inBlock := true, inLoop := false, inControl := false }

end Surroundings

namespace Parser

/-- The semicolon at the end of a statement, which may be left out at the end of a line outside all
blocks in interactive use. -/
def terminate (around : Surroundings) (position : String) : Parser Unit := do
  if ← accept (.symbol .semicolon) then
    return
  else
    let s ← get
    if around.interactive && !around.inBlock && s.atLineEnd then return
    else stop (.missing ";" position)

/-- The statements of a block behind its opening brace. -/
def block (item : Parser Stmt) : Parser (List Stmt) := do
  let body ← items true (recover true item) (← remaining)
  let _ ← symbol .rightBrace "after block"
  return body

/-- A condition in parentheses. -/
def condition (nested : Parser Expr) (keyword : String) : Parser Expr := do
  let _ ← symbol .leftParen ("after '" ++ keyword ++ "'")
  let value ← nested
  let _ ← symbol .rightParen ("after " ++ keyword ++ " condition")
  return value

/-- What follows `else`; `chain` parses an `if` statement behind its keyword. -/
def elseBody (chain : Parser (Expr × List Stmt × Otherwise)) (body : Parser (List Stmt)) :
    Parser Otherwise := do
  if ← accept (.keyword .ifKw) then
    let (value, first, otherwise) ← chain
    return .elseIf value first otherwise
  else
    let _ ← symbol .leftBrace "to start 'else' block"
    return .block (← body)

/-- What follows the first block of an `if` statement. -/
def elseBranch (chain : Parser (Expr × List Stmt × Otherwise)) (body : Parser (List Stmt)) :
    Parser Otherwise := do
  if ← accept (.keyword .elseKw) then elseBody chain body else return .nothing

/-- An `if` statement behind its keyword: the condition, the block, and the rest of the chain, which is at
most as long as the bound. -/
def conditional (nested : Parser Expr) (body : Parser (List Stmt)) :
    Nat → Parser (Expr × List Stmt × Otherwise)
  | 0 => tooDeep
  | depth + 1 => do
    let value ← condition nested "if"
    let _ ← symbol .leftBrace "to start 'if' block"
    let first ← body
    let otherwise ← elseBranch (conditional nested body depth) body
    return (value, first, otherwise)

/-- A variable declaration behind its keyword. -/
def varDeclaration (around : Surroundings) (nested : Parser Expr) : Parser Stmt := do
  let word ← name "variable name."
  let initial ← optionalAfter (.symbol .equal) nested
  terminate around "after variable declaration."
  return .var word initial

/-- The head of a function definition behind its keyword. -/
def signature : Parser (Word × List Word) := do
  let word ← name "function name after 'define'"
  let _ ← symbol .leftParen "after function name"
  let params ← listBefore .rightParen (name "parameter name")
  let _ ← symbol .rightParen "after function parameters"
  let _ ← symbol .leftBrace "before function body"
  return (word, params)

/-- A print statement behind its keyword. -/
def printing (around : Surroundings) (nested : Parser Expr) : Parser Stmt := do
  let _ ← symbol .leftParen "after 'print'"
  let value ← nested
  let _ ← symbol .rightParen "after print expression"
  terminate around "after print statement"
  return .print value

/-- The head of a `for` loop behind its keyword. -/
def iteration (nested : Parser Expr) : Parser (Word × Expr × Option Expr) := do
  let word ← name "loop variable name after 'for'"
  let _ ← expect (.keyword .inKw) "after loop variable"
  let start ← nested
  let stop ← optionalAfter (.keyword .toKw) nested
  let _ ← symbol .leftBrace "to start 'for' block"
  return (word, start, stop)

/-- A keyword that is a statement by itself, recorded as misplaced unless allowed here. -/
def lone (around : Surroundings) (word : Word) (allowed : Bool) (complaint : Complaint) (stmt : Stmt) :
    Parser Stmt := do
  terminate around ("after '" ++ word.text ++ "'")
  if !allowed then complain word complaint
  return stmt

/-- The value of a return statement, which a semicolon in its place leaves out. -/
def returnValue (nested : Parser Expr) : Parser (Option Expr) := do
  if ← sees (.symbol .semicolon) then return none else some <$> nested

/-- A return statement behind its keyword. -/
def returning (around : Surroundings) (nested : Parser Expr) (line : Int) : Parser Stmt := do
  let value ← returnValue nested
  terminate around "after return statement."
  return .ret line value

/-- The head of an explore statement behind its keyword. -/
def exploration : Parser Word := do
  let _ ← symbol .leftParen "after 'explore'"
  let zone ← name "Safari Zone variable name"
  let _ ← symbol .rightParen "after Safari Zone name"
  let _ ← symbol .leftBrace "to start 'explore' block"
  return zone

/-- A throwBall statement behind its keyword. -/
def throwing (around : Surroundings) (nested : Parser Expr) (line : Int) : Parser Stmt := do
  let _ ← symbol .leftParen "after 'throwBall'"
  let target ← nested
  let _ ← symbol .rightParen "after throwBall target"
  terminate around "after throwBall statement"
  return .throwBall line target

/-- A statement that starts with a keyword or an opening brace, if it does; `nested` parses expressions and
`body` the blocks with the given surroundings. The bound is for the links of an `if` chain. -/
def keyworded (around : Surroundings) (bound : Nat) (nested : Parser Expr)
    (body : Surroundings → Parser (List Stmt)) : TokenKind → Option (Parser Stmt)
  | .keyword .varKw => some do
    let _ ← advance
    varDeclaration around nested
  | .keyword .defineKw => some do
    let _ ← advance
    let (word, params) ← signature
    return .define word params (← body around.function)
  | .keyword .printKw => some do
    let _ ← advance
    printing around nested
  | .keyword .ifKw => some do
    let _ ← advance
    let (value, first, otherwise) ← conditional nested (body around.control) bound
    return .cond value first otherwise
  | .keyword .whileKw => some do
    let _ ← advance
    let value ← condition nested "while"
    let _ ← symbol .leftBrace "to start 'while' block"
    return .loop value (← body around.loop)
  | .keyword .forKw => some do
    let line ← advance
    let (word, start, stop) ← iteration nested
    return .forIn line word start stop (← body around.loop)
  | .keyword .breakKw => some do
    lone around ⟨"break", ← advance⟩ around.inLoop (.outsideLoop "break") .breakLoop
  | .keyword .continueKw => some do
    lone around ⟨"continue", ← advance⟩ around.inLoop (.outsideLoop "continue") .continueLoop
  | .keyword .runKw => some do
    lone around ⟨"run", ← advance⟩ around.inControl .outsideControl .run
  | .keyword .returnKw => some do
    returning around nested (← advance)
  | .keyword .exploreKw => some do
    let line ← advance
    let zone ← exploration
    return .explore line zone (← body around.loop)
  | .keyword .throwBallKw => some do
    throwing around nested (← advance)
  | .symbol .leftBrace => some do
    let _ ← advance
    return .block (← body around.block)
  | _ => none

/-- An expression used as a statement. -/
def expressionStatement (around : Surroundings) (nested : Parser Expr) : Parser Stmt := do
  let value ← nested
  terminate around "after expression."
  return .expr value

/-- The frames of the stack that a statement inside another one takes; a further link of an `if` chain takes
one. -/
def statementFrames : Nat := 5

/-- A statement with at most the given nesting. -/
def statement : Nat → Surroundings → Parser Stmt
  | 0, _ => tooDeep
  | depth + 1, around => do
    let frames := statementFrames * depth
    let nested := expression (frames / expressionFrames)
    let body := fun inner => block (statement depth inner)
    match (← peek?).bind (keyworded around frames nested body) with
    | some rule => rule
    | none => expressionStatement around nested

end Parser

/-- Statements nested deeper than this are refused. -/
def nestingLimit : Nat := stackRoom / Parser.statementFrames

/-- A program and the problems recorded while it was read. -/
structure Parsed where
  program : Program
  problems : Diagnostics

/-- Parse tokens with a bound on the nesting. Gives nothing if the bound is exceeded. -/
def parseWithin? (limit : Nat) (interactive : Bool) (tokens : List Token) (endLine : Int)
    (problems : Diagnostics) : Option Parsed :=
  let item := Parser.recover false (Parser.statement limit { interactive })
  match Parser.items false item tokens ⟨tokens, endLine, endLine, problems⟩ with
  | .ok statements s => some ⟨⟨statements⟩, s.problems⟩
  | .error _ _ => none

/-- Parse tokens, adding to the problems of the scan. Gives nothing if they are nested too deeply. -/
def parse? (interactive : Bool) (tokens : List Token) (endLine : Int) (problems : Diagnostics) :
    Option Parsed :=
  parseWithin? nestingLimit interactive tokens endLine problems

end SafariScript
