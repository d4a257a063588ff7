import SafariScript.Parser.Basic

/-!
# Parsing expressions

From the tightest to the loosest binding: primaries with their suffixes, operators before an operand, six
ranks of operators between operands, and assignment. Each rule is a function of the parser for the
expressions nested in it, and nesting is bounded.
-/

namespace SafariScript

/-- The operator before an operand that a kind of token spells. -/
def UnaryOp.ofKind? : TokenKind → Option UnaryOp
  | .symbol .bang => some .not
  | .symbol .minus => some .negate
  | _ => none

/-- The operator between operands that a kind of token spells. -/
def BinaryOp.ofKind? : TokenKind → Option BinaryOp
  | .symbol .or => some .or
  | .symbol .and => some .and
  | .symbol .equalEqual => some .equal
  | .symbol .bangEqual => some .notEqual
  | .symbol .less => some (.int .less)
  | .symbol .lessEqual => some (.int .lessEqual)
  | .symbol .greater => some (.int .greater)
  | .symbol .greaterEqual => some (.int .greaterEqual)
  | .symbol .plus => some .add
  | .symbol .minus => some (.int .subtract)
  | .symbol .star => some (.int .multiply)
  | .symbol .slash => some (.int .divide)
  | .symbol .percent => some (.int .remainder)
  | _ => none

namespace Parser

/-- An argument of a call: named if an identifier and an equals sign come next. -/
def argument (nested : Parser Expr) : Parser (Expr ⊕ NamedArg) := do
  match ← remaining with
  | ⟨.ident text, line⟩ :: ⟨.symbol .equal, _⟩ :: _ =>
    let _ ← advance
    let _ ← advance
    return .inr (.mk ⟨text, line⟩ (← nested))
  | _ => return .inl (← nested)

/-- The arguments of a call behind its opening parenthesis, and the line of the closing one. -/
def arguments (nested : Parser Expr) : Parser (List Expr × List NamedArg × Int) := do
  let items ← listBefore .rightParen (argument nested)
  let line ← symbol .rightParen "after arguments"
  return (items.filterMap Sum.getLeft?, items.filterMap Sum.getRight?, line)

/-- The construction of an object behind the name of its constructor. -/
def construction (nested : Parser Expr) (maker : Maker) : Parser Expr := do
  let line ← advance
  let _ ← symbol .leftParen ("after '" ++ maker.spelling ++ "'")
  let (positional, named, _) ← arguments nested
  return .construct maker line positional named

/-- An expression that starts with no operator, without its suffixes. -/
def primary (nested : Parser Expr) : Parser Expr := do
  match ← peek? with
  | some (.keyword .trueKw) =>
    let _ ← advance
    return .literal (.bool true)
  | some (.keyword .falseKw) =>
    let _ ← advance
    return .literal (.bool false)
  | some (.keyword .nullKw) =>
    let _ ← advance
    return .literal .null
  | some (.number digits) =>
    let _ ← advance
    return .literal (.int (digitsValue digits.toList))
  | some (.text raw) =>
    let _ ← advance
    return .literal (.text (String.ofList (unescape raw.toList)))
  | some (.ident text) => return .ident ⟨text, ← advance⟩
  | some (.keyword .safariZoneKw) => construction nested .safariZone
  | some (.keyword .teamKw) => construction nested .team
  | some (.symbol .leftParen) =>
    let _ ← advance
    let inner ← nested
    let _ ← symbol .rightParen "after expression"
    return inner
  | some (.symbol .leftBracket) =>
    let _ ← advance
    let elements ← listBefore .rightBracket nested
    let _ ← symbol .rightBracket "after array elements"
    return .array elements
  | _ => stop .missingExpression

/-- A property behind its dot. -/
def propertySuffix (object : Expr) : Parser Expr := do
  let word ← name "property name after '.'"
  if ← sees (.symbol .leftParen) then stopAt word (.calledProperty word.text)
  else return .property object word

/-- A method call behind its arrow. -/
def methodSuffix (nested : Parser Expr) (object : Expr) : Parser Expr := do
  let word ← name "method name after '->'"
  if ← accept (.symbol .leftParen) then
    let (positional, named, _) ← arguments nested
    return .method object word positional named
  else stopAt word (.uncalledMethod word.text)

/-- An index behind its opening bracket. -/
def indexSuffix (nested : Parser Expr) (array : Expr) : Parser Expr := do
  let index ← nested
  let line ← symbol .rightBracket "after index"
  return .element array line index

/-- Calls, properties, method calls and indices behind an expression. -/
def suffixes (nested : Parser Expr) : List Token → Expr → Parser Expr
  | [], e => return e
  | _ :: fuel, e => do
    if ← accept (.symbol .leftParen) then
      let (positional, named, line) ← arguments nested
      suffixes nested fuel (.call e line positional named)
    else if ← accept (.symbol .dot) then
      suffixes nested fuel (← propertySuffix e)
    else if ← accept (.symbol .arrow) then
      suffixes nested fuel (← methodSuffix nested e)
    else if ← accept (.symbol .leftBracket) then
      suffixes nested fuel (← indexSuffix nested e)
    else
      return e

/-- A primary with its suffixes. -/
def suffixed (nested : Parser Expr) : Parser Expr := do
  let e ← primary nested
  suffixes nested (← remaining) e

/-- An operand with operators before it, at most as many as the bound. -/
def unary (operand : Parser Expr) : Nat → Parser Expr
  | 0 => tooDeep
  | depth + 1 => do
    match (← peek?).bind UnaryOp.ofKind? with
    | some op =>
      let line ← advance
      return .unary op line (← unary operand depth)
    | none => operand

/-- Operators of one rank and operands behind a first operand, grouped to the left. -/
def chainRest (operand : Parser Expr) (rank : Nat) : List Token → Expr → Parser Expr
  | [], left => return left
  | _ :: fuel, left => do
    match (← peek?).bind BinaryOp.ofKind? with
    | some op =>
      if op.rank == rank then
        let line ← advance
        let right ← operand
        chainRest operand rank fuel (.binary left op line right)
      else
        return left
    | none => return left

/-- Operands with the operators of the ranks below a bound between them. -/
def tier (operand : Parser Expr) : Nat → Parser Expr
  | 0 => operand
  | rank + 1 => do
    let left ← tier operand rank
    chainRest (tier operand rank) rank (← remaining) left

/-- The number of ranks of operators between operands. -/
def ranks : Nat := 6

/-- The assignment of a value to an expression; only variables, properties and elements take one. -/
def assignTo (target : Expr) (place : Word) (value : Expr) : Parser Expr := do
  match target with
  | .ident word => return .assign word value
  | .property object word => return .setProperty object word value
  | .element array line index => return .setElement array line index value
  | _ =>
    complain place .invalidTarget
    return target

/-- An operand, or assignments to operands with a value behind the last of them, at most as many as the
bound. The value is read before the assignment to its target is judged. -/
def assignment (operand : Parser Expr) : Nat → Parser Expr
  | 0 => tooDeep
  | depth + 1 => do
    let left ← operand
    let place := (← get).here
    if ← accept (.symbol .equal) then
      let value ← assignment operand depth
      assignTo left place value
    else
      return left

/-- The frames of the stack that an expression inside another one takes; an operator before an operand and an
assignment take one each. -/
def expressionFrames : Nat := 17

/-- An expression with at most the given nesting. -/
def expression : Nat → Parser Expr
  | 0 => tooDeep
  | depth + 1 =>
    let frames := expressionFrames * (depth + 1)
    assignment (tier (unary (suffixed (expression depth)) frames) ranks) frames

end Parser
end SafariScript
