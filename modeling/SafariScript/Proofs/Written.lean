import SafariScript.Proofs.Grammar

/-!
# Programs written out

The kinds of the tokens that a program is written with. Every expression has a level, from the primaries to
assignment, and stands in parentheses exactly where a level this loose is not allowed: the operand of an
operator that binds tighter, the right operand of one that binds the same, and what stands in front of a
suffix. Two places need parentheses for other reasons: a property that is called, since a property followed by
arguments is refused, and an assignment to a variable among arguments, since it would be taken for a named
argument. Arguments given by position are written in front of those given by name.

Writing a program forgets its lines. `Program.unlined` is the program with all lines forgotten; two programs
are the same up to lines if it is the same for both.
-/

namespace SafariScript

/-! ## Constants -/

/-- The characters that a character of a text is written with between quotation marks. -/
def escapeChar : Char → List Char
  | '\\' => ['\\', '\\']
  | '"' => ['\\', '"']
  | '\n' => ['\\', 'n']
  | '\t' => ['\\', 't']
  | c => [c]

/-- The characters that a text is written with between quotation marks. -/
def escape (cs : List Char) : List Char :=
  cs.flatMap escapeChar

theorem unescape_plain {c : Char} (hc : c ≠ '\\') (rest : List Char) : unescape (c :: rest) = c :: unescape rest := by
  rw [unescape]
  · exact fun _ h _ => hc h
  · exact fun _ h _ => hc h
  · exact fun _ _ h _ => hc h

theorem unescape_escapeChar (c : Char) (rest : List Char) :
    unescape (escapeChar c ++ rest) = c :: unescape rest := by
  unfold escapeChar
  split
  · rfl
  · rfl
  · rfl
  · rfl
  · next hbackslash _ _ _ => exact unescape_plain hbackslash rest

theorem unescape_escape (cs : List Char) : unescape (escape cs) = cs := by
  induction cs with
  | nil => rfl
  | cons c cs ih =>
      rw [escape, List.flatMap_cons, unescape_escapeChar]
      exact congrArg (c :: ·) ih

theorem digitsValue_toString (n : Nat) : digitsValue (toString n).toList = n := by
  have hrepr : (toString n).toList = Nat.toDigits 10 n := Nat.toList_repr
  have hvalue := @Nat.ofDigitChars_ten_toDigits n
  rw [Nat.ofDigitChars_eq_foldl] at hvalue
  rw [digitsValue, Text.ofDigits, List.foldl_map, hrepr]
  exact hvalue

/-- The token that a constant is written with. A negative integer has none; it is written as its absolute
value with an operator in front of it, and so it is no constant. -/
def Literal.token : Literal → TokenKind
  | .null => .keyword .nullKw
  | .bool true => .keyword .trueKw
  | .bool false => .keyword .falseKw
  | .int n => .number (toString n.toNat)
  | .text s => .text (String.ofList (escape s.toList))

/-- A constant that a token stands for. -/
def Literal.writable : Literal → Bool
  | .int n => 0 ≤ n
  | _ => true

/-- A word with its line forgotten. -/
def Word.unlined (word : Word) : Word :=
  { word with line := 0 }

/-! ## Expressions -/

namespace Expr

/-- How loosely an expression binds: primaries, suffixes, operators before an operand, the six ranks of
operators between operands, assignments. -/
def level : Expr → Nat
  | .literal _ | .ident _ | .array _ | .construct _ _ _ _ => 0
  | .property _ _ | .element _ _ _ | .call _ _ _ _ | .method _ _ _ _ => 1
  | .unary _ _ _ => 2
  | .binary _ op _ _ => op.rank + 3
  | .assign _ _ | .setProperty _ _ _ | .setElement _ _ _ _ => 9

/-- The expression is a property, which arguments must not follow. -/
def isProperty : Expr → Bool
  | .property _ _ => true
  | _ => false

/-- The expression is an assignment to a variable, which as an argument would be a named one. -/
def isAssign : Expr → Bool
  | .assign _ _ => true
  | _ => false

end Expr

/-- Parentheses around tokens, if they are needed. -/
def grouped (needed : Bool) (kinds : List TokenKind) : List TokenKind :=
  if needed then .symbol .leftParen :: (kinds ++ [.symbol .rightParen]) else kinds

/-- Items with commas between them. -/
def listed : List (List TokenKind) → List TokenKind
  | [] => []
  | [item] => item
  | item :: items => item ++ .symbol .comma :: listed items

mutual

/-- The tokens that an expression is written with. -/
def Expr.written : Expr → List TokenKind
  | .literal value => [value.token]
  | .ident name => [.ident name.text]
  | .unary op _ operand => .symbol op.symbol :: grouped (2 < operand.level) operand.written
  | .binary left op _ right =>
    grouped (op.rank + 3 < left.level) left.written ++
      .symbol op.symbol :: grouped (op.rank + 2 < right.level) right.written
  | .assign name value => .ident name.text :: .symbol .equal :: value.written
  | .property object name =>
    grouped (1 < object.level) object.written ++ [.symbol .dot, .ident name.text]
  | .setProperty object name value =>
    (grouped (1 < object.level) object.written ++ [.symbol .dot, .ident name.text]) ++
      .symbol .equal :: value.written
  | .array elements =>
    .symbol .leftBracket :: (listed (Expr.writtenAll elements) ++ [.symbol .rightBracket])
  | .element array _ index =>
    grouped (1 < array.level) array.written ++
      .symbol .leftBracket :: (index.written ++ [.symbol .rightBracket])
  | .setElement array _ index value =>
    (grouped (1 < array.level) array.written ++
      .symbol .leftBracket :: (index.written ++ [.symbol .rightBracket])) ++
      .symbol .equal :: value.written
  | .call callee _ arguments named =>
    grouped (1 < callee.level || callee.isProperty) callee.written ++
      .symbol .leftParen ::
        (listed (Expr.writtenArguments arguments ++ NamedArg.writtenAll named) ++ [.symbol .rightParen])
  | .method object name arguments named =>
    grouped (1 < object.level) object.written ++
      .symbol .arrow :: .ident name.text :: .symbol .leftParen ::
        (listed (Expr.writtenArguments arguments ++ NamedArg.writtenAll named) ++ [.symbol .rightParen])
  | .construct maker _ arguments named =>
    .keyword maker.keyword :: .symbol .leftParen ::
      (listed (Expr.writtenArguments arguments ++ NamedArg.writtenAll named) ++ [.symbol .rightParen])

/-- The tokens of each expression of a list. -/
def Expr.writtenAll : List Expr → List (List TokenKind)
  | [] => []
  | e :: es => e.written :: Expr.writtenAll es

/-- The tokens of each argument that is given by position. -/
def Expr.writtenArguments : List Expr → List (List TokenKind)
  | [] => []
  | e :: es => grouped e.isAssign e.written :: Expr.writtenArguments es

/-- The tokens of an argument that is given by name. -/
def NamedArg.written : NamedArg → List TokenKind
  | .mk name value => .ident name.text :: .symbol .equal :: value.written

/-- The tokens of each argument that is given by name. -/
def NamedArg.writtenAll : List NamedArg → List (List TokenKind)
  | [] => []
  | a :: as => a.written :: NamedArg.writtenAll as

end

mutual

/-- All constants of an expression are such that a token stands for them. -/
def Expr.writable : Expr → Bool
  | .literal value => value.writable
  | .ident _ => true
  | .unary _ _ operand => operand.writable
  | .binary left _ _ right => left.writable && right.writable
  | .assign _ value => value.writable
  | .property object _ => object.writable
  | .setProperty object _ value => object.writable && value.writable
  | .array elements => Expr.writableAll elements
  | .element array _ index => array.writable && index.writable
  | .setElement array _ index value => array.writable && index.writable && value.writable
  | .call callee _ arguments named =>
    callee.writable && Expr.writableAll arguments && NamedArg.writableAll named
  | .method object _ arguments named =>
    object.writable && Expr.writableAll arguments && NamedArg.writableAll named
  | .construct _ _ arguments named => Expr.writableAll arguments && NamedArg.writableAll named

def Expr.writableAll : List Expr → Bool
  | [] => true
  | e :: es => e.writable && Expr.writableAll es

def NamedArg.writable : NamedArg → Bool
  | .mk _ value => value.writable

def NamedArg.writableAll : List NamedArg → Bool
  | [] => true
  | a :: as => a.writable && NamedArg.writableAll as

end

mutual

/-- An expression with its lines forgotten. -/
def Expr.unlined : Expr → Expr
  | .literal value => .literal value
  | .ident name => .ident name.unlined
  | .unary op _ operand => .unary op 0 operand.unlined
  | .binary left op _ right => .binary left.unlined op 0 right.unlined
  | .assign name value => .assign name.unlined value.unlined
  | .property object name => .property object.unlined name.unlined
  | .setProperty object name value => .setProperty object.unlined name.unlined value.unlined
  | .array elements => .array (Expr.unlinedAll elements)
  | .element array _ index => .element array.unlined 0 index.unlined
  | .setElement array _ index value => .setElement array.unlined 0 index.unlined value.unlined
  | .call callee _ arguments named =>
    .call callee.unlined 0 (Expr.unlinedAll arguments) (NamedArg.unlinedAll named)
  | .method object name arguments named =>
    .method object.unlined name.unlined (Expr.unlinedAll arguments) (NamedArg.unlinedAll named)
  | .construct maker _ arguments named =>
    .construct maker 0 (Expr.unlinedAll arguments) (NamedArg.unlinedAll named)

def Expr.unlinedAll : List Expr → List Expr
  | [] => []
  | e :: es => e.unlined :: Expr.unlinedAll es

def NamedArg.unlined : NamedArg → NamedArg
  | .mk name value => .mk name.unlined value.unlined

def NamedArg.unlinedAll : List NamedArg → List NamedArg
  | [] => []
  | a :: as => a.unlined :: NamedArg.unlinedAll as

end

@[simp] theorem Expr.writtenAll_eq (es : List Expr) : Expr.writtenAll es = es.map Expr.written := by
  induction es with
  | nil => rfl
  | cons e es ih => rw [Expr.writtenAll, ih, List.map_cons]

@[simp] theorem Expr.writtenArguments_eq (es : List Expr) :
    Expr.writtenArguments es = es.map fun e => grouped e.isAssign e.written := by
  induction es with
  | nil => rfl
  | cons e es ih => rw [Expr.writtenArguments, ih, List.map_cons]

@[simp] theorem NamedArg.writtenAll_eq (as : List NamedArg) :
    NamedArg.writtenAll as = as.map NamedArg.written := by
  induction as with
  | nil => rfl
  | cons a as ih => rw [NamedArg.writtenAll, ih, List.map_cons]

@[simp] theorem Expr.unlinedAll_eq (es : List Expr) : Expr.unlinedAll es = es.map Expr.unlined := by
  induction es with
  | nil => rfl
  | cons e es ih => rw [Expr.unlinedAll, ih, List.map_cons]

@[simp] theorem NamedArg.unlinedAll_eq (as : List NamedArg) :
    NamedArg.unlinedAll as = as.map NamedArg.unlined := by
  induction as with
  | nil => rfl
  | cons a as ih => rw [NamedArg.unlinedAll, ih, List.map_cons]

/-! ## Statements -/

/-- Braces around the tokens of a body. -/
def braced (kinds : List TokenKind) : List TokenKind :=
  .symbol .leftBrace :: (kinds ++ [.symbol .rightBrace])

/-- Parentheses around the tokens of a condition or a single argument. -/
def enclosed (kinds : List TokenKind) : List TokenKind :=
  .symbol .leftParen :: (kinds ++ [.symbol .rightParen])

mutual

/-- The tokens that a statement is written with. -/
def Stmt.written : Stmt → List TokenKind
  | .expr value => value.written ++ [.symbol .semicolon]
  | .print value => .keyword .printKw :: (enclosed value.written ++ [.symbol .semicolon])
  | .var name none => [.keyword .varKw, .ident name.text, .symbol .semicolon]
  | .var name (some initial) =>
    .keyword .varKw :: .ident name.text :: .symbol .equal :: (initial.written ++ [.symbol .semicolon])
  | .block body => braced (Stmt.writtenAll body)
  | .cond condition body otherwise =>
    .keyword .ifKw :: (enclosed condition.written ++ (braced (Stmt.writtenAll body) ++ otherwise.written))
  | .loop condition body =>
    .keyword .whileKw :: (enclosed condition.written ++ braced (Stmt.writtenAll body))
  | .forIn _ name start none body =>
    .keyword .forKw :: .ident name.text :: .keyword .inKw ::
      (start.written ++ braced (Stmt.writtenAll body))
  | .forIn _ name start (some stop) body =>
    .keyword .forKw :: .ident name.text :: .keyword .inKw ::
      (start.written ++ .keyword .toKw :: (stop.written ++ braced (Stmt.writtenAll body)))
  | .breakLoop => [.keyword .breakKw, .symbol .semicolon]
  | .continueLoop => [.keyword .continueKw, .symbol .semicolon]
  | .run => [.keyword .runKw, .symbol .semicolon]
  | .define name params body =>
    .keyword .defineKw :: .ident name.text ::
      (enclosed (listed (params.map fun param => [.ident param.text])) ++ braced (Stmt.writtenAll body))
  | .ret _ none => [.keyword .returnKw, .symbol .semicolon]
  | .ret _ (some value) => .keyword .returnKw :: (value.written ++ [.symbol .semicolon])
  | .explore _ zone body =>
    .keyword .exploreKw :: (enclosed [.ident zone.text] ++ braced (Stmt.writtenAll body))
  | .throwBall _ target => .keyword .throwBallKw :: (enclosed target.written ++ [.symbol .semicolon])

/-- The tokens of what follows the first block of an `if` statement. -/
def Otherwise.written : Otherwise → List TokenKind
  | .nothing => []
  | .block body => .keyword .elseKw :: braced (Stmt.writtenAll body)
  | .elseIf condition body otherwise =>
    .keyword .elseKw :: .keyword .ifKw ::
      (enclosed condition.written ++ (braced (Stmt.writtenAll body) ++ otherwise.written))

/-- The tokens of statements one after the other. -/
def Stmt.writtenAll : List Stmt → List TokenKind
  | [] => []
  | s :: ss => s.written ++ Stmt.writtenAll ss

end

mutual

/-- All constants of a statement are such that a token stands for them. -/
def Stmt.writable : Stmt → Bool
  | .expr value => value.writable
  | .print value => value.writable
  | .var _ initial => initial.all Expr.writable
  | .block body => Stmt.writableAll body
  | .cond condition body otherwise => condition.writable && Stmt.writableAll body && otherwise.writable
  | .loop condition body => condition.writable && Stmt.writableAll body
  | .forIn _ _ start stop body => start.writable && stop.all Expr.writable && Stmt.writableAll body
  | .breakLoop | .continueLoop | .run => true
  | .define _ _ body => Stmt.writableAll body
  | .ret _ value => value.all Expr.writable
  | .explore _ _ body => Stmt.writableAll body
  | .throwBall _ target => target.writable

def Otherwise.writable : Otherwise → Bool
  | .nothing => true
  | .block body => Stmt.writableAll body
  | .elseIf condition body otherwise => condition.writable && Stmt.writableAll body && otherwise.writable

def Stmt.writableAll : List Stmt → Bool
  | [] => true
  | s :: ss => s.writable && Stmt.writableAll ss

end

mutual

/-- A statement with its lines forgotten. -/
@[simp] def Stmt.unlined : Stmt → Stmt
  | .expr value => .expr value.unlined
  | .print value => .print value.unlined
  | .var name initial => .var name.unlined (initial.map Expr.unlined)
  | .block body => .block (Stmt.unlinedAll body)
  | .cond condition body otherwise =>
    .cond condition.unlined (Stmt.unlinedAll body) otherwise.unlined
  | .loop condition body => .loop condition.unlined (Stmt.unlinedAll body)
  | .forIn _ name start stop body =>
    .forIn 0 name.unlined start.unlined (stop.map Expr.unlined) (Stmt.unlinedAll body)
  | .breakLoop => .breakLoop
  | .continueLoop => .continueLoop
  | .run => .run
  | .define name params body => .define name.unlined (params.map Word.unlined) (Stmt.unlinedAll body)
  | .ret _ value => .ret 0 (value.map Expr.unlined)
  | .explore _ zone body => .explore 0 zone.unlined (Stmt.unlinedAll body)
  | .throwBall _ target => .throwBall 0 target.unlined

@[simp] def Otherwise.unlined : Otherwise → Otherwise
  | .nothing => .nothing
  | .block body => .block (Stmt.unlinedAll body)
  | .elseIf condition body otherwise =>
    .elseIf condition.unlined (Stmt.unlinedAll body) otherwise.unlined

def Stmt.unlinedAll : List Stmt → List Stmt
  | [] => []
  | s :: ss => s.unlined :: Stmt.unlinedAll ss

end

namespace Program

/-- The tokens that a program is written with. -/
def written (program : Program) : List TokenKind :=
  Stmt.writtenAll program.statements

/-- All constants of a program are such that a token stands for them. -/
def writable (program : Program) : Bool :=
  Stmt.writableAll program.statements

/-- A program with its lines forgotten. -/
def unlined (program : Program) : Program :=
  ⟨Stmt.unlinedAll program.statements⟩

end Program
end SafariScript
