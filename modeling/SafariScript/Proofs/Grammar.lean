import SafariScript.Parser.Statement

/-!
# The grammar

Which lists of tokens are scripts, and the tree each of them stands for, said by rules that do not mention
the parser. The rules for expressions are those of `Derives`: a rule, the tokens it derives, and the tree
of the derivation. Parentheses leave no node in the tree. The rules for statements are those of `Forms`;
they also say what stands around a statement, since that decides where `break`, `continue` and `run` may
stand, and what follows it, since that decides whether a semicolon may be left out.

Three restrictions are part of the rules:

* an argument that starts with an identifier and an equals sign is a named argument (`startsNamed`);
* a property is not followed by the arguments of a call: `Rule.suffixed` keeps whether the last suffix is a
  property, and `Derives.call` asks for one that is not;
* only a variable, a property or an array element stands in front of an equals sign (`Derives.assign`,
  `Derives.setProperty`, `Derives.setElement`).
-/

namespace SafariScript

/-- A symbol on a line. -/
abbrev Token.symbol (symbol : Symbol) (line : Int) : Token := ⟨.symbol symbol, line⟩

/-- A keyword on a line. -/
abbrev Token.keyword (keyword : Keyword) (line : Int) : Token := ⟨.keyword keyword, line⟩

/-- An identifier where a word stands. -/
abbrev Token.name (name : Word) : Token := ⟨.ident name.text, name.line⟩

/-- The symbol of an operator before an operand. -/
def UnaryOp.symbol : UnaryOp → Symbol
  | .not => .bang
  | .negate => .minus

/-- The symbol of an operator between two operands. -/
def BinaryOp.symbol : BinaryOp → Symbol
  | .or => .or
  | .and => .and
  | .equal => .equalEqual
  | .notEqual => .bangEqual
  | .add => .plus
  | .int .less => .less
  | .int .lessEqual => .lessEqual
  | .int .greater => .greater
  | .int .greaterEqual => .greaterEqual
  | .int .subtract => .minus
  | .int .multiply => .star
  | .int .divide => .slash
  | .int .remainder => .percent

/-- The keyword of a constructor. -/
def Maker.keyword : Maker → Keyword
  | .safariZone => .safariZoneKw
  | .team => .teamKw

namespace Grammar

/-- The operators of each tier, from the tightest to the loosest. -/
def operators : Nat → List BinaryOp
  | 0 => [.int .multiply, .int .divide, .int .remainder]
  | 1 => [.add, .int .subtract]
  | 2 => [.int .less, .int .lessEqual, .int .greater, .int .greaterEqual]
  | 3 => [.equal, .notEqual]
  | 4 => [.and]
  | 5 => [.or]
  | _ => []

/-- The rules for expressions and lists of them. -/
inductive Rule where
  | primary
  /-- A primary with its suffixes; `dotted` if the last one is a property. -/
  | suffixed (dotted : Bool)
  | unary
  /-- Operands with the operators of the tiers below a bound between them. -/
  | tier (bound : Nat)
  | assignment
  | argument
  /-- One or more arguments. -/
  | someArguments
  /-- Any number of arguments. -/
  | arguments
  /-- One or more elements of an array. -/
  | someElements
  /-- Any number of elements of an array. -/
  | elements

/-- The trees that a rule gives. -/
abbrev Rule.Tree : Rule → Type
  | .argument => Expr ⊕ NamedArg
  | .someArguments => List (Expr ⊕ NamedArg)
  | .arguments => List (Expr ⊕ NamedArg)
  | .someElements => List Expr
  | .elements => List Expr
  | _ => Expr

/-- Tokens that start as a named argument does. -/
def startsNamed : List Token → Bool
  | ⟨.ident _, _⟩ :: ⟨.symbol .equal, _⟩ :: _ => true
  | _ => false

/-- The arguments of a call that are given by position, in order. -/
abbrev positional (items : List (Expr ⊕ NamedArg)) : List Expr := items.filterMap Sum.getLeft?

/-- The arguments of a call that are given by name, in order. -/
abbrev named (items : List (Expr ⊕ NamedArg)) : List NamedArg := items.filterMap Sum.getRight?

/-- Tokens derived from a rule for expressions, with the tree of the derivation. -/
inductive Derives : (rule : Rule) → List Token → rule.Tree → Prop
  -- primaries
  | number (digits : String) (line : Int) :
      Derives .primary [⟨.number digits, line⟩] (Expr.literal (.int (digitsValue digits.toList)))
  | text (raw : String) (line : Int) :
      Derives .primary [⟨.text raw, line⟩]
        (Expr.literal (.text (String.ofList (unescape raw.toList))))
  | truth (line : Int) :
      Derives .primary [.keyword .trueKw line] (Expr.literal (.bool true))
  | falsehood (line : Int) :
      Derives .primary [.keyword .falseKw line] (Expr.literal (.bool false))
  | null (line : Int) :
      Derives .primary [.keyword .nullKw line] (Expr.literal .null)
  | ident (name : Word) :
      Derives .primary [.name name] (Expr.ident name)
  | construct {ts : List Token} {items : List (Expr ⊕ NamedArg)} (maker : Maker) (line l r : Int)
      (arguments : Derives .arguments ts items) :
      Derives .primary
        (.keyword maker.keyword line :: .symbol .leftParen l :: (ts ++ [.symbol .rightParen r]))
        (Expr.construct maker line (positional items) (named items))
  | group {ts : List Token} {e : Expr} (l r : Int) (inner : Derives .assignment ts e) :
      Derives .primary (.symbol .leftParen l :: (ts ++ [.symbol .rightParen r])) e
  | array {ts : List Token} {es : List Expr} (l r : Int) (elements : Derives .elements ts es) :
      Derives .primary (.symbol .leftBracket l :: (ts ++ [.symbol .rightBracket r])) (Expr.array es)
  -- suffixes
  | bare {ts : List Token} {e : Expr} (primary : Derives .primary ts e) :
      Derives (.suffixed false) ts e
  | call {ts us : List Token} {callee : Expr} {items : List (Expr ⊕ NamedArg)} (l line : Int)
      (front : Derives (.suffixed false) ts callee) (arguments : Derives .arguments us items) :
      Derives (.suffixed false) (ts ++ .symbol .leftParen l :: (us ++ [.symbol .rightParen line]))
        (Expr.call callee line (positional items) (named items))
  | property {dotted : Bool} {ts : List Token} {object : Expr} (l : Int) (name : Word)
      (front : Derives (.suffixed dotted) ts object) :
      Derives (.suffixed true) (ts ++ [.symbol .dot l, .name name]) (Expr.property object name)
  | method {dotted : Bool} {ts us : List Token} {object : Expr} {items : List (Expr ⊕ NamedArg)}
      (l : Int) (name : Word) (l' r : Int)
      (front : Derives (.suffixed dotted) ts object) (arguments : Derives .arguments us items) :
      Derives (.suffixed false)
        (ts ++ .symbol .arrow l :: .name name :: .symbol .leftParen l' ::
          (us ++ [.symbol .rightParen r]))
        (Expr.method object name (positional items) (named items))
  | element {dotted : Bool} {ts us : List Token} {array index : Expr} (l line : Int)
      (front : Derives (.suffixed dotted) ts array) (inner : Derives .assignment us index) :
      Derives (.suffixed false) (ts ++ .symbol .leftBracket l :: (us ++ [.symbol .rightBracket line]))
        (Expr.element array line index)
  -- operators
  | operand {dotted : Bool} {ts : List Token} {e : Expr} (front : Derives (.suffixed dotted) ts e) :
      Derives .unary ts e
  | unary {ts : List Token} {e : Expr} (op : UnaryOp) (line : Int) (operand : Derives .unary ts e) :
      Derives .unary (.symbol op.symbol line :: ts) (Expr.unary op line e)
  | tightest {ts : List Token} {e : Expr} (operand : Derives .unary ts e) :
      Derives (.tier 0) ts e
  | tighter {bound : Nat} {ts : List Token} {e : Expr} (operand : Derives (.tier bound) ts e) :
      Derives (.tier (bound + 1)) ts e
  | binary {bound : Nat} {ts us : List Token} {left right : Expr} (op : BinaryOp) (line : Int)
      (tier : op ∈ operators bound) (first : Derives (.tier (bound + 1)) ts left)
      (second : Derives (.tier bound) us right) :
      Derives (.tier (bound + 1)) (ts ++ .symbol op.symbol line :: us) (Expr.binary left op line right)
  -- assignments
  | value {ts : List Token} {e : Expr} (operand : Derives (.tier 6) ts e) :
      Derives .assignment ts e
  | assign {dotted : Bool} {ts us : List Token} {name : Word} {value : Expr} (l : Int)
      (target : Derives (.suffixed dotted) ts (Expr.ident name)) (right : Derives .assignment us value) :
      Derives .assignment (ts ++ .symbol .equal l :: us) (Expr.assign name value)
  | setProperty {dotted : Bool} {ts us : List Token} {object : Expr} {name : Word} {value : Expr}
      (l : Int) (target : Derives (.suffixed dotted) ts (Expr.property object name))
      (right : Derives .assignment us value) :
      Derives .assignment (ts ++ .symbol .equal l :: us) (Expr.setProperty object name value)
  | setElement {dotted : Bool} {ts us : List Token} {array index value : Expr} {line : Int} (l : Int)
      (target : Derives (.suffixed dotted) ts (Expr.element array line index))
      (right : Derives .assignment us value) :
      Derives .assignment (ts ++ .symbol .equal l :: us) (Expr.setElement array line index value)
  -- arguments and elements
  | byPosition {ts : List Token} {e : Expr} (unnamed : startsNamed ts = false)
      (inner : Derives .assignment ts e) :
      Derives .argument ts (Sum.inl e)
  | byName {ts : List Token} {e : Expr} (name : Word) (l : Int) (inner : Derives .assignment ts e) :
      Derives .argument (.name name :: .symbol .equal l :: ts) (Sum.inr (.mk name e))
  | lastArgument {ts : List Token} {item : Expr ⊕ NamedArg} (last : Derives .argument ts item) :
      Derives .someArguments ts [item]
  | nextArgument {ts us : List Token} {item : Expr ⊕ NamedArg} {items : List (Expr ⊕ NamedArg)}
      (l : Int) (first : Derives .argument ts item) (others : Derives .someArguments us items) :
      Derives .someArguments (ts ++ .symbol .comma l :: us) (item :: items)
  | noArguments :
      Derives .arguments [] []
  | argumentList {ts : List Token} {items : List (Expr ⊕ NamedArg)}
      (list : Derives .someArguments ts items) :
      Derives .arguments ts items
  | lastElement {ts : List Token} {e : Expr} (last : Derives .assignment ts e) :
      Derives .someElements ts [e]
  | nextElement {ts us : List Token} {e : Expr} {es : List Expr}
      (l : Int) (first : Derives .assignment ts e) (others : Derives .someElements us es) :
      Derives .someElements (ts ++ .symbol .comma l :: us) (e :: es)
  | noElements :
      Derives .elements [] []
  | elementList {ts : List Token} {es : List Expr} (list : Derives .someElements ts es) :
      Derives .elements ts es

/-- The kinds of token that an expression can start with. -/
def startsExpression : TokenKind → Bool
  | .number _ | .text _ | .ident _ => true
  | .keyword .trueKw | .keyword .falseKw | .keyword .nullKw => true
  | .keyword .safariZoneKw | .keyword .teamKw => true
  | .symbol .leftParen | .symbol .leftBracket | .symbol .bang | .symbol .minus => true
  | _ => false

/-- The rules that also derive no tokens at all. -/
def Rule.mayBeEmpty : Rule → Bool
  | .arguments | .elements => true
  | _ => false

/-- Whatever is derived from a rule for expressions starts as an expression does. -/
theorem Derives.exists_head {rule : Rule} {ts : List Token} {tree : rule.Tree}
    (h : Derives rule ts tree) (hrule : rule.mayBeEmpty = false) :
    ∃ t us, ts = t :: us ∧ startsExpression t.kind = true := by
  induction h with
  | construct maker => cases maker <;> exact ⟨_, _, rfl, rfl⟩
  | unary op => cases op <;> exact ⟨_, _, rfl, rfl⟩
  | noArguments => simp [Rule.mayBeEmpty] at hrule
  | argumentList => simp [Rule.mayBeEmpty] at hrule
  | noElements => simp [Rule.mayBeEmpty] at hrule
  | elementList => simp [Rule.mayBeEmpty] at hrule
  | bare _ ih | operand _ ih | tightest _ ih | tighter _ ih | value _ ih | byPosition _ _ ih
  | lastArgument _ ih | lastElement _ ih => exact ih rfl
  | property _ _ _ ih =>
      obtain ⟨t, us, rfl, ht⟩ := ih rfl
      exact ⟨t, _, rfl, ht⟩
  | call _ _ _ _ ih | method _ _ _ _ _ _ ih | element _ _ _ _ ih | binary _ _ _ _ _ ih | assign _ _ _ ih
  | setProperty _ _ _ ih | setElement _ _ _ ih | nextArgument _ _ _ ih | nextElement _ _ _ ih =>
      obtain ⟨t, us, rfl, ht⟩ := ih rfl
      exact ⟨t, _, rfl, ht⟩
  | _ => exact ⟨_, _, rfl, rfl⟩

/-- One or more items with commas between them. -/
inductive Separated {α : Type} (Item : List Token → α → Prop) : List Token → List α → Prop
  | last {ts : List Token} {a : α} (last : Item ts a) : Separated Item ts [a]
  | next {ts us : List Token} {a : α} {others : List α} (l : Int) (first : Item ts a)
      (rest : Separated Item us others) :
      Separated Item (ts ++ .symbol .comma l :: us) (a :: others)

theorem Separated.someElements {ts : List Token} {es : List Expr}
    (h : Separated (Derives .assignment) ts es) : Derives .someElements ts es := by
  induction h with
  | last last => exact .lastElement last
  | next l first _ ih => exact .nextElement l first ih

theorem Separated.someArguments {ts : List Token} {items : List (Expr ⊕ NamedArg)}
    (h : Separated (Derives .argument) ts items) : Derives .someArguments ts items := by
  induction h with
  | last last => exact .lastArgument last
  | next l first _ ih => exact .nextArgument l first ih

/-- The line of the last of some tokens, or the given line if there are none. -/
def linePast (line : Int) (ts : List Token) : Int :=
  ts.foldl (fun _ t => t.line) line

/-- Nothing more stands on a line. -/
def endsLine (line : Int) : List Token → Bool
  | [] => true
  | t :: _ => line < t.line

/-- What may end a simple statement whose last token stands on the given line: a semicolon, or in interactive
use nothing, outside all blocks and at the end of a line, if no semicolon comes next. -/
inductive Terminator (around : Surroundings) (line : Int) : List Token → List Token → Prop
  | semicolon (l : Int) (rest : List Token) : Terminator around line [.symbol .semicolon l] rest
  | lineEnd {rest : List Token} (interactive : around.interactive = true)
      (outside : around.inBlock = false) (ends : endsLine line rest = true)
      (missing : rest.head?.map Token.kind ≠ some (.symbol .semicolon)) :
      Terminator around line [] rest

/-- The tokens of a simple statement in front of what ends it. A `return` without a value is not among them,
for only a semicolon ends it. -/
inductive Simple (around : Surroundings) : List Token → Stmt → Prop
  | expr {ts : List Token} {e : Expr} (value : Derives .assignment ts e) : Simple around ts (.expr e)
  | print {ts : List Token} {e : Expr} (l l' r : Int) (value : Derives .assignment ts e) :
      Simple around (.keyword .printKw l :: .symbol .leftParen l' :: (ts ++ [.symbol .rightParen r]))
        (.print e)
  | var (l : Int) (name : Word) : Simple around [.keyword .varKw l, .name name] (.var name none)
  | varInitial {ts : List Token} {e : Expr} (l : Int) (name : Word) (l' : Int)
      (initial : Derives .assignment ts e) :
      Simple around (.keyword .varKw l :: .name name :: .symbol .equal l' :: ts) (.var name (some e))
  | breakLoop (l : Int) (inLoop : around.inLoop = true) :
      Simple around [.keyword .breakKw l] .breakLoop
  | continueLoop (l : Int) (inLoop : around.inLoop = true) :
      Simple around [.keyword .continueKw l] .continueLoop
  | run (l : Int) (inControl : around.inControl = true) : Simple around [.keyword .runKw l] .run
  | ret {ts : List Token} {e : Expr} (line : Int) (value : Derives .assignment ts e) :
      Simple around (.keyword .returnKw line :: ts) (.ret line (some e))
  | throwBall {ts : List Token} {e : Expr} (line l r : Int) (target : Derives .assignment ts e) :
      Simple around
        (.keyword .throwBallKw line :: .symbol .leftParen l :: (ts ++ [.symbol .rightParen r]))
        (.throwBall line e)

/-- The parameters of a function: any number of names. -/
inductive Params : List Token → List Word → Prop
  | none : Params [] []
  | some {ts : List Token} {names : List Word}
      (list : Separated (fun us name => us = [.name name]) ts names) : Params ts names

/-- The rules for statements and lists of them. -/
inductive StmtRule where
  | statement
  /-- Any number of statements. -/
  | statements
  /-- Statements in braces. -/
  | block
  /-- What follows the first block of an `if` statement. -/
  | otherwise

/-- The trees that a rule gives. -/
abbrev StmtRule.Tree : StmtRule → Type
  | .statement => Stmt
  | .statements => List Stmt
  | .block => List Stmt
  | .otherwise => Otherwise

/-- Tokens derived from a rule for statements: what stands around them, the tokens, those that follow, and the
tree of the derivation. -/
inductive Forms : (rule : StmtRule) → Surroundings → List Token → List Token → rule.Tree → Prop
  | simple {around : Surroundings} {ts us rest : List Token} {s : Stmt} (body : Simple around ts s)
      (ends : Terminator around (linePast 0 ts) us rest) :
      Forms .statement around (ts ++ us) rest s
  | bareReturn (around : Surroundings) (line l : Int) (rest : List Token) :
      Forms .statement around [.keyword .returnKw line, .symbol .semicolon l] rest (Stmt.ret line none)
  | block {around : Surroundings} {ts rest : List Token} {body : List Stmt}
      (braces : Forms .block around.block ts rest body) :
      Forms .statement around ts rest (Stmt.block body)
  | cond {around : Surroundings} {cs ts us rest : List Token} {c : Expr} {body : List Stmt}
      {otherwise : Otherwise} (l l' r : Int) (condition : Derives .assignment cs c)
      (first : Forms .block around.control ts (us ++ rest) body)
      (second : Forms .otherwise around us rest otherwise) :
      Forms .statement around
        (.keyword .ifKw l :: .symbol .leftParen l' :: (cs ++ .symbol .rightParen r :: (ts ++ us))) rest
        (Stmt.cond c body otherwise)
  | loop {around : Surroundings} {cs ts rest : List Token} {c : Expr} {body : List Stmt} (l l' r : Int)
      (condition : Derives .assignment cs c) (braces : Forms .block around.loop ts rest body) :
      Forms .statement around
        (.keyword .whileKw l :: .symbol .leftParen l' :: (cs ++ .symbol .rightParen r :: ts)) rest
        (Stmt.loop c body)
  | forEach {around : Surroundings} {es ts rest : List Token} {e : Expr} {body : List Stmt}
      (line : Int) (name : Word) (l : Int) (source : Derives .assignment es e)
      (braces : Forms .block around.loop ts rest body) :
      Forms .statement around (.keyword .forKw line :: .name name :: .keyword .inKw l :: (es ++ ts)) rest
        (Stmt.forIn line name e none body)
  | forRange {around : Surroundings} {es fs ts rest : List Token} {start stop : Expr}
      {body : List Stmt} (line : Int) (name : Word) (l l' : Int) (first : Derives .assignment es start)
      (last : Derives .assignment fs stop) (braces : Forms .block around.loop ts rest body) :
      Forms .statement around
        (.keyword .forKw line :: .name name :: .keyword .inKw l ::
          (es ++ .keyword .toKw l' :: (fs ++ ts))) rest
        (Stmt.forIn line name start (some stop) body)
  | define {around : Surroundings} {ps ts rest : List Token} {params : List Word} {body : List Stmt}
      (l : Int) (name : Word) (l' r : Int) (parameters : Params ps params)
      (braces : Forms .block around.function ts rest body) :
      Forms .statement around
        (.keyword .defineKw l :: .name name :: .symbol .leftParen l' ::
          (ps ++ .symbol .rightParen r :: ts)) rest
        (Stmt.define name params body)
  | explore {around : Surroundings} {ts rest : List Token} {body : List Stmt} (line l : Int)
      (zone : Word) (r : Int) (braces : Forms .block around.loop ts rest body) :
      Forms .statement around
        (.keyword .exploreKw line :: .symbol .leftParen l :: .name zone :: .symbol .rightParen r :: ts)
        rest (Stmt.explore line zone body)
  -- behind the first block of an `if` statement
  | nothing (around : Surroundings) (rest : List Token) :
      Forms .otherwise around [] rest Otherwise.nothing
  | elseBlock {around : Surroundings} {ts rest : List Token} {body : List Stmt} (l : Int)
      (braces : Forms .block around.control ts rest body) :
      Forms .otherwise around (.keyword .elseKw l :: ts) rest (Otherwise.block body)
  | elseIf {around : Surroundings} {cs ts us rest : List Token} {c : Expr} {body : List Stmt}
      {otherwise : Otherwise} (l l' l'' r : Int) (condition : Derives .assignment cs c)
      (first : Forms .block around.control ts (us ++ rest) body)
      (second : Forms .otherwise around us rest otherwise) :
      Forms .otherwise around
        (.keyword .elseKw l :: .keyword .ifKw l' :: .symbol .leftParen l'' ::
          (cs ++ .symbol .rightParen r :: (ts ++ us))) rest
        (Otherwise.elseIf c body otherwise)
  -- blocks
  | braces {around : Surroundings} {ts rest : List Token} {body : List Stmt} (l r : Int)
      (inner : Forms .statements around ts (.symbol .rightBrace r :: rest) body) :
      Forms .block around (.symbol .leftBrace l :: (ts ++ [.symbol .rightBrace r])) rest body
  | nil (around : Surroundings) (rest : List Token) :
      Forms .statements around [] rest ([] : List Stmt)
  | cons {around : Surroundings} {ts us rest : List Token} {s : Stmt} {ss : List Stmt}
      (first : Forms .statement around ts (us ++ rest) s)
      (others : Forms .statements around us rest ss) :
      Forms .statements around (ts ++ us) rest (s :: ss)

/-- The tokens of a whole script. -/
def Script (interactive : Bool) (tokens : List Token) (program : Program) : Prop :=
  Forms .statements { interactive } tokens [] program.statements

end Grammar
end SafariScript
