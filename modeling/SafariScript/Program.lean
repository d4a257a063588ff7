import SafariScript.Literal
import SafariScript.Word

/-!
# Programs

The syntax tree of a script. A tree can only be built in the shapes that the grammar has: an assignment
has a variable, a property or an array element on its left, a method or a constructor always comes with
its arguments, and bodies are lists of statements. The lines and words kept in a tree are those at which
a problem can be reported when the script runs.
-/

namespace SafariScript

/-- Operators before an operand. -/
inductive UnaryOp where
  | not
  | negate
deriving DecidableEq, Inhabited, Repr

/-- The spelling of an operator. -/
def UnaryOp.spelling : UnaryOp → String
  | .not => "!"
  | .negate => "-"

/-- Operators between two integers. -/
inductive IntOp where
  | less
  | lessEqual
  | greater
  | greaterEqual
  | subtract
  | multiply
  | divide
  | remainder
deriving DecidableEq, Inhabited, Repr

namespace IntOp

/-- The spelling of an operator. -/
def spelling : IntOp → String
  | .less => "<"
  | .lessEqual => "<="
  | .greater => ">"
  | .greaterEqual => ">="
  | .subtract => "-"
  | .multiply => "*"
  | .divide => "/"
  | .remainder => "%"

/-- How loosely an operator binds. -/
def rank : IntOp → Nat
  | .multiply | .divide | .remainder => 0
  | .subtract => 1
  | .less | .lessEqual | .greater | .greaterEqual => 2

end IntOp

/-- Operators between two operands. Only integers can be the operands of an integer operator. -/
inductive BinaryOp where
  | or
  | and
  | equal
  | notEqual
  | add
  | int (op : IntOp)
deriving DecidableEq, Inhabited, Repr

namespace BinaryOp

/-- The spelling of an operator. -/
def spelling : BinaryOp → String
  | .or => "||"
  | .and => "&&"
  | .equal => "=="
  | .notEqual => "!="
  | .add => "+"
  | .int op => op.spelling

/-- How loosely an operator binds; operators of one rank associate to the left. -/
def rank : BinaryOp → Nat
  | .int op => op.rank
  | .add => 1
  | .equal | .notEqual => 3
  | .and => 4
  | .or => 5

end BinaryOp

/-- The kinds of object that a script can construct. -/
inductive Maker where
  | safariZone
  | team
deriving DecidableEq, Inhabited, Repr

/-- The spelling of a constructor. -/
def Maker.spelling : Maker → String
  | .safariZone => "SafariZone"
  | .team => "Team"

mutual

/-- Expressions. -/
inductive Expr where
  | literal (value : Literal)
  /-- The value of a variable. -/
  | ident (name : Word)
  | unary (op : UnaryOp) (line : Int) (operand : Expr)
  | binary (left : Expr) (op : BinaryOp) (line : Int) (right : Expr)
  /-- Assignment to a variable. -/
  | assign (name : Word) (value : Expr)
  | property (object : Expr) (name : Word)
  /-- Assignment to a property. -/
  | setProperty (object : Expr) (name : Word) (value : Expr)
  | array (elements : List Expr)
  /-- An element of an array or string, with the line of the closing bracket. -/
  | element (array : Expr) (line : Int) (index : Expr)
  /-- Assignment to an array element, with the line of the closing bracket. -/
  | setElement (array : Expr) (line : Int) (index : Expr) (value : Expr)
  /-- A function call, with the line of the closing parenthesis. -/
  | call (callee : Expr) (line : Int) (arguments : List Expr) (named : List NamedArg)
  /-- A method call on an object. -/
  | method (object : Expr) (name : Word) (arguments : List Expr) (named : List NamedArg)
  /-- The construction of an object, with the line of the constructor's name. -/
  | construct (maker : Maker) (line : Int) (arguments : List Expr) (named : List NamedArg)

/-- An argument that is given by the name of its parameter. -/
inductive NamedArg where
  | mk (name : Word) (value : Expr)

end

instance : Inhabited Expr := ⟨.literal .null⟩

namespace NamedArg

/-- The parameter that a named argument is for. -/
def name : NamedArg → Word
  | .mk name _ => name

/-- The expression of a named argument. -/
def value : NamedArg → Expr
  | .mk _ value => value

end NamedArg

mutual

/-- Statements. -/
inductive Stmt where
  | expr (value : Expr)
  | print (value : Expr)
  | var (name : Word) (initial : Option Expr)
  | block (body : List Stmt)
  | cond (condition : Expr) (body : List Stmt) (otherwise : Otherwise)
  /-- A loop that goes on while its condition holds. -/
  | loop (condition : Expr) (body : List Stmt)
  /-- A loop over the items of `start`, or over the integers from `start` to `stop`. -/
  | forIn (line : Int) (name : Word) (start : Expr) (stop : Option Expr) (body : List Stmt)
  | breakLoop
  | continueLoop
  | run
  | define (name : Word) (params : List Word) (body : List Stmt)
  | ret (line : Int) (value : Option Expr)
  | explore (line : Int) (zone : Word) (body : List Stmt)
  | throwBall (line : Int) (target : Expr)

/-- What follows the first block of an `if` statement. -/
inductive Otherwise where
  | nothing
  | block (body : List Stmt)
  | elseIf (condition : Expr) (body : List Stmt) (otherwise : Otherwise)

end

instance : Inhabited Stmt := ⟨.breakLoop⟩

/-- A whole script. -/
structure Program where
  statements : List Stmt

end SafariScript
