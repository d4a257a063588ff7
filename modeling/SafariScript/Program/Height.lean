import SafariScript.Program.Display
import SafariScript.Stack

/-!
# The height of syntax trees

How many nodes lie on the longest way down a tree, counted as the tree is shown. Showing a tree takes a
frame of the stack for each of them.
-/

namespace SafariScript

mutual

/-- The height of an expression. -/
def Expr.height : Expr → Nat
  | .literal _ => 1
  | .ident _ => 1
  | .unary _ _ operand => operand.height + 1
  | .binary left _ _ right => max left.height right.height + 1
  | .assign _ value => value.height + 1
  | .property object _ => object.height + 1
  | .setProperty object _ value => max (object.height + 1) value.height + 1
  | .array elements => Expr.heightAll elements + 1
  | .element array _ index => max array.height index.height + 1
  | .setElement array _ index value => max array.height (max index.height value.height) + 1
  | .call callee _ arguments named =>
    max callee.height (max (Expr.heightAll arguments) (NamedArg.heightAll named)) + 1
  | .method object _ arguments named =>
    max (object.height + 1) (max (Expr.heightAll arguments) (NamedArg.heightAll named)) + 1
  | .construct _ _ arguments named =>
    max 1 (max (Expr.heightAll arguments) (NamedArg.heightAll named)) + 1

/-- The greatest height in a list of expressions. -/
def Expr.heightAll : List Expr → Nat
  | [] => 0
  | e :: es => max e.height (Expr.heightAll es)

/-- The height of a named argument. -/
def NamedArg.height : NamedArg → Nat
  | .mk _ value => value.height + 1

/-- The greatest height in a list of named arguments. -/
def NamedArg.heightAll : List NamedArg → Nat
  | [] => 0
  | a :: as => max a.height (NamedArg.heightAll as)

end

/-- The height of an expression that may be left out. -/
def Expr.heightOption : Option Expr → Nat
  | none => 0
  | some e => e.height

mutual

/-- The height of a statement. -/
def Stmt.height : Stmt → Nat
  | .expr value => value.height + 1
  | .print value => value.height + 1
  | .var _ initial => Expr.heightOption initial + 1
  | .block body => Stmt.heightAll body + 1
  | .cond condition body otherwise =>
    max condition.height (max (Stmt.heightAll body + 1) otherwise.height) + 1
  | .loop condition body => max condition.height (Stmt.heightAll body + 1) + 1
  | .forIn _ _ start stop body =>
    max start.height (max (Expr.heightOption stop) (Stmt.heightAll body + 1)) + 1
  | .breakLoop => 1
  | .continueLoop => 1
  | .run => 1
  | .define _ _ body => Stmt.heightAll body + 2
  | .ret _ value => Expr.heightOption value + 1
  | .explore _ _ body => Stmt.heightAll body + 2
  | .throwBall _ target => target.height + 1

/-- The height of what follows the first block of an `if` statement. -/
def Otherwise.height : Otherwise → Nat
  | .nothing => 0
  | .block body => Stmt.heightAll body + 1
  | .elseIf condition body otherwise =>
    max condition.height (max (Stmt.heightAll body + 1) otherwise.height) + 1

/-- The greatest height in a list of statements. -/
def Stmt.heightAll : List Stmt → Nat
  | [] => 0
  | s :: ss => max s.height (Stmt.heightAll ss)

end

namespace Program

/-- The height of a program. -/
def height (p : Program) : Nat :=
  Stmt.heightAll p.statements + 1

/-- Show a program, unless it is too high for the stack. -/
def display? (depth : Int) (p : Program) : Option String :=
  if p.height ≤ stackRoom then some (p.display depth) else none

end Program
end SafariScript
