import SafariScript.Program

/-!
# Syntax trees as text

A tree is shown one node a line, parts of a node that are not trees themselves standing behind its name
and each group of subtrees in brackets, one step further to the right. Lines of the source are not shown.
-/

namespace SafariScript
namespace Display

/-- Four blanks for each step to the right; none before the first step. -/
def indent (depth : Int) : String :=
  String.ofList (List.replicate (4 * depth.toNat) ' ')

/-- A part of a node, shown behind the node's name. -/
def part (name value : String) : String :=
  name ++ "=" ++ value

/-- A part that is a word of the source. -/
def wordPart (name word : String) : String :=
  part name (Text.quoted word)

/-- A group of subtrees that are already shown one step further to the right. -/
def group (depth : Int) (name : String) : List String → List String
  | [] => []
  | children => [name ++ "=[\n" ++ ",\n".intercalate children ++ "\n" ++ indent depth ++ "]"]

/-- A node with its parts and groups; what is left out gives no item. -/
def node (depth : Int) (name : String) (items : List String) : String :=
  indent depth ++ name ++ "(" ++ ", ".intercalate items ++ ")"

end Display

open Display

mutual

/-- Show an expression. -/
def Expr.display (depth : Int) : Expr → String
  | .literal value => node depth "LiteralExpr" [part "value" value.display]
  | .ident name => node depth "VariableExpr" [wordPart "name" name.text]
  | .unary op _ operand =>
    node depth "UnaryExpr"
      (wordPart "operator" op.spelling :: group depth "operand" [operand.display (depth + 1)])
  | .binary left op _ right =>
    node depth "BinaryExpr"
      (wordPart "operator" op.spelling :: (group depth "left" [left.display (depth + 1)]
        ++ group depth "right" [right.display (depth + 1)]))
  | .assign name value =>
    node depth "AssignExpr"
      (wordPart "equals" "=" ::
        (group depth "target" [node (depth + 1) "VariableExpr" [wordPart "name" name.text]]
          ++ group depth "value" [value.display (depth + 1)]))
  | .property object name =>
    node depth "PropertyAccessExpr"
      (wordPart "name" name.text :: part "arrow" "False" ::
        group depth "obj" [object.display (depth + 1)])
  | .setProperty object name value =>
    node depth "AssignExpr"
      (wordPart "equals" "=" ::
        (group depth "target" [node (depth + 1) "PropertyAccessExpr"
            (wordPart "name" name.text :: part "arrow" "False" ::
              group (depth + 1) "obj" [object.display (depth + 2)])]
          ++ group depth "value" [value.display (depth + 1)]))
  | .array elements =>
    node depth "ArrayLiteralExpr"
      (wordPart "bracket" "[" :: group depth "elements" (Expr.displayAll (depth + 1) elements))
  | .element array _ index =>
    node depth "ArrayAccessExpr"
      (wordPart "bracket" "]" :: (group depth "array" [array.display (depth + 1)]
        ++ group depth "index" [index.display (depth + 1)]))
  | .setElement array _ index value =>
    node depth "ArrayAssignExpr"
      (wordPart "bracket" "]" :: (group depth "array" [array.display (depth + 1)]
        ++ group depth "index" [index.display (depth + 1)]
        ++ group depth "value" [value.display (depth + 1)]))
  | .call callee _ arguments named =>
    node depth "CallExpr"
      (wordPart "paren" ")" :: (group depth "callee" [callee.display (depth + 1)]
        ++ group depth "arguments" (Expr.displayAll (depth + 1) arguments)
        ++ group depth "named_arguments" (NamedArg.displayAll (depth + 1) named)))
  | .method object name arguments named =>
    node depth "CallExpr"
      (wordPart "paren" ")" ::
        (group depth "callee" [node (depth + 1) "PropertyAccessExpr"
            (wordPart "name" name.text :: part "arrow" "True" ::
              group (depth + 1) "obj" [object.display (depth + 2)])]
          ++ group depth "arguments" (Expr.displayAll (depth + 1) arguments)
          ++ group depth "named_arguments" (NamedArg.displayAll (depth + 1) named)))
  | .construct maker _ arguments named =>
    node depth "CallExpr"
      (wordPart "paren" ")" ::
        (group depth "callee" [node (depth + 1) "VariableExpr" [wordPart "name" maker.spelling]]
          ++ group depth "arguments" (Expr.displayAll (depth + 1) arguments)
          ++ group depth "named_arguments" (NamedArg.displayAll (depth + 1) named)))

/-- Show the expressions of a list. -/
def Expr.displayAll (depth : Int) : List Expr → List String
  | [] => []
  | e :: es => e.display depth :: Expr.displayAll depth es

/-- Show a named argument. -/
def NamedArg.display (depth : Int) : NamedArg → String
  | .mk name value =>
    node depth "NamedArg"
      (wordPart "name" name.text :: group depth "value" [value.display (depth + 1)])

/-- Show the named arguments of a list. -/
def NamedArg.displayAll (depth : Int) : List NamedArg → List String
  | [] => []
  | a :: as => a.display depth :: NamedArg.displayAll depth as

end

namespace Display

/-- Show an expression that may be left out. -/
def optional (depth : Int) : Option Expr → List String
  | none => []
  | some e => [e.display depth]

/-- The parameter names of a function; no parameters give no part. -/
def params : List Word → List String
  | [] => []
  | names => [part "params" ("[" ++ ", ".intercalate (names.map fun n => Text.quoted n.text) ++ "]")]

end Display

mutual

/-- Show a statement. -/
def Stmt.display (depth : Int) : Stmt → String
  | .expr value => node depth "ExprStmt" (group depth "expression" [value.display (depth + 1)])
  | .print value =>
    node depth "PrintStmt"
      (wordPart "keyword" "print" :: group depth "expression" [value.display (depth + 1)])
  | .var name initial =>
    node depth "VarDeclStmt"
      (wordPart "name" name.text :: group depth "initializer" (optional (depth + 1) initial))
  | .block body => node depth "Block" (group depth "statements" (Stmt.displayAll (depth + 1) body))
  | .cond condition body otherwise =>
    node depth "IfStmt"
      (wordPart "keyword" "if" :: (group depth "condition" [condition.display (depth + 1)]
        ++ group depth "then_branch" [node (depth + 1) "Block"
            (group (depth + 1) "statements" (Stmt.displayAll (depth + 2) body))]
        ++ group depth "else_branch" (otherwise.display (depth + 1))))
  | .loop condition body =>
    node depth "WhileStmt"
      (wordPart "keyword" "while" :: (group depth "condition" [condition.display (depth + 1)]
        ++ group depth "body" [node (depth + 1) "Block"
            (group (depth + 1) "statements" (Stmt.displayAll (depth + 2) body))]))
  | .forIn _ name start stop body =>
    node depth "ForStmt"
      (wordPart "keyword" "for" :: wordPart "variable" name.text ::
        ((if stop.isNone then [part "end" "None"] else [])
          ++ group depth "start" [start.display (depth + 1)]
          ++ group depth "end" (optional (depth + 1) stop)
          ++ group depth "body" [node (depth + 1) "Block"
              (group (depth + 1) "statements" (Stmt.displayAll (depth + 2) body))]))
  | .breakLoop => node depth "BreakStmt" [wordPart "keyword" "break"]
  | .continueLoop => node depth "ContinueStmt" [wordPart "keyword" "continue"]
  | .run => node depth "RunStmt" [wordPart "keyword" "run"]
  | .define name params body =>
    node depth "DefineStmt"
      (wordPart "name" name.text :: (Display.params params
        ++ group depth "body" [node (depth + 1) "Block"
            (group (depth + 1) "statements" (Stmt.displayAll (depth + 2) body))]))
  | .ret _ value =>
    node depth "ReturnStmt"
      (wordPart "keyword" "return" :: group depth "value" (optional (depth + 1) value))
  | .explore _ zone body =>
    node depth "ExploreStmt"
      (wordPart "keyword" "explore" :: wordPart "zone" zone.text ::
        group depth "body" [node (depth + 1) "Block"
            (group (depth + 1) "statements" (Stmt.displayAll (depth + 2) body))])
  | .throwBall _ target =>
    node depth "ThrowBallStmt"
      (wordPart "keyword" "throwBall" :: group depth "target" [target.display (depth + 1)])

/-- Show what follows the first block of an `if` statement. -/
def Otherwise.display (depth : Int) : Otherwise → List String
  | .nothing => []
  | .block body => [node depth "Block" (group depth "statements" (Stmt.displayAll (depth + 1) body))]
  | .elseIf condition body otherwise =>
    [node depth "IfStmt"
      (wordPart "keyword" "if" :: (group depth "condition" [condition.display (depth + 1)]
        ++ group depth "then_branch" [node (depth + 1) "Block"
            (group (depth + 1) "statements" (Stmt.displayAll (depth + 2) body))]
        ++ group depth "else_branch" (otherwise.display (depth + 1))))]

/-- Show the statements of a list. -/
def Stmt.displayAll (depth : Int) : List Stmt → List String
  | [] => []
  | s :: ss => s.display depth :: Stmt.displayAll depth ss

end

/-- Show a program. -/
def Program.display (depth : Int) (p : Program) : String :=
  node depth "Program" (group depth "statements" (Stmt.displayAll (depth + 1) p.statements))

end SafariScript
