import SafariScript.Proofs.Display.Tree
import SafariScript.Proofs.Variables
import SafariScript.Proofs.Written

/-!
# Syntax trees as trees of labels

The display of a program leaves out what is empty and looks at whether there is something to separate. The tree of
labels behind it is built node by node (`Expr.tree`, `Stmt.tree`), with an item for every part and group that is not
left out, and the display is its text (`Program.text_tree`). Each way of building a node has a lemma about its text
from the texts of its subtrees.
-/

namespace SafariScript
namespace Display

/-! ## Items -/

/-- A part of a node. -/
def Item.part (name : Label) (value : Literal) : Item :=
  .mk name (.literal value)

/-- A part that is a word of the source. -/
def Item.word (name : Label) (word : String) : Item :=
  .part name (.text word)

/-- A part that is a list of words; no words give no part. -/
def Item.ofWords (name : Label) : List String → List Item
  | [] => []
  | word :: others => [.mk name (.words word others)]

/-- A group of subtrees; no subtrees give no group. -/
def Item.ofTrees (name : Label) : List Tree → List Item
  | [] => []
  | t :: ts => [.mk name (.group t ts)]

/-- A variable. -/
@[simp] def Tree.variable (name : String) : Tree :=
  .node (.named "VariableExpr") [Item.word (.named "name") name]

/-- A property of an object, or a method of it if an arrow stands in front of the name. -/
@[simp] def Tree.property (name : String) (arrow : Bool) (object : Tree) : Tree :=
  .node (.named "PropertyAccessExpr")
    (Item.word (.named "name") name :: Item.part (.named "arrow") (.bool arrow) :: Item.ofTrees (.named "obj") [object])

/-- An assignment. -/
@[simp] def Tree.assign (target value : Tree) : Tree :=
  .node (.named "AssignExpr")
    (Item.word (.named "equals") "=" ::
      (Item.ofTrees (.named "target") [target] ++ Item.ofTrees (.named "value") [value]))

/-- A call. -/
@[simp] def Tree.call (callee : Tree) (arguments named : List Tree) : Tree :=
  .node (.named "CallExpr")
    (Item.word (.named "paren") ")" ::
      (Item.ofTrees (.named "callee") [callee] ++ Item.ofTrees (.named "arguments") arguments
        ++ Item.ofTrees (.named "named_arguments") named))

/-- A block of statements. -/
@[simp] def Tree.block (statements : List Tree) : Tree :=
  .node (.named "Block") (Item.ofTrees (.named "statements") statements)

/-- An `if` statement. -/
@[simp] def Tree.cond (condition body : Tree) (otherwise : List Tree) : Tree :=
  .node (.named "IfStmt")
    (Item.word (.named "keyword") "if" ::
      (Item.ofTrees (.named "condition") [condition] ++ Item.ofTrees (.named "then_branch") [body]
        ++ Item.ofTrees (.named "else_branch") otherwise))

end Display

open Display

mutual

/-- The tree of an expression. -/
def Expr.tree : Expr → Tree
  | .literal value => .node (.named "LiteralExpr") [Item.part (.named "value") value]
  | .ident name => .variable name.text
  | .unary op _ operand =>
    .node (.named "UnaryExpr")
      (Item.word (.named "operator") op.spelling :: Item.ofTrees (.named "operand") [operand.tree])
  | .binary left op _ right =>
    .node (.named "BinaryExpr")
      (Item.word (.named "operator") op.spelling ::
        (Item.ofTrees (.named "left") [left.tree] ++ Item.ofTrees (.named "right") [right.tree]))
  | .assign name value => .assign (.variable name.text) value.tree
  | .property object name => .property name.text false object.tree
  | .setProperty object name value => .assign (.property name.text false object.tree) value.tree
  | .array elements =>
    .node (.named "ArrayLiteralExpr")
      (Item.word (.named "bracket") "[" :: Item.ofTrees (.named "elements") (Expr.trees elements))
  | .element array _ index =>
    .node (.named "ArrayAccessExpr")
      (Item.word (.named "bracket") "]" ::
        (Item.ofTrees (.named "array") [array.tree] ++ Item.ofTrees (.named "index") [index.tree]))
  | .setElement array _ index value =>
    .node (.named "ArrayAssignExpr")
      (Item.word (.named "bracket") "]" ::
        (Item.ofTrees (.named "array") [array.tree] ++ Item.ofTrees (.named "index") [index.tree]
          ++ Item.ofTrees (.named "value") [value.tree]))
  | .call callee _ arguments named => .call callee.tree (Expr.trees arguments) (NamedArg.trees named)
  | .method object name arguments named =>
    .call (.property name.text true object.tree) (Expr.trees arguments) (NamedArg.trees named)
  | .construct maker _ arguments named =>
    .call (.variable maker.spelling) (Expr.trees arguments) (NamedArg.trees named)

/-- The trees of the expressions of a list. -/
def Expr.trees : List Expr → List Tree
  | [] => []
  | e :: es => e.tree :: Expr.trees es

/-- The tree of a named argument. -/
def NamedArg.tree : NamedArg → Tree
  | .mk name value =>
    .node (.named "NamedArg") (Item.word (.named "name") name.text :: Item.ofTrees (.named "value") [value.tree])

/-- The trees of the named arguments of a list. -/
def NamedArg.trees : List NamedArg → List Tree
  | [] => []
  | a :: as => a.tree :: NamedArg.trees as

end

/-- The tree of an expression that may be left out. -/
def Expr.treeOption : Option Expr → List Tree
  | none => []
  | some e => [e.tree]

mutual

/-- The tree of a statement. -/
def Stmt.tree : Stmt → Tree
  | .expr value => .node (.named "ExprStmt") (Item.ofTrees (.named "expression") [value.tree])
  | .print value =>
    .node (.named "PrintStmt")
      (Item.word (.named "keyword") "print" :: Item.ofTrees (.named "expression") [value.tree])
  | .var name initial =>
    .node (.named "VarDeclStmt")
      (Item.word (.named "name") name.text :: Item.ofTrees (.named "initializer") (Expr.treeOption initial))
  | .block body => .block (Stmt.trees body)
  | .cond condition body otherwise => .cond condition.tree (.block (Stmt.trees body)) otherwise.trees
  | .loop condition body =>
    .node (.named "WhileStmt")
      (Item.word (.named "keyword") "while" ::
        (Item.ofTrees (.named "condition") [condition.tree]
          ++ Item.ofTrees (.named "body") [.block (Stmt.trees body)]))
  | .forIn _ name start stop body =>
    .node (.named "ForStmt")
      (Item.word (.named "keyword") "for" :: Item.word (.named "variable") name.text ::
        ((if stop.isNone then [Item.part (.named "end") .null] else [])
          ++ Item.ofTrees (.named "start") [start.tree]
          ++ Item.ofTrees (.named "end") (Expr.treeOption stop)
          ++ Item.ofTrees (.named "body") [.block (Stmt.trees body)]))
  | .breakLoop => .node (.named "BreakStmt") [Item.word (.named "keyword") "break"]
  | .continueLoop => .node (.named "ContinueStmt") [Item.word (.named "keyword") "continue"]
  | .run => .node (.named "RunStmt") [Item.word (.named "keyword") "run"]
  | .define name params body =>
    .node (.named "DefineStmt")
      (Item.word (.named "name") name.text ::
        (Item.ofWords (.named "params") (params.map Word.text)
          ++ Item.ofTrees (.named "body") [.block (Stmt.trees body)]))
  | .ret _ value =>
    .node (.named "ReturnStmt")
      (Item.word (.named "keyword") "return" :: Item.ofTrees (.named "value") (Expr.treeOption value))
  | .explore _ zone body =>
    .node (.named "ExploreStmt")
      (Item.word (.named "keyword") "explore" :: Item.word (.named "zone") zone.text ::
        Item.ofTrees (.named "body") [.block (Stmt.trees body)])
  | .throwBall _ target =>
    .node (.named "ThrowBallStmt")
      (Item.word (.named "keyword") "throwBall" :: Item.ofTrees (.named "target") [target.tree])

/-- The tree of what follows the first block of an `if` statement, if anything does. -/
def Otherwise.trees : Otherwise → List Tree
  | .nothing => []
  | .block body => [.block (Stmt.trees body)]
  | .elseIf condition body otherwise => [.cond condition.tree (.block (Stmt.trees body)) otherwise.trees]

/-- The trees of the statements of a list. -/
def Stmt.trees : List Stmt → List Tree
  | [] => []
  | s :: ss => s.tree :: Stmt.trees ss

end

/-- The tree of a program. -/
def Program.tree (program : Program) : Tree :=
  .node (.named "Program") (Item.ofTrees (.named "statements") (Stmt.trees program.statements))

/-! ## The display is the text of the tree -/

namespace Display

/-- Strings that are shown one after the other are the texts of some things. -/
def Shows {α : Type} (text : α → List Char) (as : List α) (shown : List String) : Prop :=
  as.map text = shown.map String.toList

section Shows

variable {α : Type} {text : α → List Char} {depth : Int}

theorem shows_nil : Shows text ([] : List α) [] :=
  rfl

theorem shows_cons {a : α} {as : List α} {s : String} {shown : List String} (ha : text a = s.toList)
    (has : Shows text as shown) : Shows text (a :: as) (s :: shown) :=
  congrArg₂ List.cons ha has

theorem shows_singleton {a : α} {s : String} (ha : text a = s.toList) : Shows text [a] [s] :=
  shows_cons ha shows_nil

theorem shows_append {as bs : List α} {shown shown' : List String} (has : Shows text as shown)
    (hbs : Shows text bs shown') : Shows text (as ++ bs) (shown ++ shown') := by
  rw [Shows, List.map_append, List.map_append, has, hbs]

theorem text_node {name : Label} {items : List Item} {shown : List String}
    (h : Shows (Item.text depth) items shown) :
    (Tree.node name items).text depth = (node depth name.text shown).toList := by
  have hitems : items.map (Item.text depth) = shown.map String.toList := h
  simp [Tree.text, node, hitems]

theorem text_word {name : Label} {word : String} :
    (Item.word name word).text depth = (wordPart name.text word).toList := by
  simp [Item.word, Item.part, Item.text, Content.text, wordPart, part, Literal.display]

theorem text_part {name : Label} {value : Literal} :
    (Item.part name value).text depth = (part name.text value.display).toList := by
  simp [Item.part, Item.text, Content.text, part]

theorem shows_group {name : Label} {trees : List Tree} {shown : List String}
    (h : Shows (Tree.text (depth + 1)) trees shown) :
    Shows (Item.text depth) (Item.ofTrees name trees) (group depth name.text shown) := by
  have htrees : trees.map (Tree.text (depth + 1)) = shown.map String.toList := h
  cases trees with
  | nil =>
      obtain rfl := List.map_eq_nil_iff.1 htrees.symm
      exact shows_nil
  | cons t ts =>
      cases shown with
      | nil => cases htrees
      | cons s shown =>
          rw [List.map_cons, List.map_cons] at htrees
          apply shows_singleton
          simp [Item.text, Content.text, htrees]

theorem text_variable {name : String} :
    (Tree.variable name).text depth = (node depth "VariableExpr" [wordPart "name" name]).toList :=
  text_node (shows_singleton text_word)

theorem text_property {name : String} {arrow : Bool} {object : Tree} {shown : String}
    (h : object.text (depth + 1) = shown.toList) :
    (Tree.property name arrow object).text depth =
      (node depth "PropertyAccessExpr"
        (wordPart "name" name :: part "arrow" (Literal.bool arrow).display :: group depth "obj" [shown])).toList :=
  text_node (shows_cons text_word (shows_cons text_part (shows_group (shows_singleton h))))

theorem text_assign {target value : Tree} {shown shown' : String} (htarget : target.text (depth + 1) = shown.toList)
    (hvalue : value.text (depth + 1) = shown'.toList) :
    (Tree.assign target value).text depth =
      (node depth "AssignExpr"
        (wordPart "equals" "=" :: (group depth "target" [shown] ++ group depth "value" [shown']))).toList :=
  text_node (shows_cons text_word
    (shows_append (shows_group (shows_singleton htarget)) (shows_group (shows_singleton hvalue))))

theorem text_call {callee : Tree} {arguments named : List Tree} {shown : String} {shown' shown'' : List String}
    (hcallee : callee.text (depth + 1) = shown.toList) (harguments : Shows (Tree.text (depth + 1)) arguments shown')
    (hnamed : Shows (Tree.text (depth + 1)) named shown'') :
    (Tree.call callee arguments named).text depth =
      (node depth "CallExpr"
        (wordPart "paren" ")" :: (group depth "callee" [shown] ++ group depth "arguments" shown'
          ++ group depth "named_arguments" shown''))).toList :=
  text_node (shows_cons text_word (shows_append
    (shows_append (shows_group (shows_singleton hcallee)) (shows_group harguments)) (shows_group hnamed)))

theorem text_block {trees : List Tree} {shown : List String} (h : Shows (Tree.text (depth + 1)) trees shown) :
    (Tree.block trees).text depth = (node depth "Block" (group depth "statements" shown)).toList :=
  text_node (shows_group h)

/-- The block of a statement. -/
theorem text_body {trees : List Tree} {shown : List String} (h : Shows (Tree.text (depth + 2)) trees shown) :
    (Tree.block trees).text (depth + 1) =
      (node (depth + 1) "Block" (group (depth + 1) "statements" shown)).toList :=
  text_block (by rwa [Int.add_assoc])

theorem shows_body {name : Label} {trees : List Tree} {shown : List String}
    (h : Shows (Tree.text (depth + 2)) trees shown) :
    Shows (Item.text depth) (Item.ofTrees name [.block trees])
      (group depth name.text [node (depth + 1) "Block" (group (depth + 1) "statements" shown)]) :=
  shows_group (shows_singleton (text_body h))

theorem text_cond {condition : Tree} {body otherwise : List Tree} {shown : String} {shown' shown'' : List String}
    (hcondition : condition.text (depth + 1) = shown.toList) (hbody : Shows (Tree.text (depth + 2)) body shown')
    (hotherwise : Shows (Tree.text (depth + 1)) otherwise shown'') :
    (Tree.cond condition (.block body) otherwise).text depth =
      (node depth "IfStmt"
        (wordPart "keyword" "if" :: (group depth "condition" [shown]
          ++ group depth "then_branch" [node (depth + 1) "Block" (group (depth + 1) "statements" shown')]
          ++ group depth "else_branch" shown''))).toList :=
  text_node (shows_cons text_word (shows_append
    (shows_append (shows_group (shows_singleton hcondition)) (shows_body hbody)) (shows_group hotherwise)))

theorem shows_params (params : List Word) :
    Shows (Item.text depth) (Item.ofWords (.named "params") (params.map Word.text)) (Display.params params) := by
  cases params with
  | nil => exact shows_nil
  | cons word params =>
      apply shows_singleton
      simp [Item.text, Content.text, part, Function.comp_def]

end Shows

end Display

mutual

theorem Expr.text_tree (depth : Int) : (e : Expr) → e.tree.text depth = (e.display depth).toList
  | .literal _ => text_node (shows_singleton text_part)
  | .ident _ => text_variable
  | .unary _ _ operand =>
      text_node (shows_cons text_word (shows_group (shows_singleton (operand.text_tree (depth + 1)))))
  | .binary left _ _ right =>
      text_node (shows_cons text_word (shows_append (shows_group (shows_singleton (left.text_tree (depth + 1))))
        (shows_group (shows_singleton (right.text_tree (depth + 1))))))
  | .assign _ value => text_assign text_variable (value.text_tree (depth + 1))
  | .property object _ => text_property (object.text_tree (depth + 1))
  | .setProperty object _ value =>
      text_assign (text_property (by rw [Int.add_assoc]; exact object.text_tree (depth + 2)))
        (value.text_tree (depth + 1))
  | .array elements =>
      text_node (shows_cons text_word (shows_group (Expr.shows_trees (depth + 1) elements)))
  | .element array _ index =>
      text_node (shows_cons text_word (shows_append (shows_group (shows_singleton (array.text_tree (depth + 1))))
        (shows_group (shows_singleton (index.text_tree (depth + 1))))))
  | .setElement array _ index value =>
      text_node (shows_cons text_word (shows_append (shows_append
          (shows_group (shows_singleton (array.text_tree (depth + 1))))
          (shows_group (shows_singleton (index.text_tree (depth + 1)))))
        (shows_group (shows_singleton (value.text_tree (depth + 1))))))
  | .call callee _ arguments named =>
      text_call (callee.text_tree (depth + 1)) (Expr.shows_trees (depth + 1) arguments)
        (NamedArg.shows_trees (depth + 1) named)
  | .method object _ arguments named =>
      text_call (text_property (by rw [Int.add_assoc]; exact object.text_tree (depth + 2)))
        (Expr.shows_trees (depth + 1) arguments) (NamedArg.shows_trees (depth + 1) named)
  | .construct _ _ arguments named =>
      text_call text_variable (Expr.shows_trees (depth + 1) arguments) (NamedArg.shows_trees (depth + 1) named)

theorem Expr.shows_trees (depth : Int) :
    (es : List Expr) → Shows (Tree.text depth) (Expr.trees es) (Expr.displayAll depth es)
  | [] => shows_nil
  | e :: es => shows_cons (e.text_tree depth) (Expr.shows_trees depth es)

theorem NamedArg.text_tree (depth : Int) : (a : NamedArg) → a.tree.text depth = (a.display depth).toList
  | .mk _ value =>
      text_node (shows_cons text_word (shows_group (shows_singleton (value.text_tree (depth + 1)))))

theorem NamedArg.shows_trees (depth : Int) :
    (as : List NamedArg) → Shows (Tree.text depth) (NamedArg.trees as) (NamedArg.displayAll depth as)
  | [] => shows_nil
  | a :: as => shows_cons (a.text_tree depth) (NamedArg.shows_trees depth as)

end

theorem Expr.shows_treeOption (depth : Int) (value : Option Expr) :
    Shows (Tree.text depth) (Expr.treeOption value) (Display.optional depth value) := by
  cases value with
  | none => exact shows_nil
  | some e => exact shows_singleton (e.text_tree depth)

mutual

theorem Stmt.text_tree (depth : Int) : (s : Stmt) → s.tree.text depth = (s.display depth).toList
  | .expr value => text_node (shows_group (shows_singleton (value.text_tree (depth + 1))))
  | .print value =>
      text_node (shows_cons text_word (shows_group (shows_singleton (value.text_tree (depth + 1)))))
  | .var _ initial =>
      text_node (shows_cons text_word (shows_group (Expr.shows_treeOption (depth + 1) initial)))
  | .block body => text_block (Stmt.shows_trees (depth + 1) body)
  | .cond condition body otherwise =>
      text_cond (condition.text_tree (depth + 1)) (Stmt.shows_trees (depth + 2) body)
        (otherwise.shows_trees (depth + 1))
  | .loop condition body =>
      text_node (shows_cons text_word (shows_append
        (shows_group (shows_singleton (condition.text_tree (depth + 1))))
        (shows_body (Stmt.shows_trees (depth + 2) body))))
  | .forIn _ _ start none body =>
      text_node (shows_cons text_word (shows_cons text_word (shows_append (shows_append (shows_append
          (shows_singleton text_part)
          (shows_group (shows_singleton (start.text_tree (depth + 1)))))
          (shows_group shows_nil))
        (shows_body (Stmt.shows_trees (depth + 2) body)))))
  | .forIn _ _ start (some stop) body =>
      text_node (shows_cons text_word (shows_cons text_word (shows_append (shows_append (shows_append
          shows_nil
          (shows_group (shows_singleton (start.text_tree (depth + 1)))))
          (shows_group (shows_singleton (stop.text_tree (depth + 1)))))
        (shows_body (Stmt.shows_trees (depth + 2) body)))))
  | .breakLoop | .continueLoop | .run => text_node (shows_singleton text_word)
  | .define _ params body =>
      text_node (shows_cons text_word (shows_append (shows_params params)
        (shows_body (Stmt.shows_trees (depth + 2) body))))
  | .ret _ value =>
      text_node (shows_cons text_word (shows_group (Expr.shows_treeOption (depth + 1) value)))
  | .explore _ _ body =>
      text_node (shows_cons text_word (shows_cons text_word (shows_body (Stmt.shows_trees (depth + 2) body))))
  | .throwBall _ target =>
      text_node (shows_cons text_word (shows_group (shows_singleton (target.text_tree (depth + 1)))))

theorem Otherwise.shows_trees (depth : Int) :
    (o : Otherwise) → Shows (Tree.text depth) o.trees (o.display depth)
  | .nothing => shows_nil
  | .block body => shows_singleton (text_block (Stmt.shows_trees (depth + 1) body))
  | .elseIf condition body otherwise =>
      shows_singleton (text_cond (condition.text_tree (depth + 1)) (Stmt.shows_trees (depth + 2) body)
        (otherwise.shows_trees (depth + 1)))

theorem Stmt.shows_trees (depth : Int) :
    (ss : List Stmt) → Shows (Tree.text depth) (Stmt.trees ss) (Stmt.displayAll depth ss)
  | [] => shows_nil
  | s :: ss => shows_cons (s.text_tree depth) (Stmt.shows_trees depth ss)

end

/-- The display of a program is the text of its tree. -/
theorem Program.text_tree (depth : Int) (program : Program) :
    program.tree.text depth = (program.display depth).toList :=
  text_node (shows_group (Stmt.shows_trees (depth + 1) program.statements))

end SafariScript
