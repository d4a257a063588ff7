import SafariScript.Proofs.Words

/-!
# The variables of a tree

The variables whose value a tree takes, one for each expression that is a name (`Expr.variables`, `Stmt.variables`). In
a tree that is derived from the grammar each of them is an identifier among the tokens (`Forms.variables`), so it is
never spelled as a keyword: a function of that name is called by no script.
-/

namespace SafariScript

mutual

/-- The variables whose value an expression takes. -/
def Expr.variables : Expr → List Word
  | .literal _ => []
  | .ident name => [name]
  | .unary _ _ operand => operand.variables
  | .binary left _ _ right => left.variables ++ right.variables
  | .assign _ value => value.variables
  | .property object _ => object.variables
  | .setProperty object _ value => object.variables ++ value.variables
  | .array elements => Expr.variablesAll elements
  | .element array _ index => array.variables ++ index.variables
  | .setElement array _ index value => array.variables ++ index.variables ++ value.variables
  | .call callee _ arguments named =>
    callee.variables ++ (Expr.variablesAll arguments ++ NamedArg.variablesAll named)
  | .method object _ arguments named =>
    object.variables ++ (Expr.variablesAll arguments ++ NamedArg.variablesAll named)
  | .construct _ _ arguments named => Expr.variablesAll arguments ++ NamedArg.variablesAll named

/-- The variables of a list of expressions. -/
def Expr.variablesAll : List Expr → List Word
  | [] => []
  | e :: es => e.variables ++ Expr.variablesAll es

/-- The variables of a named argument. -/
def NamedArg.variables : NamedArg → List Word
  | .mk _ value => value.variables

/-- The variables of a list of named arguments. -/
def NamedArg.variablesAll : List NamedArg → List Word
  | [] => []
  | a :: as => a.variables ++ NamedArg.variablesAll as

end

/-- The variables of an expression that may be left out. -/
def Expr.variablesOption : Option Expr → List Word
  | none => []
  | some e => e.variables

mutual

/-- The variables whose value a statement takes. -/
def Stmt.variables : Stmt → List Word
  | .expr value | .print value => value.variables
  | .var _ initial => Expr.variablesOption initial
  | .block body => Stmt.variablesAll body
  | .cond condition body otherwise =>
    condition.variables ++ (Stmt.variablesAll body ++ otherwise.variables)
  | .loop condition body => condition.variables ++ Stmt.variablesAll body
  | .forIn _ _ start stop body =>
    start.variables ++ (Expr.variablesOption stop ++ Stmt.variablesAll body)
  | .breakLoop | .continueLoop | .run => []
  | .define _ _ body => Stmt.variablesAll body
  | .ret _ value => Expr.variablesOption value
  | .explore _ _ body => Stmt.variablesAll body
  | .throwBall _ target => target.variables

/-- The variables of what follows the first block of an `if` statement. -/
def Otherwise.variables : Otherwise → List Word
  | .nothing => []
  | .block body => Stmt.variablesAll body
  | .elseIf condition body otherwise =>
    condition.variables ++ (Stmt.variablesAll body ++ otherwise.variables)

/-- The variables of a list of statements. -/
def Stmt.variablesAll : List Stmt → List Word
  | [] => []
  | s :: ss => s.variables ++ Stmt.variablesAll ss

end

/-- The variables of a program. -/
def Program.variables (program : Program) : List Word :=
  Stmt.variablesAll program.statements

namespace Grammar

/-- The variables of the arguments of a call. -/
def argumentVariables (items : List (Expr ⊕ NamedArg)) : List Word :=
  Expr.variablesAll (positional items) ++ NamedArg.variablesAll (named items)

/-- The variables of a tree that a rule gives. -/
def Rule.variables : (rule : Rule) → rule.Tree → List Word
  | .primary, e | .suffixed _, e | .unary, e | .tier _, e | .assignment, e => Expr.variables e
  | .argument, .inl e => e.variables
  | .argument, .inr a => a.variables
  | .someArguments, items | .arguments, items => argumentVariables items
  | .someElements, es | .elements, es => Expr.variablesAll es

theorem argumentVariables_cons (item : Expr ⊕ NamedArg) (items : List (Expr ⊕ NamedArg)) :
    argumentVariables (item :: items) ⊆ Rule.variables .argument item ++ argumentVariables items := by
  intro word hword
  simp only [argumentVariables, positional, named, List.filterMap_cons, List.mem_append] at hword ⊢
  cases item with
  | inl e =>
      simp only [Sum.getLeft?, Sum.getRight?, Expr.variablesAll, List.mem_append] at hword
      exact or_assoc.1 hword
  | inr a =>
      simp only [Sum.getLeft?, Sum.getRight?, NamedArg.variablesAll, List.mem_append] at hword
      exact or_left_comm.1 hword

/-- The variables of an expression are identifiers among the tokens it is derived from. -/
theorem Derives.variables {rule : Rule} {ts : List Token} {tree : rule.Tree} (h : Derives rule ts tree) :
    ∀ word ∈ rule.variables tree, Token.name word ∈ ts := by
  induction h with
  | number | text | truth | falsehood | null | noArguments | noElements =>
      exact fun word hword => absurd hword List.not_mem_nil
  | ident name =>
      intro word hword
      rw [List.mem_singleton.1 hword]
      exact List.mem_singleton.2 rfl
  | bare _ ih | operand _ ih | tightest _ ih | tighter _ ih | value _ ih | byPosition _ _ ih | elementList _ ih
  | argumentList _ ih => exact ih
  | lastArgument last ih =>
      intro word hword
      rcases List.mem_append.1 (argumentVariables_cons _ _ hword) with hfirst | hothers
      · exact ih word hfirst
      · cases hothers
  | nextArgument l first others ihfirst ihothers =>
      intro word hword
      rw [List.mem_append, List.mem_cons]
      rcases List.mem_append.1 (argumentVariables_cons _ _ hword) with hfirst | hothers
      · exact .inl (ihfirst word hfirst)
      · exact .inr (.inr (ihothers word hothers))
  | _ =>
      simp only [Rule.variables, Expr.variables, NamedArg.variables, Expr.variablesAll, argumentVariables,
        List.mem_append, List.mem_cons] at *
      grind

/-- So are those of a simple statement. -/
theorem Simple.variables {around : Surroundings} {ts : List Token} {s : Stmt} (h : Simple around ts s) :
    ∀ word ∈ s.variables, Token.name word ∈ ts := by
  cases h with
  | expr value => exact value.variables
  | var | breakLoop | continueLoop | run => exact fun word hword => absurd hword List.not_mem_nil
  | print _ _ _ value | varInitial _ _ _ value | ret _ value | throwBall _ _ _ value =>
      intro word hword
      simp [value.variables word hword]

/-- The variables of a tree that a rule for statements gives. -/
def StmtRule.variables : (rule : StmtRule) → rule.Tree → List Word
  | .statement, s => Stmt.variables s
  | .statements, ss | .block, ss => Stmt.variablesAll ss
  | .otherwise, o => Otherwise.variables o

/-- The variables of statements are identifiers among the tokens they are derived from. -/
theorem Forms.variables {rule : StmtRule} {around : Surroundings} {ts rest : List Token} {tree : rule.Tree}
    (h : Forms rule around ts rest tree) : ∀ word ∈ rule.variables tree, Token.name word ∈ ts := by
  induction h with
  | simple body _ =>
      intro word hword
      exact List.mem_append_left _ (body.variables word hword)
  | bareReturn | nothing | nil => exact fun word hword => absurd hword List.not_mem_nil
  | block _ ih => exact ih
  | cond _ _ _ condition | loop _ _ _ condition | forEach _ _ _ condition | elseIf _ _ _ _ condition =>
      have hcondition := condition.variables
      simp only [Rule.variables, StmtRule.variables, Stmt.variables, Otherwise.variables, Expr.variablesOption,
        List.mem_append, List.mem_cons] at *
      grind
  | forRange _ _ _ _ first last _ ih =>
      have hfirst := first.variables
      have hlast := last.variables
      simp only [Rule.variables, StmtRule.variables, Stmt.variables, Expr.variablesOption, List.mem_append,
        List.mem_cons] at *
      grind
  | _ =>
      simp only [StmtRule.variables, Stmt.variables, Otherwise.variables, Stmt.variablesAll, List.mem_append,
        List.mem_cons] at *
      grind

/-- The variables of a script are identifiers among its tokens. -/
theorem Script.variables {interactive : Bool} {tokens : List Token} {program : Program}
    (h : Script interactive tokens program) : ∀ word ∈ program.variables, Token.name word ∈ tokens :=
  Forms.variables h

end Grammar
end SafariScript
