import SafariScript.Proofs.Grammar

/-!
# The words of a tree

A tree keeps the words at which a problem can be reported when it is run: names as they are, and for an operator, a
bracket, a parenthesis or a keyword its line, since the spelling is told by the node. `Expr.words` and `Stmt.words` list
them. None of them is made up: in a tree that is derived from the grammar each one is the word of a token
(`Forms.words`).
-/

namespace SafariScript

mutual

/-- The words of an expression. -/
def Expr.words : Expr → List Word
  | .literal _ => []
  | .ident name => [name]
  | .unary op line operand => ⟨op.spelling, line⟩ :: operand.words
  | .binary left op line right => ⟨op.spelling, line⟩ :: (left.words ++ right.words)
  | .assign name value => name :: value.words
  | .property object name => name :: object.words
  | .setProperty object name value => name :: (object.words ++ value.words)
  | .array elements => Expr.wordsAll elements
  | .element array line index => ⟨"]", line⟩ :: (array.words ++ index.words)
  | .setElement array line index value => ⟨"]", line⟩ :: (array.words ++ index.words ++ value.words)
  | .call callee line arguments named =>
    ⟨")", line⟩ :: (callee.words ++ (Expr.wordsAll arguments ++ NamedArg.wordsAll named))
  | .method object name arguments named =>
    name :: (object.words ++ (Expr.wordsAll arguments ++ NamedArg.wordsAll named))
  | .construct maker line arguments named =>
    ⟨maker.spelling, line⟩ :: (Expr.wordsAll arguments ++ NamedArg.wordsAll named)

/-- The words of a list of expressions. -/
def Expr.wordsAll : List Expr → List Word
  | [] => []
  | e :: es => e.words ++ Expr.wordsAll es

/-- The words of a named argument. -/
def NamedArg.words : NamedArg → List Word
  | .mk name value => name :: value.words

/-- The words of a list of named arguments. -/
def NamedArg.wordsAll : List NamedArg → List Word
  | [] => []
  | a :: as => a.words ++ NamedArg.wordsAll as

end

/-- The words of an expression that may be left out. -/
def Expr.wordsOption : Option Expr → List Word
  | none => []
  | some e => e.words

mutual

/-- The words of a statement. -/
def Stmt.words : Stmt → List Word
  | .expr value | .print value => value.words
  | .var name initial => name :: Expr.wordsOption initial
  | .block body => Stmt.wordsAll body
  | .cond condition body otherwise => condition.words ++ (Stmt.wordsAll body ++ otherwise.words)
  | .loop condition body => condition.words ++ Stmt.wordsAll body
  | .forIn line name start stop body =>
    ⟨"for", line⟩ :: name :: (start.words ++ (Expr.wordsOption stop ++ Stmt.wordsAll body))
  | .breakLoop | .continueLoop | .run => []
  | .define name params body => name :: (params ++ Stmt.wordsAll body)
  | .ret line value => ⟨"return", line⟩ :: Expr.wordsOption value
  | .explore line zone body => ⟨"explore", line⟩ :: zone :: Stmt.wordsAll body
  | .throwBall line target => ⟨"throwBall", line⟩ :: target.words

/-- The words of what follows the first block of an `if` statement. -/
def Otherwise.words : Otherwise → List Word
  | .nothing => []
  | .block body => Stmt.wordsAll body
  | .elseIf condition body otherwise => condition.words ++ (Stmt.wordsAll body ++ otherwise.words)

/-- The words of a list of statements. -/
def Stmt.wordsAll : List Stmt → List Word
  | [] => []
  | s :: ss => s.words ++ Stmt.wordsAll ss

end

/-- The words of a list are gathered from its elements. -/
theorem words_subset_all {α : Type} {words : α → List Word} {all : List α → List Word}
    (hall : ∀ a as, all (a :: as) = words a ++ all as) {a : α} {as : List α} (ha : a ∈ as) : words a ⊆ all as := by
  induction as with
  | nil => cases ha
  | cons first rest ih =>
      rw [hall]
      rcases List.mem_cons.1 ha with rfl | ha
      · exact List.subset_append_left _ _
      · exact List.Subset.trans (ih ha) (List.subset_append_right _ _)

theorem Expr.words_subset {e : Expr} {es : List Expr} (he : e ∈ es) : e.words ⊆ Expr.wordsAll es :=
  words_subset_all (fun _ _ => rfl) he

theorem NamedArg.words_subset {a : NamedArg} {as : List NamedArg} (ha : a ∈ as) : a.words ⊆ NamedArg.wordsAll as :=
  words_subset_all (fun _ _ => rfl) ha

theorem Stmt.words_subset {s : Stmt} {ss : List Stmt} (hs : s ∈ ss) : s.words ⊆ Stmt.wordsAll ss :=
  words_subset_all (fun _ _ => rfl) hs

/-- The words of a program. -/
def Program.words (program : Program) : List Word :=
  Stmt.wordsAll program.statements

namespace Grammar

theorem word_symbol (symbol : Symbol) (line : Int) : (Token.symbol symbol line).word = ⟨symbol.spelling, line⟩ :=
  rfl

theorem word_keyword (keyword : Keyword) (line : Int) :
    (Token.keyword keyword line).word = ⟨keyword.spelling, line⟩ :=
  rfl

theorem word_name (name : Word) : (Token.name name).word = name :=
  rfl

theorem spelling_unary (op : UnaryOp) : op.symbol.spelling = op.spelling := by
  cases op <;> rfl

theorem spelling_binary (op : BinaryOp) : op.symbol.spelling = op.spelling := by
  cases op with
  | int op => cases op <;> rfl
  | _ => rfl

theorem spelling_maker (maker : Maker) : maker.keyword.spelling = maker.spelling := by
  cases maker <;> rfl

/-- The words of the arguments of a call. -/
def argumentWords (items : List (Expr ⊕ NamedArg)) : List Word :=
  Expr.wordsAll (positional items) ++ NamedArg.wordsAll (named items)

/-- The words of a tree that a rule gives. -/
def Rule.words : (rule : Rule) → rule.Tree → List Word
  | .primary, e | .suffixed _, e | .unary, e | .tier _, e | .assignment, e => Expr.words e
  | .argument, .inl e => e.words
  | .argument, .inr a => a.words
  | .someArguments, items | .arguments, items => argumentWords items
  | .someElements, es | .elements, es => Expr.wordsAll es

theorem argumentWords_cons (item : Expr ⊕ NamedArg) (items : List (Expr ⊕ NamedArg)) :
    argumentWords (item :: items) ⊆ Rule.words .argument item ++ argumentWords items := by
  intro word hword
  simp only [argumentWords, positional, named, List.filterMap_cons, List.mem_append] at hword ⊢
  cases item with
  | inl e =>
      simp only [Sum.getLeft?, Sum.getRight?, Expr.wordsAll, List.mem_append] at hword
      exact or_assoc.1 hword
  | inr a =>
      simp only [Sum.getLeft?, Sum.getRight?, NamedArg.wordsAll, List.mem_append] at hword
      exact or_left_comm.1 hword

/-- The words of an expression are those of tokens it is derived from. -/
theorem Derives.words {rule : Rule} {ts : List Token} {tree : rule.Tree} (h : Derives rule ts tree) :
    ∀ word ∈ rule.words tree, word ∈ ts.map Token.word := by
  induction h with
  | number | text | truth | falsehood | null | noArguments | noElements =>
      exact fun word hword => absurd hword List.not_mem_nil
  | bare _ ih | operand _ ih | tightest _ ih | tighter _ ih | value _ ih | byPosition _ _ ih | elementList _ ih
  | argumentList _ ih => exact ih
  | lastArgument last ih =>
      intro word hword
      rcases List.mem_append.1 (argumentWords_cons _ _ hword) with hfirst | hothers
      · exact ih word hfirst
      · cases hothers
  | nextArgument l first others ihfirst ihothers =>
      intro word hword
      rw [List.map_append, List.map_cons, List.mem_append, List.mem_cons]
      rcases List.mem_append.1 (argumentWords_cons _ _ hword) with hfirst | hothers
      · exact .inl (ihfirst word hfirst)
      · exact .inr (.inr (ihothers word hothers))
  | _ =>
      simp only [Rule.words, Expr.words, NamedArg.words, Expr.wordsAll, List.map_append, List.map_cons,
        List.mem_append, List.mem_cons, word_name, word_symbol, word_keyword, spelling_unary, spelling_binary,
        spelling_maker] at *
      grind [Symbol.spelling, argumentWords]

/-- So are those of a simple statement. -/
theorem Simple.words {around : Surroundings} {ts : List Token} {s : Stmt} (h : Simple around ts s) :
    ∀ word ∈ s.words, word ∈ ts.map Token.word := by
  cases h with
  | expr value => exact value.words
  | breakLoop | continueLoop | run => exact fun word hword => absurd hword List.not_mem_nil
  | var l name =>
      intro word hword
      obtain rfl := List.mem_singleton.1 hword
      exact List.mem_cons_of_mem _ List.mem_cons_self
  | print l l' r value | varInitial l name l' value | ret line value | throwBall line l r value =>
      have hvalue := value.words
      simp only [Rule.words, Stmt.words, Expr.wordsOption, List.map_append, List.map_cons, List.mem_append,
        List.mem_cons, word_name, word_symbol, word_keyword] at hvalue ⊢
      grind [Keyword.spelling]

theorem Params.words {ts : List Token} {params : List Word} (h : Params ts params) :
    ∀ word ∈ params, word ∈ ts.map Token.word := by
  cases h with
  | none => exact fun word hword => absurd hword List.not_mem_nil
  | some list =>
      induction list with
      | last last =>
          intro word hword
          obtain rfl := List.mem_singleton.1 hword
          rw [last]
          exact List.mem_singleton.2 rfl
      | next l first rest ih =>
          intro word hword
          rw [List.map_append, List.map_cons, List.mem_append, List.mem_cons, first]
          rcases List.mem_cons.1 hword with rfl | hword
          · exact .inl (List.mem_singleton.2 rfl)
          · exact .inr (.inr (ih word hword))

/-- The words of a tree that a rule for statements gives. -/
def StmtRule.words : (rule : StmtRule) → rule.Tree → List Word
  | .statement, s => Stmt.words s
  | .statements, ss | .block, ss => Stmt.wordsAll ss
  | .otherwise, o => Otherwise.words o

/-- The words of statements are those of tokens they are derived from. -/
theorem Forms.words {rule : StmtRule} {around : Surroundings} {ts rest : List Token} {tree : rule.Tree}
    (h : Forms rule around ts rest tree) : ∀ word ∈ rule.words tree, word ∈ ts.map Token.word := by
  induction h with
  | simple body ends =>
      intro word hword
      rw [List.map_append, List.mem_append]
      exact .inl (body.words word hword)
  | nothing | nil => exact fun word hword => absurd hword List.not_mem_nil
  | block _ ih => exact ih
  | bareReturn around line l rest =>
      intro word hword
      obtain rfl := List.mem_singleton.1 hword
      exact List.mem_cons_self
  | cond l l' r condition _ _ _ _ | loop l l' r condition _ _ | forEach line name l condition _ _
  | elseIf l l' l'' r condition _ _ _ _ =>
      have hcondition := condition.words
      simp only [Rule.words, StmtRule.words, Stmt.words, Otherwise.words, Expr.wordsOption, List.map_append,
        List.map_cons, List.mem_append, List.mem_cons, word_name, word_symbol, word_keyword] at *
      grind [Keyword.spelling]
  | forRange line name l l' first last _ ih =>
      have hfirst := first.words
      have hlast := last.words
      simp only [Rule.words, StmtRule.words, Stmt.words, Expr.wordsOption, List.map_append, List.map_cons,
        List.mem_append, List.mem_cons, word_name, word_keyword] at *
      grind [Keyword.spelling]
  | define l name l' r parameters _ ih =>
      have hparameters := parameters.words
      simp only [StmtRule.words, Stmt.words, List.map_append, List.map_cons, List.mem_append, List.mem_cons,
        word_name] at *
      grind
  | _ =>
      simp only [StmtRule.words, Stmt.words, Otherwise.words, Stmt.wordsAll, List.map_append, List.map_cons,
        List.mem_append, List.mem_cons, word_name, word_keyword] at *
      grind [Keyword.spelling]

/-- The words of a script are those of its tokens. -/
theorem Script.words {interactive : Bool} {tokens : List Token} {program : Program}
    (h : Script interactive tokens program) : ∀ word ∈ program.words, word ∈ tokens.map Token.word :=
  Forms.words h

end Grammar
end SafariScript
