import SafariScript.Proofs.Parser.ExpressionCompleteness
import SafariScript.Proofs.Parser.Recovery
import SafariScript.Proofs.Parser.StatementSoundness

/-!
# Scripts of the grammar are read

Outside interactive use every statement of the grammar is read as the grammar says, without any problem, if
the bound on the nesting exceeds four times the number of its tokens. `Reached` says this for each rule for
statements; one induction over the derivation proves it for all of them together. With soundness this gives
`exists_parseWithin_iff_script`: a script is read without problems, under some bound on the nesting, exactly
if it is derived from the grammar.
-/

namespace SafariScript
namespace Parser

open Grammar

variable {s s₁ s₂ s' : ParseState}

theorem terminate_reads {l : Int} (around : Surroundings) (position : String)
    (h : s.Reads [.symbol .semicolon l] s') : terminate around position s = .ok () s' := by
  simp only [terminate, bind_apply, accept_reads h]
  rfl

theorem optionalAfter_reads {α : Type} {kind : TokenKind} {l : Int} {part : Parser α} {a : α}
    (hkind : s.Reads [⟨kind, l⟩] s₁) (hpart : part s₁ = .ok a s') :
    optionalAfter kind part s = .ok (some a) s' := by
  simp only [optionalAfter, bind_apply, accept_reads hkind, if_true, map_apply, hpart]

theorem optionalAfter_of_not_sees {α : Type} {kind : TokenKind} {part : Parser α}
    (h : s.sees kind = false) : optionalAfter kind part s = .ok none s := by
  simp only [optionalAfter, bind_apply, accept_of_not_sees h]
  rfl

/-- An expression in front of a token that may stand behind it. -/
theorem expression_reads {size : Nat} {ts us : List Token} {t : Token} {e : Expr}
    (hderives : Derives .assignment ts e) (hsize : ts.length ≤ size) (hreads : s.Reads ts s₁)
    (hrest : s₁.Reads (t :: us) s') (hcloses : closesExpression t.kind = true) :
    expression size s = .ok e s₁ := by
  refine complete_expression size hderives hsize hreads ?_
  rw [hrest.rest]
  exact endsExpression_cons hcloses

/-- An expression in parentheses. -/
theorem condition_reads {size : Nat} {ts : List Token} {e : Expr} {l r : Int} (keyword : String)
    (hderives : Derives .assignment ts e) (hsize : ts.length ≤ size)
    (hreads : s.Reads (.symbol .leftParen l :: (ts ++ [.symbol .rightParen r])) s') :
    condition (expression size) keyword s = .ok e s' := by
  obtain ⟨s₁, hopen, hrest⟩ := hreads.uncons
  obtain ⟨s₂, hinner, hclose⟩ := hrest.split
  simp only [condition, bind_apply, symbol_reads _ hopen, expression_reads hderives hsize hinner hclose rfl,
    symbol_reads _ hclose]
  rfl

/-- Nothing that starts as an expression does is taken for a statement of its own. -/
theorem keyworded_eq_none {around : Surroundings} {bound : Nat} {nested : Parser Expr}
    {body : Surroundings → Parser (List Stmt)} {kind : TokenKind} (h : startsExpression kind = true) :
    keyworded around bound nested body kind = none := by
  unfold keyworded
  split <;> first | rfl | simp [startsExpression] at h

/-- Room for the expressions of a statement. -/
theorem le_expressionRoom {length : Nat} (depth : Nat) (h : 4 * length ≤ depth) :
    length ≤ statementFrames * depth / expressionFrames := by
  unfold statementFrames expressionFrames
  omega

/-! ## Simple statements -/

theorem simple_reads {around : Surroundings} {ts : List Token} {stmt : Stmt} {l : Int} {depth : Nat}
    (hsimple : Simple around ts stmt) (hdepth : 4 * ts.length ≤ depth) (hreads : s.Reads ts s₁)
    (hend : s₁.Reads [.symbol .semicolon l] s') : statement (depth + 1) around s = .ok stmt s' := by
  cases hsimple with
  | expr value =>
      obtain ⟨t, us, rfl, ht⟩ := value.exists_head rfl
      simp only [statement, bind_apply, peek_apply, hreads.head_eq, Option.map_some, Option.bind_some,
        keyworded_eq_none ht, expressionStatement,
        expression_reads value (le_expressionRoom depth hdepth) hreads hend rfl, terminate_reads _ _ hend,
        pure_apply]
  | print _ _ _ value =>
      simp only [List.length_cons, List.length_append] at hdepth
      obtain ⟨s₂, hkeyword, hrest⟩ := hreads.uncons
      obtain ⟨s₃, hopen, hrest'⟩ := hrest.uncons
      obtain ⟨s₄, hinner, hclose⟩ := hrest'.split
      simp only [statement, bind_apply, peek_apply, hreads.head_eq, Option.map_some, Option.bind_some,
        keyworded, advance_reads hkeyword, printing, symbol_reads _ hopen,
        expression_reads value (le_expressionRoom depth (by omega)) hinner hclose rfl, symbol_reads _ hclose,
        terminate_reads _ _ hend, pure_apply]
  | var _ name =>
      obtain ⟨s₂, hkeyword, hname⟩ := hreads.uncons
      have hequal : s₁.sees (.symbol .equal) = false := by simp [hend.sees_eq]
      simp only [statement, bind_apply, peek_apply, hreads.head_eq, Option.map_some, Option.bind_some,
        keyworded, advance_reads hkeyword, varDeclaration, name_reads _ hname,
        optionalAfter_of_not_sees hequal, terminate_reads _ _ hend, pure_apply]
  | varInitial _ name _ initial =>
      simp only [List.length_cons] at hdepth
      obtain ⟨s₂, hkeyword, hrest⟩ := hreads.uncons
      obtain ⟨s₃, hname, hrest'⟩ := hrest.uncons
      obtain ⟨s₄, hequal, hinner⟩ := hrest'.uncons
      have hvalue := expression_reads initial (le_expressionRoom depth (by omega)) hinner hend rfl
      simp only [statement, bind_apply, peek_apply, hreads.head_eq, Option.map_some, Option.bind_some,
        keyworded, advance_reads hkeyword, varDeclaration, name_reads _ hname,
        optionalAfter_reads hequal hvalue, terminate_reads _ _ hend, pure_apply]
  | breakLoop _ hallowed | continueLoop _ hallowed | run _ hallowed =>
      simp only [statement, bind_apply, peek_apply, hreads.head_eq, Option.map_some, Option.bind_some,
        keyworded, advance_reads hreads, lone, terminate_reads _ _ hend, hallowed, Bool.not_true,
        Bool.false_eq_true, if_false, pure_apply]
  | ret line value =>
      simp only [List.length_cons] at hdepth
      obtain ⟨s₂, hkeyword, hinner⟩ := hreads.uncons
      -- a value cannot be mistaken for the end of the statement
      have hsemicolon : s₂.sees (.symbol .semicolon) = false := by
        obtain ⟨t, us, rfl, ht⟩ := value.exists_head rfl
        rw [hinner.sees_eq, beq_eq_false_iff_ne]
        intro hkind
        simp [hkind, startsExpression] at ht
      simp only [statement, bind_apply, peek_apply, hreads.head_eq, Option.map_some, Option.bind_some,
        keyworded, advance_reads hkeyword, returning, returnValue, sees_apply, hsemicolon,
        Bool.false_eq_true, if_false, map_apply,
        expression_reads value (le_expressionRoom depth (by omega)) hinner hend rfl, terminate_reads _ _ hend,
        pure_apply]
  | throwBall line _ _ target =>
      simp only [List.length_cons, List.length_append] at hdepth
      obtain ⟨s₂, hkeyword, hrest⟩ := hreads.uncons
      obtain ⟨s₃, hopen, hrest'⟩ := hrest.uncons
      obtain ⟨s₄, hinner, hclose⟩ := hrest'.split
      simp only [statement, bind_apply, peek_apply, hreads.head_eq, Option.map_some, Option.bind_some,
        keyworded, advance_reads hkeyword, throwing, symbol_reads _ hopen,
        expression_reads target (le_expressionRoom depth (by omega)) hinner hclose rfl, symbol_reads _ hclose,
        terminate_reads _ _ hend, pure_apply]

/-! ## Heads of statements with blocks -/

theorem complete_name (role : String) (size : Nat) :
    Complete (name role) (fun ts word => ts = [.name word]) size EndsExpression := by
  intro ts word s s' hts _ hreads _
  subst hts
  exact name_reads role hreads

theorem signature_reads {name : Word} {params : List Word} {ps : List Token} {l r l' : Int}
    (hparams : Params ps params)
    (hreads : s.Reads (.name name :: .symbol .leftParen l :: (ps ++ [.symbol .rightParen r])) s₁)
    (hopen : s₁.Reads [.symbol .leftBrace l'] s') : signature s = .ok (name, params) s' := by
  obtain ⟨s₂, hname, hrest⟩ := hreads.uncons
  obtain ⟨s₃, hparen, hrest'⟩ := hrest.uncons
  obtain ⟨s₄, hlist, hclose⟩ := hrest'.split
  have hseparated : Separated (fun us name => us = [.name name]) ps params ∨ ps = [] ∧ params = [] := by
    cases hparams with
    | none => exact Or.inr ⟨rfl, rfl⟩
    | some list => exact Or.inl list
  have hhead {us : List Token} {word : Word} (hus : us = [.name word]) :
      ∃ t vs, us = t :: vs ∧ startsExpression t.kind = true :=
    ⟨.name word, [], hus, rfl⟩
  have hnames := listBefore_reads (complete_name "parameter name" ps.length) hhead (Or.inl rfl) hseparated
    (Nat.le_refl _) hlist (by simp [hclose.sees_eq])
  simp only [signature, bind_apply, name_reads _ hname, symbol_reads _ hparen, hnames,
    symbol_reads _ hclose, symbol_reads _ hopen, pure_apply]

theorem exploration_reads {zone : Word} {l r l' : Int}
    (hreads : s.Reads [.symbol .leftParen l, .name zone, .symbol .rightParen r] s₁)
    (hopen : s₁.Reads [.symbol .leftBrace l'] s') : exploration s = .ok zone s' := by
  obtain ⟨s₂, hparen, hrest⟩ := hreads.uncons
  obtain ⟨s₃, hzone, hclose⟩ := hrest.uncons
  simp only [exploration, bind_apply, symbol_reads _ hparen, name_reads _ hzone, symbol_reads _ hclose,
    symbol_reads _ hopen, pure_apply]

theorem iteration_reads_each {size : Nat} {name : Word} {es : List Token} {e : Expr} {l l' : Int}
    (hderives : Derives .assignment es e) (hsize : es.length ≤ size)
    (hreads : s.Reads (.name name :: .keyword .inKw l :: es) s₁)
    (hopen : s₁.Reads [.symbol .leftBrace l'] s') :
    iteration (expression size) s = .ok (name, e, none) s' := by
  obtain ⟨s₂, hname, hrest⟩ := hreads.uncons
  obtain ⟨s₃, hin, hes⟩ := hrest.uncons
  have hto : s₁.sees (.keyword .toKw) = false := by simp [hopen.sees_eq]
  simp only [iteration, bind_apply, name_reads _ hname, expect_reads _ hin,
    expression_reads hderives hsize hes hopen rfl, optionalAfter_of_not_sees hto, symbol_reads _ hopen,
    pure_apply]

theorem iteration_reads_range {size : Nat} {name : Word} {es fs : List Token} {start stop : Expr}
    {l l' l'' : Int} (hstart : Derives .assignment es start) (hstop : Derives .assignment fs stop)
    (hsize : es.length ≤ size) (hsize' : fs.length ≤ size)
    (hreads : s.Reads (.name name :: .keyword .inKw l :: (es ++ .keyword .toKw l' :: fs)) s₁)
    (hopen : s₁.Reads [.symbol .leftBrace l''] s') :
    iteration (expression size) s = .ok (name, start, some stop) s' := by
  obtain ⟨s₂, hname, hrest⟩ := hreads.uncons
  obtain ⟨s₃, hin, hrest'⟩ := hrest.uncons
  obtain ⟨s₄, hes, hrest''⟩ := hrest'.split
  obtain ⟨s₅, hto, hfs⟩ := hrest''.uncons
  have hvalue := expression_reads hstop hsize' hfs hopen rfl
  simp only [iteration, bind_apply, name_reads _ hname, expect_reads _ hin,
    expression_reads hstart hsize hes hto rfl, optionalAfter_reads hto hvalue, symbol_reads _ hopen,
    pure_apply]

/-! ## All statements -/

/-- The tokens behind a list of statements: the brace that closes their block, or none. -/
def Closes (inBlock : Bool) (rest : List Token) : Prop :=
  if inBlock then rest.head?.map Token.kind = some (.symbol .rightBrace) else rest = []

/-- What the parser does on tokens derived from a rule for statements. -/
def Reached : (rule : StmtRule) → Surroundings → List Token → List Token → rule.Tree → Prop
  | .statement, around, ts, rest, stmt => ∀ (depth : Nat) {s s' : ParseState}, 4 * ts.length ≤ depth →
      s.Reads ts s' → s'.rest = rest → s'.sees (.keyword .elseKw) = false →
      statement (depth + 1) around s = .ok stmt s'
  | .statements, around, ts, rest, body => ∀ (inBlock : Bool) (depth : Nat) {fuel : List Token}
      {s s' : ParseState}, 4 * ts.length < depth → s.Reads ts s' → s'.rest = rest → Closes inBlock rest →
      s.rest.length ≤ fuel.length →
      items inBlock (recover inBlock (statement depth around)) fuel s = .ok body s'
  | .block, around, ts, rest, body => ∀ (depth : Nat) {s s' : ParseState}, 4 * ts.length ≤ depth →
      s.Reads ts s' → s'.rest = rest →
      ∃ l s₁, s.Reads [.symbol .leftBrace l] s₁ ∧ block (statement depth around) s₁ = .ok body s'
  | .otherwise, around, ts, rest, otherwise => ∀ (depth size links : Nat) {s s' : ParseState},
      4 * ts.length ≤ depth → ts.length ≤ size → ts.length ≤ links → s.Reads ts s' → s'.rest = rest →
      s'.sees (.keyword .elseKw) = false →
      let body := block (statement depth around.control)
      elseBranch (conditional (expression size) body links) body s = .ok otherwise s'

/-- A statement of the grammar starts neither with `else` nor with a closing brace. -/
theorem exists_statement_head {around : Surroundings} {ts rest : List Token} {stmt : Stmt}
    (h : Forms .statement around ts rest stmt) :
    ∃ t us, ts = t :: us ∧ t.kind ≠ .keyword .elseKw ∧ t.kind ≠ .symbol .rightBrace := by
  cases h with
  | simple body ends =>
      cases body with
      | expr value =>
          obtain ⟨t, us, rfl, ht⟩ := value.exists_head rfl
          refine ⟨t, _, rfl, ?_, ?_⟩ <;> (intro hkind; simp [hkind, startsExpression] at ht)
      | _ => exact ⟨_, _, rfl, by simp, by simp⟩
  | block braces =>
      cases braces with
      | braces l r inner => exact ⟨_, _, rfl, by simp, by simp⟩
  | _ => exact ⟨_, _, rfl, by simp, by simp⟩

/-- Behind a list of statements and what closes it, no `else` comes next, and neither it does in front. -/
theorem not_sees_else {around : Surroundings} {inBlock : Bool} {us rest : List Token} {ss : List Stmt}
    (hothers : Forms .statements around us rest ss) (hcloses : Closes inBlock rest)
    (hs : s.rest = us ++ rest) : s.sees (.keyword .elseKw) = false := by
  rw [ParseState.sees_eq_false_iff, hs]
  cases hothers with
  | nil =>
      cases inBlock with
      | true =>
          have hbrace : rest.head?.map Token.kind = some (.symbol .rightBrace) := hcloses
          simp [hbrace]
      | false =>
          obtain rfl : rest = [] := hcloses
          simp
  | cons first others =>
      obtain ⟨t, vs, rfl, helse, -⟩ := exists_statement_head first
      simpa using helse

theorem block_reads {around : Surroundings} {ts rest : List Token} {body : List Stmt} {l r : Int}
    (hinner : Reached .statements around ts (.symbol .rightBrace r :: rest) body) {depth : Nat}
    (hdepth : 4 * ts.length < depth)
    (hreads : s.Reads (.symbol .leftBrace l :: (ts ++ [.symbol .rightBrace r])) s') (hrest : s'.rest = rest) :
    ∃ l s₁, s.Reads [.symbol .leftBrace l] s₁ ∧ block (statement depth around) s₁ = .ok body s' := by
  obtain ⟨s₁, hopen, hreads'⟩ := hreads.uncons
  obtain ⟨s₂, hts, hclose⟩ := hreads'.split
  have hrest₂ : s₂.rest = .symbol .rightBrace r :: rest := by
    rw [hclose.rest, hrest]
    rfl
  have hbody := hinner true depth hdepth hts hrest₂ rfl (Nat.le_refl _)
  refine ⟨l, s₁, hopen, ?_⟩
  simp only [block, bind_apply, remaining_apply, hbody, symbol_reads _ hclose, pure_apply]

theorem items_reads_nil {inBlock : Bool} {item : Parser (Option Stmt)} (fuel : List Token)
    (hcloses : Closes inBlock s.rest) : items inBlock item fuel s = .ok [] s := by
  cases fuel with
  | nil => rfl
  | cons t fuel =>
      cases inBlock with
      | true =>
          have hbrace : s.rest.head?.map Token.kind = some (.symbol .rightBrace) := hcloses
          simp only [items, bind_apply, peek_apply, hbrace, beq_self_eq_true, Bool.and_self, if_true,
            pure_apply]
      | false =>
          have hnone : s.rest = [] := hcloses
          simp only [items, bind_apply, peek_apply, hnone, List.head?_nil, Option.map_none, pure_apply]

theorem reached_cons {around : Surroundings} {ts us rest : List Token} {stmt : Stmt}
    {stmts : List Stmt} (hfirst : Forms .statement around ts (us ++ rest) stmt)
    (hothers : Forms .statements around us rest stmts)
    (ihfirst : Reached .statement around ts (us ++ rest) stmt)
    (ihothers : Reached .statements around us rest stmts) :
    Reached .statements around (ts ++ us) rest (stmt :: stmts) := by
  intro inBlock depth fuel s s' hdepth hreads hrest hcloses hfuel
  simp only [List.length_append] at hdepth
  obtain ⟨s₁, hts, hus⟩ := hreads.split
  obtain ⟨t, vs, rfl, -, hbrace⟩ := exists_statement_head hfirst
  obtain ⟨u, fuel, rfl, hfuel'⟩ := hts.fuel_cons hfuel
  obtain ⟨depth, rfl⟩ : ∃ d, depth = d + 1 := ⟨depth - 1, by omega⟩
  have hrest₁ : s₁.rest = us ++ rest := by rw [hus.rest, hrest]
  -- behind a statement stands another one or the end of the list, so it cannot go on with `else`
  have hstmt := ihfirst depth (by omega) hts hrest₁ (not_sees_else hothers hcloses hrest₁)
  have hstmts := ihothers inBlock (depth + 1) (by omega) hus hrest hcloses hfuel'
  have hkind : (t.kind == .symbol .rightBrace) = false := beq_eq_false_iff_ne.2 hbrace
  simp only [items, bind_apply, peek_apply, hreads.head_eq, Option.map_some, hkind,
    Bool.and_false, Bool.false_eq_true, if_false, recover_of_ok _ hstmt, hstmts, pure_apply]
  rfl

theorem conditional_reads {around : Surroundings} {cs ts us rest : List Token} {c : Expr} {body : List Stmt}
    {otherwise : Otherwise} {l r : Int} (depth size links : Nat) (hcondition : Derives .assignment cs c)
    (ihfirst : Reached .block around.control ts (us ++ rest) body)
    (ihsecond : Reached .otherwise around us rest otherwise)
    (hdepth : 4 * (cs.length + ts.length + us.length) ≤ depth)
    (hsize : cs.length + ts.length + us.length ≤ size) (hlinks : us.length ≤ links)
    (hreads : s.Reads (.symbol .leftParen l :: (cs ++ .symbol .rightParen r :: (ts ++ us))) s')
    (hrest : s'.rest = rest) (helse : s'.sees (.keyword .elseKw) = false) :
    conditional (expression size) (block (statement depth around.control)) (links + 1) s =
      .ok (c, body, otherwise) s' := by
  obtain ⟨s₁, hhead, htail⟩ : ∃ s₁, s.Reads (.symbol .leftParen l :: (cs ++ [.symbol .rightParen r])) s₁ ∧
      s₁.Reads (ts ++ us) s' := hreads.split_eq (by simp)
  obtain ⟨s₂, hts, hus⟩ := htail.split
  have hrest₂ : s₂.rest = us ++ rest := by rw [hus.rest, hrest]
  obtain ⟨l', s₃, hopen, hbody⟩ := ihfirst depth (by omega) hts hrest₂
  have hotherwise := ihsecond depth size links (by omega) (by omega) hlinks hus hrest helse
  simp only at hotherwise
  simp only [conditional, bind_apply, condition_reads "if" hcondition (Nat.le_trans (by omega) hsize) hhead,
    symbol_reads _ hopen, hbody, hotherwise, pure_apply]

section Blocks

variable {around : Surroundings} {cs es fs ps ts us rest : List Token} {c e start stop : Expr}
  {params : List Word} {body : List Stmt} {otherwise : Otherwise}

theorem reached_cond (l l' r : Int) (hcondition : Derives .assignment cs c)
    (ihfirst : Reached .block around.control ts (us ++ rest) body)
    (ihsecond : Reached .otherwise around us rest otherwise) :
    Reached .statement around
      (.keyword .ifKw l :: .symbol .leftParen l' :: (cs ++ .symbol .rightParen r :: (ts ++ us))) rest
      (Stmt.cond c body otherwise) := by
  intro depth s s' hdepth hreads hrest helse
  simp only [List.length_cons, List.length_append] at hdepth
  obtain ⟨s₁, hkeyword, hreads'⟩ := hreads.uncons
  have hsize : cs.length + ts.length + us.length ≤ statementFrames * depth / expressionFrames :=
    le_expressionRoom depth (by omega)
  -- the chain of `else if` takes one link a frame, and has fewer links than tokens
  obtain ⟨links, hframes, hlinks⟩ : ∃ links, statementFrames * depth = links + 1 ∧ us.length ≤ links :=
    ⟨statementFrames * depth - 1, by unfold statementFrames; omega, by unfold statementFrames; omega⟩
  have hchain := conditional_reads depth _ links hcondition ihfirst ihsecond (by omega) hsize hlinks
    hreads' hrest helse
  rw [← hframes] at hchain
  simp only [statement, bind_apply, peek_apply, hreads.head_eq, Option.map_some, Option.bind_some,
    keyworded, advance_reads hkeyword, hchain, pure_apply]

theorem reached_loop (l l' r : Int) (hcondition : Derives .assignment cs c)
    (ih : Reached .block around.loop ts rest body) :
    Reached .statement around
      (.keyword .whileKw l :: .symbol .leftParen l' :: (cs ++ .symbol .rightParen r :: ts)) rest
      (Stmt.loop c body) := by
  intro depth s s' hdepth hreads hrest _
  simp only [List.length_cons, List.length_append] at hdepth
  obtain ⟨s₁, hkeyword, hreads'⟩ := hreads.uncons
  obtain ⟨s₂, hhead, hts⟩ : ∃ s₂, s₁.Reads (.symbol .leftParen l' :: (cs ++ [.symbol .rightParen r])) s₂ ∧
      s₂.Reads ts s' := hreads'.split_eq (by simp)
  obtain ⟨l'', s₃, hopen, hbody⟩ := ih depth (by omega) hts hrest
  have hvalue := condition_reads "while" hcondition (le_expressionRoom depth (by omega)) hhead
  simp only [statement, bind_apply, peek_apply, hreads.head_eq, Option.map_some, Option.bind_some,
    keyworded, advance_reads hkeyword, hvalue, symbol_reads _ hopen, hbody, pure_apply]

theorem reached_forEach (line : Int) (name : Word) (l : Int) (hsource : Derives .assignment es e)
    (ih : Reached .block around.loop ts rest body) :
    Reached .statement around (.keyword .forKw line :: .name name :: .keyword .inKw l :: (es ++ ts)) rest
      (Stmt.forIn line name e none body) := by
  intro depth s s' hdepth hreads hrest _
  simp only [List.length_cons, List.length_append] at hdepth
  obtain ⟨s₁, hkeyword, hreads'⟩ := hreads.uncons
  obtain ⟨s₂, hhead, hts⟩ : ∃ s₂, s₁.Reads (.name name :: .keyword .inKw l :: es) s₂ ∧ s₂.Reads ts s' :=
    hreads'.split_eq (by simp)
  obtain ⟨l', s₃, hopen, hbody⟩ := ih depth (by omega) hts hrest
  have hiteration := iteration_reads_each hsource (le_expressionRoom depth (by omega)) hhead hopen
  simp only [statement, bind_apply, peek_apply, hreads.head_eq, Option.map_some, Option.bind_some,
    keyworded, advance_reads hkeyword, hiteration, hbody, pure_apply]

theorem reached_forRange (line : Int) (name : Word) (l l' : Int) (hstart : Derives .assignment es start)
    (hstop : Derives .assignment fs stop) (ih : Reached .block around.loop ts rest body) :
    Reached .statement around
      (.keyword .forKw line :: .name name :: .keyword .inKw l :: (es ++ .keyword .toKw l' :: (fs ++ ts)))
      rest (Stmt.forIn line name start (some stop) body) := by
  intro depth s s' hdepth hreads hrest _
  simp only [List.length_cons, List.length_append] at hdepth
  obtain ⟨s₁, hkeyword, hreads'⟩ := hreads.uncons
  obtain ⟨s₂, hhead, hts⟩ : ∃ s₂,
      s₁.Reads (.name name :: .keyword .inKw l :: (es ++ .keyword .toKw l' :: fs)) s₂ ∧ s₂.Reads ts s' :=
    hreads'.split_eq (by simp)
  obtain ⟨l'', s₃, hopen, hbody⟩ := ih depth (by omega) hts hrest
  have hiteration := iteration_reads_range hstart hstop (le_expressionRoom depth (by omega))
    (le_expressionRoom depth (by omega)) hhead hopen
  simp only [statement, bind_apply, peek_apply, hreads.head_eq, Option.map_some, Option.bind_some,
    keyworded, advance_reads hkeyword, hiteration, hbody, pure_apply]

theorem reached_define (l : Int) (name : Word) (l' r : Int) (hparams : Params ps params)
    (ih : Reached .block around.function ts rest body) :
    Reached .statement around
      (.keyword .defineKw l :: .name name :: .symbol .leftParen l' :: (ps ++ .symbol .rightParen r :: ts))
      rest (Stmt.define name params body) := by
  intro depth s s' hdepth hreads hrest _
  simp only [List.length_cons, List.length_append] at hdepth
  obtain ⟨s₁, hkeyword, hreads'⟩ := hreads.uncons
  obtain ⟨s₂, hhead, hts⟩ : ∃ s₂,
      s₁.Reads (.name name :: .symbol .leftParen l' :: (ps ++ [.symbol .rightParen r])) s₂ ∧
        s₂.Reads ts s' := hreads'.split_eq (by simp)
  obtain ⟨l'', s₃, hopen, hbody⟩ := ih depth (by omega) hts hrest
  simp only [statement, bind_apply, peek_apply, hreads.head_eq, Option.map_some, Option.bind_some,
    keyworded, advance_reads hkeyword, signature_reads hparams hhead hopen, hbody, pure_apply]

theorem reached_explore (line l : Int) (zone : Word) (r : Int)
    (ih : Reached .block around.loop ts rest body) :
    Reached .statement around
      (.keyword .exploreKw line :: .symbol .leftParen l :: .name zone :: .symbol .rightParen r :: ts) rest
      (Stmt.explore line zone body) := by
  intro depth s s' hdepth hreads hrest _
  simp only [List.length_cons] at hdepth
  obtain ⟨s₁, hkeyword, hreads'⟩ := hreads.uncons
  obtain ⟨s₂, hhead, hts⟩ : ∃ s₂,
      s₁.Reads [.symbol .leftParen l, .name zone, .symbol .rightParen r] s₂ ∧ s₂.Reads ts s' :=
    hreads'.split_eq (by simp)
  obtain ⟨l', s₃, hopen, hbody⟩ := ih depth (by omega) hts hrest
  simp only [statement, bind_apply, peek_apply, hreads.head_eq, Option.map_some, Option.bind_some,
    keyworded, advance_reads hkeyword, exploration_reads hhead hopen, hbody, pure_apply]

theorem reached_elseBlock (l : Int) (ih : Reached .block around.control ts rest body) :
    Reached .otherwise around (.keyword .elseKw l :: ts) rest (Otherwise.block body) := by
  intro depth size links s s' hdepth _ _ hreads hrest _
  simp only [List.length_cons] at hdepth
  obtain ⟨s₁, helse, hts⟩ := hreads.uncons
  obtain ⟨l', s₂, hopen, hbody⟩ := ih depth (by omega) hts hrest
  have hif : s₁.sees (.keyword .ifKw) = false := by simp [hopen.sees_eq]
  simp only [elseBranch, elseBody, bind_apply, accept_reads helse, if_true, accept_of_not_sees hif,
    Bool.false_eq_true, if_false, symbol_reads _ hopen, hbody, pure_apply]

theorem reached_elseIf (l l' l'' r : Int) (hcondition : Derives .assignment cs c)
    (ihfirst : Reached .block around.control ts (us ++ rest) body)
    (ihsecond : Reached .otherwise around us rest otherwise) :
    Reached .otherwise around
      (.keyword .elseKw l :: .keyword .ifKw l' :: .symbol .leftParen l'' ::
        (cs ++ .symbol .rightParen r :: (ts ++ us))) rest (Otherwise.elseIf c body otherwise) := by
  intro depth size links s s' hdepth hsize hlinks hreads hrest helse
  simp only [List.length_cons, List.length_append] at hdepth hsize hlinks
  obtain ⟨s₁, helse', hreads'⟩ := hreads.uncons
  obtain ⟨s₂, hif, hchain⟩ := hreads'.uncons
  obtain ⟨links, rfl⟩ : ∃ n, links = n + 1 := ⟨links - 1, by omega⟩
  have hvalue := conditional_reads depth size links hcondition ihfirst ihsecond (by omega) (by omega)
    (by omega) hchain hrest helse
  simp only [elseBranch, elseBody, bind_apply, accept_reads helse', if_true, accept_reads hif, hvalue,
    pure_apply]

end Blocks

/-- Whatever the grammar derives outside interactive use, the parser reads. -/
theorem reached_of_forms {rule : StmtRule} {around : Surroundings} {ts rest : List Token}
    {tree : rule.Tree} (h : Forms rule around ts rest tree) (hfile : around.interactive = false) :
    Reached rule around ts rest tree := by
  induction h with
  | simple body ends =>
      intro depth s s' hdepth hreads _ _
      obtain ⟨s₁, hbody, hend⟩ := hreads.split
      cases ends with
      | semicolon l =>
          simp only [List.length_append] at hdepth
          exact simple_reads body (by omega) hbody hend
      | lineEnd hinteractive => simp [hfile] at hinteractive
  | bareReturn around line l rest =>
      intro depth s s' _ hreads _ _
      obtain ⟨s₁, hkeyword, hend⟩ := hreads.uncons
      have hsemicolon : s₁.sees (.symbol .semicolon) = true := by simp [hend.sees_eq]
      simp only [statement, bind_apply, peek_apply, hreads.head_eq, Option.map_some, Option.bind_some,
        keyworded, advance_reads hkeyword, returning, returnValue, sees_apply, hsemicolon, if_true,
        terminate_reads _ _ hend, pure_apply]
  | block _ ih =>
      intro depth s s' hdepth hreads hrest _
      obtain ⟨l, s₁, hopen, hbody⟩ := ih hfile depth hdepth hreads hrest
      simp only [statement, bind_apply, peek_apply, hopen.head_eq, Option.map_some, Option.bind_some,
        keyworded, advance_reads hopen, hbody, pure_apply]
  | cond l l' r hcondition _ _ ihfirst ihsecond =>
      exact reached_cond l l' r hcondition (ihfirst hfile) (ihsecond hfile)
  | loop l l' r hcondition _ ih => exact reached_loop l l' r hcondition (ih hfile)
  | forEach line name l hsource _ ih => exact reached_forEach line name l hsource (ih hfile)
  | forRange line name l l' hstart hstop _ ih =>
      exact reached_forRange line name l l' hstart hstop (ih hfile)
  | define l name l' r hparams _ ih => exact reached_define l name l' r hparams (ih hfile)
  | explore line l zone r _ ih => exact reached_explore line l zone r (ih hfile)
  | nothing around rest =>
      intro depth size links s s' _ _ _ hreads _ helse
      obtain rfl := hreads.eq_of_nil
      simp only [elseBranch, bind_apply, accept_of_not_sees helse]
      rfl
  | elseBlock l _ ih => exact reached_elseBlock l (ih hfile)
  | elseIf l l' l'' r hcondition _ _ ihfirst ihsecond =>
      exact reached_elseIf l l' l'' r hcondition (ihfirst hfile) (ihsecond hfile)
  | braces l r _ ih =>
      intro depth s s' hdepth hreads hrest
      simp only [List.length_cons, List.length_append] at hdepth
      exact block_reads (ih hfile) (by omega) hreads hrest
  | nil around rest =>
      intro inBlock depth fuel s s' _ hreads hrest hcloses _
      obtain rfl := hreads.eq_of_nil
      exact items_reads_nil fuel (hrest ▸ hcloses)
  | cons first others ihfirst ihothers =>
      exact reached_cons first others (ihfirst hfile) (ihothers hfile)

end Parser

/-- A script of the grammar is read without problems if there is room for it on the stack. -/
theorem parseWithin_of_script {limit : Nat} {tokens : List Token} {program : Program} (endLine : Int)
    (problems : Diagnostics) (h : Grammar.Script false tokens program) (hlimit : 4 * tokens.length < limit) :
    parseWithin? limit false tokens endLine problems = some ⟨program, problems⟩ := by
  have hreads : ParseState.Reads ⟨tokens, endLine, endLine, problems⟩ tokens
      ⟨[], endLine, Grammar.linePast endLine tokens, problems⟩ := ⟨by simp, rfl⟩
  have hitems := Parser.reached_of_forms h rfl false limit hlimit hreads rfl rfl (Nat.le_refl _)
  simp only [parseWithin?, hitems]

/-- Tokens are read without problems, under some bound on the nesting, exactly if they are a script, and
the program is the tree of its derivation. -/
theorem exists_parseWithin_iff_script (tokens : List Token) (endLine : Int) (problems : Diagnostics)
    (program : Program) :
    (∃ limit, parseWithin? limit false tokens endLine problems = some ⟨program, problems⟩) ↔
      Grammar.Script false tokens program := by
  constructor
  · rintro ⟨limit, h⟩
    exact script_of_parseWithin h
  · intro h
    exact ⟨4 * tokens.length + 1, parseWithin_of_script endLine problems h (Nat.lt_succ_self _)⟩

end SafariScript
