import SafariScript.Proofs.Parser.Interactive
import SafariScript.Proofs.Parser.Turns

/-!
# The semicolon at the end of the input

In interactive use the semicolon of the last statement may be left out. Expressions are read in the same way whether
a semicolon or nothing stands behind them (`Mirrors`), so what counts is how each rule for statements comes to its
end. `Spares` is the contract that a rule keeps if it does without the semicolon where the input ends. There is one
rule that looks for the semicolon earlier: behind `return` it is the sign that there is no value. Hence a `return`
without a value is the only simple statement whose semicolon cannot be left out (`semicolon_omissible_iff`).
-/

namespace SafariScript

namespace Stmt

/-- A statement that a semicolon ends. -/
def isSimple : Stmt → Bool
  | .expr _ | .print _ | .var .. | .breakLoop | .continueLoop | .run | .ret .. | .throwBall .. => true
  | .block _ | .cond .. | .loop .. | .forIn .. | .define .. | .explore .. => false

/-- A return statement without a value. -/
def isBareReturn : Stmt → Bool
  | .ret _ none => true
  | _ => false

end Stmt

namespace Grammar

/-- The only statement of a script has all its tokens. -/
theorem Script.statement_of_single {interactive : Bool} {tokens : List Token} {stmt : Stmt}
    (h : Script interactive tokens ⟨[stmt]⟩) : Forms .statement { interactive } tokens [] stmt := by
  cases h with
  | cons first others =>
      cases others with
      | nil => simpa using first

/-- A return statement without a value is the keyword and a semicolon, whatever the surroundings are. -/
theorem Forms.length_of_isBareReturn {around : Surroundings} {ts rest : List Token} {stmt : Stmt}
    (h : Forms .statement around ts rest stmt) (hstmt : stmt.isBareReturn = true) : ts.length = 2 := by
  cases h with
  | simple body ends => cases body <;> cases hstmt
  | bareReturn line l => rfl
  | _ => cases hstmt

end Grammar

namespace Parser

open Grammar

variable {α : Type} {eats : Bool} {nested : Parser Expr}

/-! ## The contract -/

/-- If the result is a simple statement and no `return` without a value, some tokens and a semicolon were consumed;
and where those tokens are the last ones, the other parser gives the same result without the semicolon. -/
def Spared (eats : Bool) (p' : Parser Stmt) (s : ParseState) (stmt : Stmt) (s' : ParseState) : Prop :=
  stmt.isSimple = true → stmt.isBareReturn = false →
    ∃ ts l, s.Reads (ts ++ [.symbol .semicolon l]) s' ∧ (eats = true → ts ≠ []) ∧
      ∀ t t', t.Reads ts t' → t'.rest = [] → p' t = .ok stmt t'

/-- Unless the first parser adds to the problems, the second one spares the semicolon. -/
def Spares (eats : Bool) (p p' : Parser Stmt) : Prop :=
  Sound p (Spared eats p')

/-- A parser that gives no simple statement. -/
def Compound (p : Parser Stmt) : Prop :=
  Sound p fun _ stmt _ => stmt.isSimple = false

theorem compound_pure {stmt : Stmt} (h : stmt.isSimple = false) : Compound (pure stmt) :=
  (sound_pure stmt).mono fun _ _ _ ⟨hstmt, _⟩ => hstmt ▸ h

theorem Compound.bind {p : Parser α} {f : α → Parser Stmt} {R : ParseState → α → ParseState → Prop} (hp : Sound p R)
    (hf : ∀ a, Compound (f a)) : Compound (p >>= f) :=
  (hp.bind hf).mono fun _ _ _ ⟨_, _, _, hstmt⟩ => hstmt

namespace Spares

variable {p p' : Parser α} {f f' : α → Parser Stmt}

theorem of_compound {q : Parser Stmt} (h : Compound q) (q' : Parser Stmt) : Spares eats q q' := by
  refine Sound.mono h fun s stmt s' hcompound hsimple => ?_
  rw [hcompound] at hsimple
  cases hsimple

theorem sequence {eats₁ eats₂ : Bool} (hp : Mirrors false eats₁ p p') (hf : ∀ a, Spares eats₂ (f a) (f' a)) :
    Spares (eats₁ || eats₂) (p >>= f) (p' >>= f') := by
  refine (Sound.bind hp hf).mono ?_
  rintro s stmt s' ⟨a, s₁, ⟨ts, hts, heats₁, hagain⟩, hspared⟩ hsimple hvalue
  obtain ⟨us, l, hus, heats₂, hlast⟩ := hspared hsimple hvalue
  refine ⟨ts ++ us, l, ?_, append_ne_nil_of_eats heats₁ heats₂, fun t t' ht hend => ?_⟩
  · rw [List.append_assoc]
    exact hts.append hus
  · obtain ⟨t₁, hfirst, hrest⟩ := ht.split
    -- what comes next is the same, or the semicolon on the one side and nothing on the other
    have hfollows : Follows false s₁.rest t₁.rest := by
      rw [hus.rest, hrest.rest, List.append_assoc]
      refine Follows.append us (Follows.of_silent ?_)
      simp [Silent, hend]
    rw [bind_of_ok (hagain t t₁ hfirst hfollows)]
    exact hlast t₁ t' hrest hend

theorem bind {eats₁ : Bool} (hp : Mirrors false eats₁ p p') (hf : ∀ a, Spares eats (f a) (f' a)) :
    Spares eats (p >>= f) (p' >>= f') :=
  sequence hp.lazy hf

theorem eat (hp : Mirrors false true p p') (hf : ∀ a, Spares false (f a) (f' a)) :
    Spares true (p >>= f) (p' >>= f') :=
  sequence hp hf

/-- A choice by the kind of the next token, which is consumed by every branch. -/
theorem ofPeek {f f' : Option TokenKind → Parser Stmt}
    (hf : ∀ kind, Sound (f kind) fun s stmt s' =>
      s.rest.head?.map Token.kind = kind → Spared true (f' kind) s stmt s') :
    Spares true (peek? >>= f) (peek? >>= f') := by
  refine (sound_peek.bind hf).mono ?_
  rintro s stmt s' ⟨_, s₁, ⟨rfl, rfl⟩, h⟩ hsimple hvalue
  obtain ⟨ts, l, hreads, heats, hlast⟩ := h rfl hsimple hvalue
  refine ⟨ts, l, hreads, heats, fun t t' ht hend => ?_⟩
  have hhead : t.rest.head?.map Token.kind = s₁.rest.head?.map Token.kind := by
    rw [ht.rest, hreads.rest]
    obtain ⟨first, ts, rfl⟩ := List.exists_cons_of_ne_nil (heats rfl)
    rfl
  rw [bind_apply, peek_apply, hhead]
  exact hlast t t' ht hend

/-- Consuming the token that was looked at, and going on. -/
theorem advance {kind : TokenKind} {f f' : Int → Parser Stmt} (hf : ∀ line, Spares eats (f line) (f' line)) :
    Sound (advance >>= f) fun s stmt s' => s.rest.head?.map Token.kind = some kind →
      Spared true (advance >>= f') s stmt s' := by
  refine ((sound_advance_of_kind kind).bind hf).mono ?_
  rintro s stmt s' ⟨line, s₁, hadvance, hspared⟩ hkind hsimple hvalue
  obtain ⟨ts, l, hts, -, hlast⟩ := hspared hsimple hvalue
  refine ⟨⟨kind, line⟩ :: ts, l, (hadvance hkind).append hts, fun _ => List.cons_ne_nil _ _,
    fun t t' ht hend => ?_⟩
  obtain ⟨t₁, hfirst, hrest⟩ := ht.uncons
  rw [bind_of_ok (advance_reads hfirst)]
  exact hlast t₁ t' hrest hend

end Spares

/-! ## Simple statements -/

/-- In interactive use nothing has to stand behind a statement where the input ends. -/
theorem terminate_of_nil (position : String) {t : ParseState} (ht : t.rest = []) :
    terminate { interactive := true } position t = .ok () t := by
  have hsees : t.sees (.symbol .semicolon) = false := by simp [ParseState.sees, ht]
  have hend : t.atLineEnd = true := by simp [ParseState.atLineEnd, ht]
  unfold terminate
  rw [ifAccept_of_not_sees hsees, bind_apply, get_apply]
  simp only [hend, Bool.not_false, Bool.and_true, if_true]
  rfl

theorem spares_terminate (position : String) (stmt : Stmt) :
    Spares false (terminate { interactive := false } position >>= fun _ => pure stmt)
      (terminate { interactive := true } position >>= fun _ => pure stmt) := by
  refine ((sound_terminate _ position).bind fun _ => sound_pure stmt).mono ?_
  rintro s a s' ⟨_, s₁, ⟨us, hus, hterminator⟩, rfl, rfl⟩ - -
  cases hterminator with
  | semicolon l =>
      refine ⟨[], l, hus, nofun, fun t t' ht hend => ?_⟩
      obtain rfl := ht.eq_of_nil
      rw [bind_of_ok (terminate_of_nil position hend)]
      rfl
  | lineEnd hinteractive => cases hinteractive

theorem spares_varDeclaration (hnested : Mirrors false eats nested nested) :
    Spares false (varDeclaration { interactive := false } nested) (varDeclaration { interactive := true } nested) :=
  .bind (mirrors_name _) fun _ => .bind (mirrors_optionalAfter (by simp) hnested) fun _ => spares_terminate _ _

theorem spares_printing (hnested : Mirrors false eats nested nested) :
    Spares false (printing { interactive := false } nested) (printing { interactive := true } nested) :=
  .bind (mirrors_symbol _ _) fun _ => .bind hnested fun _ => .bind (mirrors_symbol _ _) fun _ => spares_terminate _ _

theorem spares_throwing (hnested : Mirrors false eats nested nested) (line : Int) :
    Spares false (throwing { interactive := false } nested line) (throwing { interactive := true } nested line) :=
  .bind (mirrors_symbol _ _) fun _ => .bind hnested fun _ => .bind (mirrors_symbol _ _) fun _ => spares_terminate _ _

theorem spares_expressionStatement (hnested : Mirrors false true nested nested) :
    Spares true (expressionStatement { interactive := false } nested)
      (expressionStatement { interactive := true } nested) :=
  .eat hnested fun _ => spares_terminate _ _

/-- With a value in front of it, the semicolon is looked for only at the end. -/
theorem spares_returning (hnested : Mirrors false true nested nested) (line : Int) :
    Spares false (returning { interactive := false } nested line) (returning { interactive := true } nested line) := by
  refine ((sound_returnValue hnested).bind fun _ => (sound_terminate _ _).bind fun _ => sound_pure _).mono ?_
  rintro s stmt s' ⟨value, s₁, hvalue, _, s₂, ⟨us, hus, hterminator⟩, rfl, rfl⟩ - hbare
  rcases hvalue with ⟨rfl, -, -⟩ | ⟨e, rfl, hsees, ts, hts, heats, hagain⟩
  · cases hbare
  · cases hterminator with
    | lineEnd hinteractive => cases hinteractive
    | semicolon l =>
        refine ⟨ts, l, hts.append hus, nofun, fun t t' ht hend => ?_⟩
        have hfollows : Follows false s₁.rest t'.rest := .of_silent (by simp [Silent, hend])
        have hvalue : t.sees (.symbol .semicolon) = false := by rw [hts.sees_congr ht (heats rfl), hsees]
        simp only [returning, returnValue, bind_apply, sees_apply, hvalue, Bool.false_eq_true, if_false, map_apply,
          hagain t t' ht hfollows, terminate_of_nil _ hend, pure_apply]

theorem spares_lone (word : Word) (allowed : Bool) (complaint : Complaint) (stmt : Stmt) :
    Spares false (lone { interactive := false } word allowed complaint stmt)
      (lone { interactive := true } word allowed complaint stmt) := by
  cases allowed with
  | true => exact spares_terminate _ stmt
  | false =>
      refine ((sound_terminate _ _).bind fun _ => (sound_complain _ _).bind fun _ => sound_pure _).mono ?_
      rintro s a s' ⟨_, _, -, _, _, hfalse, -⟩
      exact hfalse.elim

/-! ## Statements -/

/-- A rule for a keyword, in a file and in interactive use. -/
theorem exists_keyworded_spares (hnested : Mirrors false true nested nested) (body : Surroundings → Parser (List Stmt))
    (hbody : ∀ inner, inner.inBlock = true → Mirrors false true (body inner) (body inner)) (bound : Nat)
    (kind : TokenKind) :
    keyworded { interactive := false } bound nested body kind = none ∧
        keyworded { interactive := true } bound nested body kind = none ∨
      ∃ rule rule' : Int → Parser Stmt,
        keyworded { interactive := false } bound nested body kind = some (advance >>= rule) ∧
        keyworded { interactive := true } bound nested body kind = some (advance >>= rule') ∧
        ∀ line, Spares false (rule line) (rule' line) := by
  have hinside (inner : Surroundings) (hinner : inner.inBlock = true) (next : List Stmt → Stmt)
      (hnext : ∀ b, (next b).isSimple = false) : Compound (body inner >>= fun b => pure (next b)) :=
    .bind (hbody inner hinner) fun b => compound_pure (hnext b)
  cases kind with
  | keyword keyword =>
      cases keyword
      case elseKw | inKw | toKw | safariZoneKw | teamKw | trueKw | falseKw | nullKw => exact Or.inl ⟨rfl, rfl⟩
      all_goals refine Or.inr ⟨_, _, rfl, rfl, fun line => ?_⟩
      case varKw => exact spares_varDeclaration hnested
      case defineKw => exact .of_compound (.bind (@mirrors_signature false) fun _ => hinside _ rfl _ fun _ => rfl) _
      case printKw => exact spares_printing hnested
      case ifKw =>
        exact .of_compound (.bind (mirrors_conditional hnested (hbody _ rfl) bound) fun _ => compound_pure rfl) _
      case whileKw =>
        exact .of_compound (.bind (mirrors_condition hnested "while") fun _ =>
          .bind (@mirrors_symbol false _ _) fun _ => hinside _ rfl _ fun _ => rfl) _
      case forKw => exact .of_compound (.bind (mirrors_iteration hnested) fun _ => hinside _ rfl _ fun _ => rfl) _
      case breakKw | continueKw | runKw => exact spares_lone _ _ _ _
      case returnKw => exact spares_returning hnested line
      case exploreKw => exact .of_compound (.bind (@mirrors_exploration false) fun _ => hinside _ rfl _ fun _ => rfl) _
      case throwBallKw => exact spares_throwing hnested line
  | symbol symbol =>
      cases symbol
      case leftBrace =>
        refine Or.inr ⟨_, _, rfl, rfl, fun _ => ?_⟩
        exact .of_compound (hinside _ rfl _ fun _ => rfl) _
      all_goals exact Or.inl ⟨rfl, rfl⟩
  | _ => exact Or.inl ⟨rfl, rfl⟩

/-- What the statement parser reads in a file up to a semicolon, it reads in interactive use without it. -/
theorem spares_statement (depth : Nat) :
    Spares true (statement depth { interactive := false }) (statement depth { interactive := true }) := by
  cases depth with
  | zero => exact sound_throw _ _
  | succ depth =>
      have hnested : Mirrors false true (expression (statementFrames * depth / expressionFrames))
          (expression (statementFrames * depth / expressionFrames)) := mirrors_expression _
      have hbody (inner : Surroundings) (hinner : inner.inBlock = true) :
          Mirrors false true (block (statement depth inner)) (block (statement depth inner)) :=
        mirrors_block ((restates_statement depth inner inner.interactive).mirrors hinner).tighten
      refine .ofPeek fun kind => ?_
      have hexpression : Sound (expressionStatement { interactive := false }
          (expression (statementFrames * depth / expressionFrames))) fun s stmt s' =>
            s.rest.head?.map Token.kind = kind → Spared true (expressionStatement { interactive := true }
              (expression (statementFrames * depth / expressionFrames))) s stmt s' :=
        Sound.mono (spares_expressionStatement hnested) fun _ _ _ h _ => h
      cases kind with
      | none => exact hexpression
      | some kind =>
          simp only [Option.bind_some]
          rcases exists_keyworded_spares hnested (fun inner => block (statement depth inner)) hbody
              (statementFrames * depth) kind with ⟨hnone, hnone'⟩ | ⟨rule, rule', hsome, hsome', hrule⟩
          · rw [hnone, hnone']
            exact hexpression
          · rw [hsome, hsome']
            exact Spares.advance hrule

end Parser

open SafariScript.Parser in
/-- A script that is one simple statement with its semicolon: in interactive use the semicolon can be left out, and
the statement is the same, unless it is a `return` without a value. -/
theorem semicolon_omissible_iff {limit : Nat} {tokens : List Token} {line endLine endLine' : Int}
    {problems : Diagnostics} {stmt : Stmt}
    (h : parseWithin? limit false (tokens ++ [.symbol .semicolon line]) endLine problems = some ⟨⟨[stmt]⟩, problems⟩)
    (hsimple : stmt.isSimple = true) :
    parseWithin? limit true tokens endLine' problems = some ⟨⟨[stmt]⟩, problems⟩ ↔ stmt.isBareReturn = false := by
  constructor
  · intro h'
    cases hbare : stmt.isBareReturn with
    | false => rfl
    | true =>
        -- the statement has two tokens in both scripts, but one of them is longer
        have hlength := (script_of_parseWithin h).statement_of_single.length_of_isBareReturn hbare
        have hlength' := (script_of_parseWithin h').statement_of_single.length_of_isBareReturn hbare
        rw [List.length_append, List.length_singleton] at hlength
        omega
  · intro hvalue
    obtain ⟨s, hstmt, hend, hproblems⟩ := parseWithin_eq_single.1 h
    obtain ⟨ts, l, hts, -, hlast⟩ := (spares_statement limit).of_ok hstmt hproblems hsimple hvalue
    obtain ⟨rfl, -⟩ : tokens = ts ∧ line = l := by simpa [hend, Token.symbol] using hts.rest
    let t' : ParseState := ⟨[], endLine', Grammar.linePast endLine' tokens, problems⟩
    have hreads : ParseState.Reads ⟨tokens, endLine', endLine', problems⟩ tokens t' := ⟨by simp [t'], rfl⟩
    exact parseWithin_eq_single.2 ⟨t', hlast _ t' hreads rfl, rfl, rfl⟩

/-- The statement `var x = f(1)`, with `;` on the next line or without it. -/
theorem semicolon_omissible_declaration :
    let stmt : Stmt := .var ⟨"x", 1⟩ (some (.call (.ident ⟨"f", 1⟩) 1 [.literal (.int 1)] []))
    let tokens : List Token := [.keyword .varKw 1, .name ⟨"x", 1⟩, .symbol .equal 1, .name ⟨"f", 1⟩,
      .symbol .leftParen 1, ⟨.number "1", 1⟩, .symbol .rightParen 1]
    parse? false (tokens ++ [.symbol .semicolon 2]) 2 [] = some ⟨⟨[stmt]⟩, []⟩ ∧ stmt.isSimple = true ∧
      parse? true tokens 1 [] = some ⟨⟨[stmt]⟩, []⟩ := by
  intro stmt tokens
  have h : parse? false (tokens ++ [.symbol .semicolon 2]) 2 [] = some ⟨⟨[stmt]⟩, []⟩ := by rfl
  exact ⟨h, rfl, (semicolon_omissible_iff h rfl).2 rfl⟩

/-- The statement `return;` is parsed in a file. In interactive use `return` alone is not: a value is expected. -/
theorem semicolon_not_omissible_bareReturn :
    parse? false [.keyword .returnKw 1, .symbol .semicolon 1] 1 [] = some ⟨⟨[.ret 1 none]⟩, []⟩ ∧
      parse? true [.keyword .returnKw 1] 1 [] =
        some ⟨⟨[]⟩, [Complaint.missingExpression.diagnostic ⟨"", 1⟩]⟩ :=
  ⟨by rfl, by rfl⟩

end SafariScript
