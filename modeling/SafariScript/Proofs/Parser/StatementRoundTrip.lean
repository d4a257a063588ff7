import SafariScript.Proofs.Parser.ExpressionRoundTrip
import SafariScript.Proofs.Parser.StatementCompleteness
import SafariScript.Proofs.Placement

/-!
# Reading undoes writing

Tokens of the kinds that a well placed program is written with, on any lines, are a script of the grammar,
and so they are read without problems as this program, up to lines (`parseWithin_written`).
-/

namespace SafariScript
namespace Grammar

/-! ## Parts of statements -/

theorem exists_enclosed {kinds more : List TokenKind} {ts : List Token}
    (hts : ts.map Token.kind = enclosed kinds ++ more) :
    ∃ l us r vs, ts = .symbol .leftParen l :: (us ++ .symbol .rightParen r :: vs) ∧
      us.map Token.kind = kinds ∧ vs.map Token.kind = more := by
  obtain ⟨xs, vs, rfl, hxs, hvs⟩ := exists_of_map_kind_append hts
  obtain ⟨l, ys, rfl, hys⟩ := exists_of_map_kind_cons hxs
  obtain ⟨us, r, rfl, hus⟩ := exists_closed hys
  exact ⟨l, us, r, vs, by simp, hus, hvs⟩

/-- A simple statement in front of its semicolon. -/
theorem spelled_simple {around : Surroundings} (kinds : List TokenKind) {s : Stmt}
    (h : Spelled kinds (Simple around) Stmt.unlined s) (rest : List Token) :
    Spelled (kinds ++ [.symbol .semicolon]) (Forms .statement around · rest) Stmt.unlined s := by
  intro ts hts
  obtain ⟨us, l, rfl, hus⟩ := exists_closed hts
  obtain ⟨s', hsimple, heq⟩ := h us hus
  exact ⟨s', .simple hsimple (.semicolon l rest), heq⟩

theorem Spelled.braced {around : Surroundings} {body : List Stmt}
    (h : ∀ rest, Spelled (Stmt.writtenAll body) (Forms .statements around · rest) Stmt.unlinedAll body)
    (rest : List Token) :
    Spelled (braced (Stmt.writtenAll body)) (Forms .block around · rest) Stmt.unlinedAll body := by
  intro ts hts
  obtain ⟨l, us, rfl, hus⟩ := exists_of_map_kind_cons hts
  obtain ⟨vs, r, rfl, hvs⟩ := exists_closed hus
  obtain ⟨body', hforms, heq⟩ := h (.symbol .rightBrace r :: rest) vs hvs
  exact ⟨body', .braces l r hforms, heq⟩

/-- The parameters of a function. -/
theorem exists_params (params : List Word) {ts : List Token}
    (hts : ts.map Token.kind = listed (params.map fun param => [.ident param.text])) :
    ∃ names, Params ts names ∧ names.map Word.unlined = params.map Word.unlined := by
  by_cases hnil : params = []
  · subst hnil
    obtain rfl : ts = [] := List.map_eq_nil_iff.1 hts
    exact ⟨[], .none, rfl⟩
  · have hparam : ∀ param ∈ params, Spelled [.ident param.text] (fun us name => us = [.name name])
        Word.unlined param := by
      intro param _ us hus
      obtain ⟨line, rfl⟩ := exists_of_map_kind_single hus
      exact ⟨⟨param.text, line⟩, rfl, rfl⟩
    obtain ⟨names, hlist, heq⟩ := exists_separated (fun param => [.ident param.text]) params hnil hparam ts hts
    exact ⟨names, .some hlist, heq⟩

/-! ## Statements -/

section Stmts

variable {around : Surroundings} {value condition start stop target : Expr} {body : List Stmt}
  {otherwise : Otherwise}

/-- The tokens of a body are derived as its statements, up to lines, in front of any tokens. -/
abbrev SpelledBody (around : Surroundings) (body : List Stmt) : Prop :=
  ∀ rest, Spelled (Stmt.writtenAll body) (Forms .statements around · rest) Stmt.unlinedAll body

/-- The tokens of a statement are derived as it, up to lines, in front of any tokens. -/
abbrev SpelledStmt (around : Surroundings) (s : Stmt) : Prop :=
  ∀ rest, Spelled s.written (Forms .statement around · rest) Stmt.unlined s

/-- The tokens behind the first block of an `if` statement are derived as what they stand for, up to lines. -/
abbrev SpelledOtherwise (around : Surroundings) (otherwise : Otherwise) : Prop :=
  ∀ rest, Spelled otherwise.written (Forms .otherwise around · rest) Otherwise.unlined otherwise

theorem spelled_lone {keyword : Keyword} {stmt : Stmt}
    (h : ∀ l, Simple around [.keyword keyword l] stmt) (rest : List Token) :
    Spelled [.keyword keyword, .symbol .semicolon] (Forms .statement around · rest) Stmt.unlined stmt := by
  refine spelled_simple [.keyword keyword] ?_ rest
  intro ts hts
  obtain ⟨l, rfl⟩ := exists_of_map_kind_single hts
  exact ⟨stmt, h l, rfl⟩

theorem spelled_exprStmt (hvalue : SpelledExpr value) : SpelledStmt around (.expr value) := by
  refine spelled_simple _ ?_
  intro ts hts
  obtain ⟨value', hderives, heq⟩ := hvalue.assignment ts hts
  exact ⟨.expr value', .expr hderives, by simp only [Stmt.unlined, heq]⟩

theorem spelled_print (hvalue : SpelledExpr value) : SpelledStmt around (.print value) := by
  refine spelled_simple (.keyword .printKw :: enclosed value.written) ?_
  intro ts hts
  obtain ⟨l, us, rfl, hus⟩ := exists_of_map_kind_cons hts
  obtain ⟨l', vs, rfl, hvs⟩ := exists_of_map_kind_cons hus
  obtain ⟨ws, r, rfl, hws⟩ := exists_closed hvs
  obtain ⟨value', hderives, heq⟩ := hvalue.assignment ws hws
  exact ⟨.print value', .print l l' r hderives, by simp only [Stmt.unlined, heq]⟩

theorem spelled_throwBall (line : Int) (htarget : SpelledExpr target) :
    SpelledStmt around (.throwBall line target) := by
  refine spelled_simple (.keyword .throwBallKw :: enclosed target.written) ?_
  intro ts hts
  obtain ⟨line', us, rfl, hus⟩ := exists_of_map_kind_cons hts
  obtain ⟨l, vs, rfl, hvs⟩ := exists_of_map_kind_cons hus
  obtain ⟨ws, r, rfl, hws⟩ := exists_closed hvs
  obtain ⟨target', hderives, heq⟩ := htarget.assignment ws hws
  exact ⟨.throwBall line' target', .throwBall line' l r hderives, by simp only [Stmt.unlined, heq]⟩

theorem spelled_var (name : Word) : SpelledStmt around (.var name none) := by
  refine spelled_simple [.keyword .varKw, .ident name.text] ?_
  intro ts hts
  obtain ⟨l, us, rfl, hus⟩ := exists_of_map_kind_cons hts
  obtain ⟨line, rfl⟩ := exists_of_map_kind_single hus
  exact ⟨.var ⟨name.text, line⟩ none, .var l ⟨name.text, line⟩, rfl⟩

theorem spelled_varInitial (name : Word) (hvalue : SpelledExpr value) :
    SpelledStmt around (.var name (some value)) := by
  refine spelled_simple (.keyword .varKw :: .ident name.text :: .symbol .equal :: value.written) ?_
  intro ts hts
  obtain ⟨l, us, rfl, hus⟩ := exists_of_map_kind_cons hts
  obtain ⟨line, vs, rfl, hvs⟩ := exists_of_map_kind_cons hus
  obtain ⟨l', ws, rfl, hws⟩ := exists_of_map_kind_cons hvs
  obtain ⟨value', hderives, heq⟩ := hvalue.assignment ws hws
  refine ⟨.var ⟨name.text, line⟩ (some value'), .varInitial l ⟨name.text, line⟩ l' hderives, ?_⟩
  simp only [Stmt.unlined, Word.unlined, Option.map_some, heq]

theorem spelled_bareReturn (line : Int) : SpelledStmt around (.ret line none) := by
  intro rest ts hts
  obtain ⟨line', us, rfl, hus⟩ := exists_of_map_kind_cons hts
  obtain ⟨l, rfl⟩ := exists_of_map_kind_single hus
  exact ⟨.ret line' none, .bareReturn around line' l rest, rfl⟩

theorem spelled_ret (line : Int) (hvalue : SpelledExpr value) :
    SpelledStmt around (.ret line (some value)) := by
  refine spelled_simple (.keyword .returnKw :: value.written) ?_
  intro ts hts
  obtain ⟨line', us, rfl, hus⟩ := exists_of_map_kind_cons hts
  obtain ⟨value', hderives, heq⟩ := hvalue.assignment us hus
  exact ⟨.ret line' (some value'), .ret line' hderives, by simp only [Stmt.unlined, Option.map_some, heq]⟩

theorem spelled_block (hbody : SpelledBody around.block body) : SpelledStmt around (.block body) := by
  intro rest ts hts
  obtain ⟨body', hforms, heq⟩ := Spelled.braced hbody rest ts hts
  exact ⟨.block body', .block hforms, by simp only [Stmt.unlined, heq]⟩

/-- The condition, the block and the rest of an `if` statement, in front of any tokens. -/
theorem exists_chain (hcondition : SpelledExpr condition) (hbody : SpelledBody around.control body)
    (hotherwise : SpelledOtherwise around otherwise) (rest : List Token) {ts : List Token}
    (hts : ts.map Token.kind =
      enclosed condition.written ++ (braced (Stmt.writtenAll body) ++ otherwise.written)) :
    ∃ l cs r us vs condition' body' otherwise',
      ts = .symbol .leftParen l :: (cs ++ .symbol .rightParen r :: (us ++ vs)) ∧
      Derives .assignment cs condition' ∧ Forms .block around.control us (vs ++ rest) body' ∧
      Forms .otherwise around vs rest otherwise' ∧ condition'.unlined = condition.unlined ∧
      Stmt.unlinedAll body' = Stmt.unlinedAll body ∧ otherwise'.unlined = otherwise.unlined := by
  obtain ⟨l, cs, r, ws, rfl, hcs, hws⟩ := exists_enclosed hts
  obtain ⟨us, vs, rfl, hus, hvs⟩ := exists_of_map_kind_append hws
  obtain ⟨condition', hderives, heq⟩ := hcondition.assignment cs hcs
  obtain ⟨otherwise', hsecond, heq''⟩ := hotherwise rest vs hvs
  obtain ⟨body', hfirst, heq'⟩ := Spelled.braced hbody (vs ++ rest) us hus
  exact ⟨l, cs, r, us, vs, condition', body', otherwise', rfl, hderives, hfirst, hsecond, heq, heq', heq''⟩

theorem spelled_cond (hcondition : SpelledExpr condition) (hbody : SpelledBody around.control body)
    (hotherwise : SpelledOtherwise around otherwise) :
    SpelledStmt around (.cond condition body otherwise) := by
  intro rest ts hts
  obtain ⟨l, ws, rfl, hws⟩ := exists_of_map_kind_cons hts
  obtain ⟨l', cs, r, us, vs, condition', body', otherwise', rfl, hderives, hfirst, hsecond, heq, heq', heq''⟩ :=
    exists_chain hcondition hbody hotherwise rest hws
  refine ⟨.cond condition' body' otherwise', .cond l l' r hderives hfirst hsecond, ?_⟩
  simp only [Stmt.unlined, heq, heq', heq'']

theorem spelled_elseIf (hcondition : SpelledExpr condition) (hbody : SpelledBody around.control body)
    (hotherwise : SpelledOtherwise around otherwise) :
    SpelledOtherwise around (.elseIf condition body otherwise) := by
  intro rest ts hts
  obtain ⟨l, us, rfl, hus⟩ := exists_of_map_kind_cons hts
  obtain ⟨l', vs, rfl, hvs⟩ := exists_of_map_kind_cons hus
  obtain ⟨l'', cs, r, us, ws, condition', body', otherwise', rfl, hderives, hfirst, hsecond, heq, heq', heq''⟩ :=
    exists_chain hcondition hbody hotherwise rest hvs
  refine ⟨.elseIf condition' body' otherwise', .elseIf l l' l'' r hderives hfirst hsecond, ?_⟩
  simp only [Otherwise.unlined, heq, heq', heq'']

theorem spelled_elseBlock (hbody : SpelledBody around.control body) :
    SpelledOtherwise around (.block body) := by
  intro rest ts hts
  obtain ⟨l, us, rfl, hus⟩ := exists_of_map_kind_cons hts
  obtain ⟨body', hforms, heq⟩ := Spelled.braced hbody rest us hus
  exact ⟨.block body', .elseBlock l hforms, by simp only [Otherwise.unlined, heq]⟩

theorem spelled_loop (hcondition : SpelledExpr condition) (hbody : SpelledBody around.loop body) :
    SpelledStmt around (.loop condition body) := by
  intro rest ts hts
  obtain ⟨l, us, rfl, hus⟩ := exists_of_map_kind_cons hts
  obtain ⟨l', cs, r, vs, rfl, hcs, hvs⟩ := exists_enclosed hus
  obtain ⟨condition', hderives, heq⟩ := hcondition.assignment cs hcs
  obtain ⟨body', hforms, heq'⟩ := Spelled.braced hbody rest vs hvs
  exact ⟨.loop condition' body', .loop l l' r hderives hforms, by simp only [Stmt.unlined, heq, heq']⟩

theorem spelled_forEach (line : Int) (name : Word) (hstart : SpelledExpr start)
    (hbody : SpelledBody around.loop body) : SpelledStmt around (.forIn line name start none body) := by
  intro rest ts hts
  obtain ⟨line', us, rfl, hus⟩ := exists_of_map_kind_cons hts
  obtain ⟨n, vs, rfl, hvs⟩ := exists_of_map_kind_cons hus
  obtain ⟨l, ws, rfl, hws⟩ := exists_of_map_kind_cons hvs
  obtain ⟨es, xs, rfl, hes, hxs⟩ := exists_of_map_kind_append hws
  obtain ⟨start', hderives, heq⟩ := hstart.assignment es hes
  obtain ⟨body', hforms, heq'⟩ := Spelled.braced hbody rest xs hxs
  refine ⟨.forIn line' ⟨name.text, n⟩ start' none body',
    .forEach line' ⟨name.text, n⟩ l hderives hforms, ?_⟩
  simp only [Stmt.unlined, Word.unlined, Option.map_none, heq, heq']

theorem spelled_forRange (line : Int) (name : Word) (hstart : SpelledExpr start) (hstop : SpelledExpr stop)
    (hbody : SpelledBody around.loop body) :
    SpelledStmt around (.forIn line name start (some stop) body) := by
  intro rest ts hts
  obtain ⟨line', us, rfl, hus⟩ := exists_of_map_kind_cons hts
  obtain ⟨n, vs, rfl, hvs⟩ := exists_of_map_kind_cons hus
  obtain ⟨l, ws, rfl, hws⟩ := exists_of_map_kind_cons hvs
  obtain ⟨es, xs, rfl, hes, hxs⟩ := exists_of_map_kind_append hws
  obtain ⟨l', ys, rfl, hys⟩ := exists_of_map_kind_cons hxs
  obtain ⟨fs, zs, rfl, hfs, hzs⟩ := exists_of_map_kind_append hys
  obtain ⟨start', hderives, heq⟩ := hstart.assignment es hes
  obtain ⟨stop', hderives', heq'⟩ := hstop.assignment fs hfs
  obtain ⟨body', hforms, heq''⟩ := Spelled.braced hbody rest zs hzs
  refine ⟨.forIn line' ⟨name.text, n⟩ start' (some stop') body',
    .forRange line' ⟨name.text, n⟩ l l' hderives hderives' hforms, ?_⟩
  simp only [Stmt.unlined, Word.unlined, Option.map_some, heq, heq', heq'']

theorem spelled_define (name : Word) (params : List Word) (hbody : SpelledBody around.function body) :
    SpelledStmt around (.define name params body) := by
  intro rest ts hts
  obtain ⟨l, us, rfl, hus⟩ := exists_of_map_kind_cons hts
  obtain ⟨line, vs, rfl, hvs⟩ := exists_of_map_kind_cons hus
  obtain ⟨l', ps, r, ws, rfl, hps, hws⟩ := exists_enclosed hvs
  obtain ⟨names, hparams, heq⟩ := exists_params params hps
  obtain ⟨body', hforms, heq'⟩ := Spelled.braced hbody rest ws hws
  refine ⟨.define ⟨name.text, line⟩ names body', .define l ⟨name.text, line⟩ l' r hparams hforms, ?_⟩
  simp only [Stmt.unlined, Word.unlined, heq']
  exact congrArg (Stmt.define _ · _) heq

theorem spelled_explore (line : Int) (zone : Word) (hbody : SpelledBody around.loop body) :
    SpelledStmt around (.explore line zone body) := by
  intro rest ts hts
  obtain ⟨line', us, rfl, hus⟩ := exists_of_map_kind_cons hts
  obtain ⟨l, vs, r, ws, rfl, hvs, hws⟩ := exists_enclosed hus
  obtain ⟨n, rfl⟩ := exists_of_map_kind_single hvs
  obtain ⟨body', hforms, heq⟩ := Spelled.braced hbody rest ws hws
  refine ⟨.explore line' ⟨zone.text, n⟩ body', .explore line' l ⟨zone.text, n⟩ r hforms, ?_⟩
  simp only [Stmt.unlined, Word.unlined, heq]

end Stmts

mutual

/-- Every well placed statement whose constants have tokens is spelled by the tokens it is written with. -/
theorem spelled_stmt : (s : Stmt) → (around : Surroundings) → s.placed .outside around.placement = true →
    s.writable = true → SpelledStmt around s
  | .expr value, _, _, h => spelled_exprStmt (spelled_expr value h)
  | .print value, _, _, h => spelled_print (spelled_expr value h)
  | .var name none, _, _, _ => spelled_var name
  | .var name (some initial), _, _, h => spelled_varInitial name (spelled_expr initial h)
  | .block body, around, hplaced, h => spelled_block (spelled_stmts body around.block hplaced h)
  | .cond condition body otherwise, around, hplaced, h => by
      rw [Stmt.writable, Bool.and_eq_true, Bool.and_eq_true] at h
      rw [Stmt.placed, Bool.and_eq_true] at hplaced
      exact spelled_cond (spelled_expr condition h.1.1) (spelled_stmts body around.control hplaced.1 h.1.2)
        (spelled_otherwise otherwise around hplaced.2 h.2)
  | .loop condition body, around, hplaced, h => by
      rw [Stmt.writable, Bool.and_eq_true] at h
      exact spelled_loop (spelled_expr condition h.1) (spelled_stmts body around.loop hplaced h.2)
  | .forIn line name start none body, around, hplaced, h => by
      rw [Stmt.writable, Bool.and_eq_true, Bool.and_eq_true] at h
      exact spelled_forEach line name (spelled_expr start h.1.1) (spelled_stmts body around.loop hplaced h.2)
  | .forIn line name start (some stop) body, around, hplaced, h => by
      rw [Stmt.writable, Bool.and_eq_true, Bool.and_eq_true] at h
      exact spelled_forRange line name (spelled_expr start h.1.1) (spelled_expr stop h.1.2)
        (spelled_stmts body around.loop hplaced h.2)
  | .breakLoop, _, hplaced, _ => spelled_lone fun l => .breakLoop l hplaced
  | .continueLoop, _, hplaced, _ => spelled_lone fun l => .continueLoop l hplaced
  | .run, _, hplaced, _ => spelled_lone fun l => .run l hplaced
  | .define name params body, around, hplaced, h =>
      spelled_define name params (spelled_stmts body around.function hplaced h)
  | .ret line none, _, _, _ => spelled_bareReturn line
  | .ret line (some value), _, _, h => spelled_ret line (spelled_expr value h)
  | .explore line zone body, around, hplaced, h =>
      spelled_explore line zone (spelled_stmts body around.loop hplaced h)
  | .throwBall line target, _, _, h => spelled_throwBall line (spelled_expr target h)

theorem spelled_otherwise : (otherwise : Otherwise) → (around : Surroundings) →
    otherwise.placed .outside around.placement = true → otherwise.writable = true →
    SpelledOtherwise around otherwise
  | .nothing, around, _, _ => by
      intro rest ts hts
      obtain rfl : ts = [] := List.map_eq_nil_iff.1 hts
      exact ⟨.nothing, .nothing around rest, rfl⟩
  | .block body, around, hplaced, h => spelled_elseBlock (spelled_stmts body around.control hplaced h)
  | .elseIf condition body otherwise, around, hplaced, h => by
      rw [Otherwise.writable, Bool.and_eq_true, Bool.and_eq_true] at h
      rw [Otherwise.placed, Bool.and_eq_true] at hplaced
      exact spelled_elseIf (spelled_expr condition h.1.1) (spelled_stmts body around.control hplaced.1 h.1.2)
        (spelled_otherwise otherwise around hplaced.2 h.2)

theorem spelled_stmts : (ss : List Stmt) → (around : Surroundings) →
    Stmt.placedAll .outside around.placement ss = true → Stmt.writableAll ss = true → SpelledBody around ss
  | [], around, _, _ => by
      intro rest ts hts
      obtain rfl : ts = [] := List.map_eq_nil_iff.1 hts
      exact ⟨[], .nil around rest, rfl⟩
  | s :: ss, around, hplaced, h => by
      rw [Stmt.writableAll, Bool.and_eq_true] at h
      rw [Stmt.placedAll, Bool.and_eq_true] at hplaced
      intro rest ts hts
      obtain ⟨us, vs, rfl, hus, hvs⟩ := exists_of_map_kind_append hts
      obtain ⟨s', hfirst, heq⟩ := spelled_stmt s around hplaced.1 h.1 (vs ++ rest) us hus
      obtain ⟨ss', hothers, heqs⟩ := spelled_stmts ss around hplaced.2 h.2 rest vs hvs
      exact ⟨s' :: ss', .cons hfirst hothers, by simp only [Stmt.unlinedAll, heq, heqs]⟩

end

end Grammar

/-- Reading undoes writing: the tokens that a well placed program is written with, on any lines, are read
without problems as this program, up to lines, if there is room for them on the stack. -/
theorem parseWithin_written (program : Program) (hplaced : program.placed = true)
    (hwritable : program.writable = true) (tokens : List Token)
    (htokens : tokens.map Token.kind = program.written) (limit : Nat) (hlimit : 4 * tokens.length < limit)
    (endLine : Int) (problems : Diagnostics) :
    ∃ program', parseWithin? limit false tokens endLine problems = some ⟨program', problems⟩ ∧
      program'.unlined = program.unlined := by
  obtain ⟨ss, hforms, heq⟩ := Grammar.spelled_stmts program.statements { interactive := false } hplaced
    hwritable [] tokens htokens
  exact ⟨⟨ss⟩, parseWithin_of_script endLine problems hforms hlimit, congrArg Program.mk heq⟩

/-- A program that needs parentheses for each of the reasons there are, with every statement that leaves a
loop: `explore (z) { if (-(1 + 2) * 3 < 4) { run; } else if (z.turns) { break; } else { continue; } }` and
`(z.go)((a = 1), b = (c = 2) + 3);`. -/
def intricate : Program where
  statements :=
    [ .explore 1 ⟨"z", 1⟩
        [ .cond
            (.binary
              (.binary
                (.unary .negate 1 (.binary (.literal (.int 1)) .add 1 (.literal (.int 2))))
                (.int .multiply) 1 (.literal (.int 3)))
              (.int .less) 1 (.literal (.int 4)))
            [.run]
            (.elseIf (.property (.ident ⟨"z", 1⟩) ⟨"turns", 1⟩) [.breakLoop] (.block [.continueLoop])) ],
      .expr
        (.call (.property (.ident ⟨"z", 2⟩) ⟨"go", 2⟩) 2
          [.assign ⟨"a", 2⟩ (.literal (.int 1))]
          [.mk ⟨"b", 2⟩ (.binary (.assign ⟨"c", 2⟩ (.literal (.int 2))) .add 2 (.literal (.int 3)))]) ]

/-- The tokens of `intricate`, all of them on one line, are read as `intricate`, up to lines. -/
theorem parseWithin_written_intricate :
    intricate.placed = true ∧ intricate.writable = true ∧
      ∃ program', parseWithin? 1000 false (intricate.written.map (⟨·, 7⟩)) 7 [] = some ⟨program', []⟩ ∧
        program'.unlined = intricate.unlined :=
  ⟨by decide, by decide, parseWithin_written intricate (by decide) (by decide)
    (intricate.written.map (⟨·, 7⟩)) (by simp [Function.comp_def]) 1000 (by decide) 7 []⟩

end SafariScript
