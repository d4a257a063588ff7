import SafariScript.Eval.Interpreter
import SafariScript.Proofs.Parser.StatementCompleteness
import SafariScript.Proofs.Parser.Turns
import SafariScript.Proofs.Token.Segments
import SafariScript.Source

/-!
# Pieces of a source

A source text can be cut at a line feed. If both pieces are accepted in a file, each counted from its own line, the
whole is accepted, and its statements are those of the pieces: a piece without problems leaves the scanner between
two segments and the parser between two statements, and no accepted piece starts with `else`, the only token that
the parser looks for behind a finished statement. Running the whole is then running the pieces one after the
other, for all that the interpreter knows is in the world it leaves behind.
-/

namespace SafariScript

open Grammar SafariScript.Parser

/-! ## Parsing -/

/-- A script does not start with `else`. -/
theorem head_ne_else_of_script {interactive : Bool} {tokens : List Token} {program : Program}
    (h : Script interactive tokens program) : tokens.head?.map Token.kind ≠ some (.keyword .elseKw) := by
  have hcloses : Closes false [] := rfl
  have hsees : ParseState.sees ⟨tokens, 0, 0, []⟩ (.keyword .elseKw) = false :=
    not_sees_else h hcloses (List.append_nil tokens).symm
  exact ParseState.sees_eq_false_iff.1 hsees

/-- A turn of the loop over statements, from a state in which the rest of a file is read without problems: it is the
same in every context but before `else`, and it ends in such a state again. -/
theorem Parser.Flawless.turn_embeds {limit : Nat} {s s₁ : ParseState} {first : Option Stmt} {c : Context}
    (hs : Flawless limit false s) (helse : c.Elseless) (hrest : s.rest ≠ [])
    (hturn : recover false (statement limit { interactive := false }) s = .ok first s₁) :
    s₁.rest.length < s.rest.length ∧ Flawless limit false s₁ ∧ ∀ t, c.Embeds s t → ∃ t₁,
      recover false (statement limit { interactive := false }) t = .ok first t₁ ∧ c.Embeds s₁ t₁ := by
  obtain ⟨stmt, ts, rfl, hstatement, hts, hsplit, -, hflawless⟩ := hs.turn hrest hturn
  refine ⟨?_, hflawless, fun t ht => ?_⟩
  · have hpos : 0 < ts.length := List.length_pos_iff.2 hts
    rw [hsplit, List.length_append]
    omega
  · have hconcludes : Concludes c s (statement limit { interactive := false }) :=
      concludes_statement rfl (fun _ => helse) limit
    obtain ⟨t₁, ht₁, hembeds⟩ := (hconcludes.closed stmt s₁ hstatement).2 t ht
    exact ⟨t₁, recover_of_ok false ht₁, hembeds⟩

/-- Two scripts of a file, one after the other, are a script with the statements of both. -/
theorem parseWithin_append {limit : Nat} {ts us : List Token} {firstEnd endLine : Int} {first second : Program}
    (hfirst : parseWithin? limit false ts firstEnd [] = some ⟨first, []⟩)
    (hsecond : parseWithin? limit false us endLine [] = some ⟨second, []⟩) :
    parseWithin? limit false (ts ++ us) endLine [] = some ⟨⟨first.statements ++ second.statements⟩, []⟩ := by
  have helse : Context.Elseless ⟨us, endLine, [], 0⟩ := head_ne_else_of_script (script_of_parseWithin hsecond)
  obtain ⟨s', hpart, hnone⟩ := exists_script_of_parseWithin hfirst
  obtain ⟨last, hbehind, hnone'⟩ := exists_script_of_parseWithin hsecond
  have hflawless : Flawless limit false ⟨ts, firstEnd, firstEnd, []⟩ := flawless_of_parseWithin hfirst
  obtain ⟨t', ht', hproblems⟩ := script_append (c := ⟨us, endLine, [], 0⟩) (P := Flawless limit false)
    (fun s turn s₁ hs hrest hturn => hs.turn_embeds helse hrest hturn) hbehind ts (ts ++ us) hflawless hpart
    (Nat.le_refl _) (Nat.le_of_eq List.length_append.symm) (t := ⟨ts ++ us, endLine, endLine, []⟩)
    ⟨rfl, rfl, rfl, nofun⟩
  rw [parseWithin_of_script_ok ht', hproblems, hnone, hnone']
  rfl

/-- A source text is accepted exactly if the scanner and the parser find no problems. -/
theorem parseSource_eq_ok {line : Int} {interactive : Bool} {source : String} {program : Program} :
    (parseSource line interactive source).result = .ok program ↔
      ∃ scan, Scan.ofSource line source.toList = .ok scan ∧ scan.problems = [] ∧
        parse? interactive scan.tokens scan.endLine [] = some ⟨program, []⟩ := by
  unfold parseSource
  cases Scan.ofSource line source.toList with
  | error long => simp
  | ok scan =>
      simp only [Except.ok.injEq, exists_eq_left', List.isEmpty_iff]
      by_cases hscan : scan.problems = []
      · simp only [hscan, if_true, true_and]
        cases parse? interactive scan.tokens scan.endLine [] with
        | none => simp
        | some parsed =>
            obtain ⟨program', problems⟩ := parsed
            by_cases hproblems : problems = []
            · simp [hproblems]
            · simp [hproblems]
      · simp [hscan]

/-! ## Running -/

namespace Eval

variable {budget room : Nat} {echo : Bool} {p : Program} {w w' : World}

/-- Where a program comes to its end, another one goes on. -/
theorem interpretWithin_append_of_ok (q : Program) (h : p.statements.forM (execTop budget room echo) w = .ok () w') :
    interpretWithin budget room echo p w = .ok () w' ∧
      interpretWithin budget room echo ⟨p.statements ++ q.statements⟩ w = interpretWithin budget room echo q w' := by
  rw [List.forM_eq_forM] at h
  constructor
  · simp only [interpretWithin, List.forM_eq_forM, h]
  · simp only [interpretWithin, List.forM_eq_forM, List.forM_append, bind_apply, h]

/-- Where a program is left by `run` or fails, nothing behind it is run. -/
theorem interpretWithin_append_of_error {e : Interrupt} (q : Program)
    (h : p.statements.forM (execTop budget room echo) w = .error e w') :
    (e = .run ∧ interpretWithin budget room echo p w = .ok () (w'.note .ranAtTop) ∨
        ∃ e', interpretWithin budget room echo p w = .error e' w') ∧
      interpretWithin budget room echo ⟨p.statements ++ q.statements⟩ w = interpretWithin budget room echo p w := by
  rw [List.forM_eq_forM] at h
  constructor
  · simp only [interpretWithin, List.forM_eq_forM, h]
    cases e with
    | run => exact Or.inl ⟨rfl, rfl⟩
    | _ => exact Or.inr ⟨_, rfl⟩
  · simp only [interpretWithin, List.forM_eq_forM, List.forM_append, bind_apply, h]

end Eval

/-- Two pieces of source that are accepted in a file, the second one counted from the line behind the first one, are
accepted as a whole: the tokens and the statements are those of the first piece and then those of the second one,
on the same lines. Whatever the world is, running the whole is running the first piece and then, unless that was
left by `run` or failed, the second one. -/
theorem chunks_compose {line : Int} {a b : String} {p q : Program}
    (ha : (parseSource line false a).result = .ok p)
    (hb : (parseSource (line + (a.toList.count '\n' : Nat) + 1) false b).result = .ok q) :
    (parseSource line false (a ++ "\n" ++ b)).result = .ok ⟨p.statements ++ q.statements⟩ ∧
    (∃ first second, Scan.ofSource line a.toList = .ok first ∧
      Scan.ofSource (line + (a.toList.count '\n' : Nat) + 1) b.toList = .ok second ∧
      Scan.ofSource line (a ++ "\n" ++ b).toList = .ok { second with tokens := first.tokens ++ second.tokens }) ∧
    ∀ (budget room : Nat) (echo : Bool) (w : World),
      (∀ w', p.statements.forM (Eval.execTop budget room echo) w = .ok () w' →
        Eval.interpretWithin budget room echo p w = .ok () w' ∧
          Eval.interpretWithin budget room echo ⟨p.statements ++ q.statements⟩ w =
            Eval.interpretWithin budget room echo q w') ∧
      ∀ e w', p.statements.forM (Eval.execTop budget room echo) w = .error e w' →
        (e = .run ∧ Eval.interpretWithin budget room echo p w = .ok () (w'.note .ranAtTop) ∨
            ∃ e', Eval.interpretWithin budget room echo p w = .error e' w') ∧
          Eval.interpretWithin budget room echo ⟨p.statements ++ q.statements⟩ w =
            Eval.interpretWithin budget room echo p w := by
  obtain ⟨first, hfirst, hnone, hp⟩ := parseSource_eq_ok.1 ha
  obtain ⟨second, hsecond, hnone', hq⟩ := parseSource_eq_ok.1 hb
  have hscan : Scan.ofSource line (a ++ "\n" ++ b).toList =
      .ok { second with tokens := first.tokens ++ second.tokens } := by
    have htext : (a ++ "\n" ++ b).toList = a.toList ++ '\n' :: b.toList := by simp
    rw [htext]
    exact Scan.ofSource_append hfirst hnone hsecond
  refine ⟨?_, ⟨first, second, hfirst, hsecond, hscan⟩, fun budget room echo w =>
    ⟨fun w' hok => ?_, fun e w' herror => ?_⟩⟩
  · exact parseSource_eq_ok.2 ⟨_, hscan, hnone', parseWithin_append hp hq⟩
  · exact Eval.interpretWithin_append_of_ok q hok
  · exact Eval.interpretWithin_append_of_error q herror

/-- A piece that ends with a comment, behind an `if` that could go on, and a piece that counts on its lines. -/
theorem chunks_compose_comment :
    (parseSource 3 false "if (true) \x7b \x7d :> no else").result =
        .ok ⟨[.cond (.literal (.bool true)) [] .nothing]⟩ ∧
      (parseSource 4 false "var x;").result = .ok ⟨[.var ⟨"x", 4⟩ none]⟩ ∧
      (parseSource 3 false ("if (true) \x7b \x7d :> no else" ++ "\n" ++ "var x;")).result =
        .ok ⟨[.cond (.literal (.bool true)) [] .nothing, .var ⟨"x", 4⟩ none]⟩ := by
  have hfirst : (parseSource 3 false "if (true) \x7b \x7d :> no else").result =
      .ok ⟨[.cond (.literal (.bool true)) [] .nothing]⟩ := rfl
  have hsecond : (parseSource 4 false "var x;").result = .ok ⟨[.var ⟨"x", 4⟩ none]⟩ := rfl
  exact ⟨hfirst, hsecond, (chunks_compose hfirst hsecond).1⟩

end SafariScript
