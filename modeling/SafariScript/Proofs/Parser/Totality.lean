import SafariScript.Proofs.Parser.Counting
import SafariScript.Proofs.Parser.StatementContext

/-!
# Every list of tokens is parsed

Whatever the tokens are, parsing ends: every turn of a loop over statements consumes a token, whether a statement
comes out of it or not, so the loops end with the tokens or at a closing brace; and a bound on the nesting that is
larger than the number of tokens is never exceeded, up to a factor. Under a tighter bound the answer is the same,
or there is none.
-/

namespace SafariScript

open SafariScript.Parser

namespace Parser

/-- Under recovery a statement always moves on. -/
theorem recover_statement_moves {limit : Nat} {inBlock : Bool} {around : Surroundings} {s s' : ParseState}
    {result : Option Stmt} (hs : s.rest ≠ [])
    (h : recover inBlock (statement limit around) s = .ok result s') :
    ∃ ts, ts ≠ [] ∧ s.rest = ts ++ s'.rest := by
  have hpos : 0 < s.rest.length := List.length_pos_iff.2 hs
  have hproceeds : Proceeds ⟨[], 0, [], s.rest.length⟩ false 0 true s (recover inBlock (statement limit around))
      (recover inBlock (statement limit around)) :=
    proceeds_recover inBlock (proceeds_statement (Nat.zero_le _) (Nat.le_refl limit) fun _ _ => by
      show s.rest.length - 1 < s.rest.length
      omega) hs
  obtain ⟨ts, hts, -⟩ := hproceeds.moves_of_ok h
  have hlength := hproceeds.eats rfl result s' h
  refine ⟨ts, fun hnil => ?_, hts⟩
  rw [hts, hnil, List.nil_append] at hlength
  exact absurd hlength (Nat.lt_irrefl _)

/-- A loop over statements ends with the tokens, or in a block at its closing brace. -/
theorem items_statement_ends {limit : Nat} {inBlock : Bool} {around : Surroundings} {s s' : ParseState}
    {body : List Stmt} (h : items inBlock (recover inBlock (statement limit around)) s.rest s = .ok body s') :
    s'.rest = [] ∨ inBlock = true ∧ s'.sees (.symbol .rightBrace) = true := by
  refine items_ends inBlock (fun u result u' hu hok => ?_) s.rest (Nat.le_refl _) h
  obtain ⟨ts, hts, hrest⟩ := recover_statement_moves hu hok
  have hpos : 0 < ts.length := List.length_pos_iff.2 hts
  rw [hrest, List.length_append]
  omega

theorem recover_ne_complaint {α : Type} {item : Parser α} (inBlock : Bool) {s s' : ParseState}
    {complaint : Complaint} {place : Word} :
    recover inBlock item s ≠ .error (.complaint complaint place) s' := by
  unfold recover
  split <;> simp

/-- No complaint gets out of the loop over statements. -/
theorem items_ne_complaint {α : Type} {item : Parser α} (inBlock : Bool) (fuel : List Token) {s s' : ParseState}
    {complaint : Complaint} {place : Word} :
    items inBlock (recover inBlock item) fuel s ≠ .error (.complaint complaint place) s' := by
  intro h
  induction fuel generalizing s with
  | nil => cases h
  | cons t fuel ih =>
      unfold items at h
      rw [bind_apply, peek_apply] at h
      cases hkind : s.rest.head?.map Token.kind with
      | none =>
          rw [hkind] at h
          cases h
      | some kind =>
          rw [hkind] at h
          simp only at h
          split at h
          · cases h
          · rcases bind_eq_error.1 h with hfirst | ⟨a, s₁, -, hnext⟩
            · exact recover_ne_complaint inBlock hfirst
            · rcases bind_eq_error.1 hnext with hothers | ⟨others, s₂, -, hdone⟩
              · exact ih hothers
              · cases hdone

/-- A script is read to its end, unless it is nested too deeply for a bound that is not large enough. -/
theorem script_ends (limit : Nat) (interactive : Bool) (s : ParseState) :
    (∃ body s', script limit interactive s.rest s = .ok body s' ∧ s'.rest = [] ∧ s'.endLine = s.endLine) ∨
      limit ≤ 4 * s.rest.length + 4 ∧ ∃ s', script limit interactive s.rest s = .error .tooDeep s' := by
  have hproceeds : Proceeds ⟨[], 0, [], s.rest.length⟩ false ((limit - 1) / 4) false s
      (script limit interactive s.rest) (script limit interactive s.rest) :=
    proceeds_script (by omega) (Nat.le_refl limit) s.rest s.rest s (Nat.le_refl _) (Nat.le_refl _) fun _ =>
      Nat.le_refl _
  cases hscript : script limit interactive s.rest s with
  | ok body s' =>
      obtain ⟨-, -, -, hend, -⟩ := hproceeds.moves_of_ok hscript
      rcases items_statement_ends hscript with hrest | ⟨hfalse, -⟩
      · exact Or.inl ⟨body, s', rfl, hrest, hend⟩
      · cases hfalse
  | error e s' =>
      cases e with
      | complaint complaint place => exact absurd hscript (items_ne_complaint false s.rest)
      | tooDeep =>
          have hample := hproceeds.ample s' hscript
          exact Or.inr ⟨by omega, s', rfl⟩

/-- A looser bound on the nesting and another line to start from do not change what was read. -/
theorem script_steady {limit limit' : Nat} {interactive : Bool} {s s' : ParseState} {body : List Stmt}
    (hlimit : limit ≤ limit') (line : Int) (h : script limit interactive s.rest s = .ok body s') :
    ∃ last, script limit' interactive s.rest { s with lastLine := line } =
      .ok body { s' with lastLine := last } := by
  have hproceeds : Proceeds ⟨[], s.endLine, [], s.rest.length⟩ false 0 false s
      (script limit interactive s.rest) (script limit' interactive s.rest) :=
    proceeds_script (Nat.zero_le _) hlimit s.rest s.rest s (Nat.le_refl _) (Nat.le_refl _) fun _ => Nat.le_refl _
  obtain ⟨-, -, -, hend, -⟩ := hproceeds.moves_of_ok h
  obtain ⟨t, ht, hembeds⟩ := hproceeds.exists_ok h (t := { s with lastLine := line })
    ⟨(List.append_nil _).symm, rfl, rfl, fun hlt => absurd hlt (Nat.lt_irrefl _)⟩ (Or.inr ⟨rfl, hend.symm⟩)
  refine ⟨t.lastLine, ?_⟩
  have hrest : t.rest = s'.rest := hembeds.rest.trans (List.append_nil _)
  have hendLine : t.endLine = s'.endLine := hembeds.endLine.trans hend.symm
  have hproblems : t.problems = s'.problems := hembeds.problems
  rw [ht, ← hrest, ← hendLine, ← hproblems]

end Parser

theorem parseWithin_of_script_ok {limit : Nat} {interactive : Bool} {tokens : List Token} {endLine : Int}
    {problems : Diagnostics} {body : List Stmt} {s : ParseState}
    (h : script limit interactive tokens ⟨tokens, endLine, endLine, problems⟩ = .ok body s) :
    parseWithin? limit interactive tokens endLine problems = some ⟨⟨body⟩, s.problems⟩ := by
  simp only [parseWithin?, h]

theorem exists_script_of_parseWithin {limit : Nat} {interactive : Bool} {tokens : List Token} {endLine : Int}
    {problems : Diagnostics} {parsed : Parsed}
    (h : parseWithin? limit interactive tokens endLine problems = some parsed) :
    ∃ s, script limit interactive tokens ⟨tokens, endLine, endLine, problems⟩ = .ok parsed.program.statements s ∧
      s.problems = parsed.problems := by
  cases hscript : script limit interactive tokens ⟨tokens, endLine, endLine, problems⟩ with
  | ok body s =>
      rw [parseWithin_of_script_ok hscript] at h
      cases h
      exact ⟨s, rfl, rfl⟩
  | error e s =>
      simp only [parseWithin?, hscript] at h
      cases h

theorem parseWithin_of_script_error {limit : Nat} {interactive : Bool} {tokens : List Token} {endLine : Int}
    {problems : Diagnostics} {e : ParseStop} {s : ParseState}
    (h : script limit interactive tokens ⟨tokens, endLine, endLine, problems⟩ = .error e s) :
    parseWithin? limit interactive tokens endLine problems = none := by
  simp only [parseWithin?, h]

/-- A script has one answer. Under a bound on the nesting it is found, whatever line the parser starts from, or the
bound is exceeded, which does not happen if the bound is larger than a multiple of the number of tokens. -/
theorem exists_answer (interactive : Bool) (tokens : List Token) (endLine : Int) (problems : Diagnostics) :
    ∃ parsed : Parsed, ∀ limit : Nat,
      (∀ line, ∃ last, script limit interactive tokens ⟨tokens, endLine, line, problems⟩ =
          .ok parsed.program.statements ⟨[], endLine, last, parsed.problems⟩) ∨
        limit ≤ 4 * tokens.length + 4 ∧
          ∀ line, ∃ s, script limit interactive tokens ⟨tokens, endLine, line, problems⟩ = .error .tooDeep s := by
  -- the answer under some bound that is large enough is the answer under all of them
  obtain ⟨body, s, hlarge, -⟩ := (script_ends (4 * tokens.length + 5) interactive
    ⟨tokens, endLine, endLine, problems⟩).resolve_right fun h => by simp only at h; omega
  refine ⟨⟨⟨body⟩, s.problems⟩, fun limit => ?_⟩
  rcases script_ends limit interactive ⟨tokens, endLine, endLine, problems⟩ with
    ⟨body', s', hok, hrest, hend⟩ | ⟨hlimit, s', hdeep⟩
  · refine Or.inl fun line => ?_
    have hsame : body' = body ∧ s'.problems = s.problems := by
      rcases Nat.le_total limit (4 * tokens.length + 5) with hle | hle
      · obtain ⟨last, hsteady⟩ := script_steady hle endLine hok
        obtain ⟨rfl, rfl⟩ := EStateM.Result.ok.inj (hsteady.symm.trans hlarge)
        exact ⟨rfl, rfl⟩
      · obtain ⟨last, hsteady⟩ := script_steady hle endLine hlarge
        obtain ⟨rfl, rfl⟩ := EStateM.Result.ok.inj (hsteady.symm.trans hok)
        exact ⟨rfl, rfl⟩
    obtain ⟨last, hline⟩ := script_steady (Nat.le_refl limit) line hok
    rw [hrest, hend, hsame.1, hsame.2] at hline
    exact ⟨last, hline⟩
  · refine Or.inr ⟨hlimit, fun line => ?_⟩
    rcases script_ends limit interactive ⟨tokens, endLine, line, problems⟩ with
      ⟨body', s', hok, -⟩ | ⟨-, hdeep'⟩
    · obtain ⟨last, hsteady⟩ := script_steady (Nat.le_refl limit) endLine hok
      cases hsteady.symm.trans hdeep
    · exact hdeep'

/-- The answer is found under every bound on the nesting that is large enough, or that is not exceeded. -/
theorem exists_found (interactive : Bool) (tokens : List Token) (endLine : Int) (problems : Diagnostics) :
    ∃ parsed : Parsed, ∀ limit : Nat,
      4 * tokens.length + 4 < limit ∨ (parseWithin? limit interactive tokens endLine problems).isSome = true →
        ∃ last, script limit interactive tokens ⟨tokens, endLine, endLine, problems⟩ =
          .ok parsed.program.statements ⟨[], endLine, last, parsed.problems⟩ := by
  obtain ⟨parsed, hparsed⟩ := exists_answer interactive tokens endLine problems
  refine ⟨parsed, fun limit hlimit => ?_⟩
  rcases hparsed limit with hok | ⟨hsmall, hdeep⟩
  · exact hok endLine
  · rcases hlimit with hlarge | hsome
    · omega
    · obtain ⟨s, hend⟩ := hdeep endLine
      rw [parseWithin_of_script_error hend] at hsome
      cases hsome

/-- Parsing gives an answer for every list of tokens, the same one under every bound on the nesting that is not
exceeded, and no bound that is larger than a multiple of the number of tokens is exceeded. It ends behind the last
token with nothing open, whatever line it starts from. Every statement that a loop begins to read consumes tokens,
whether it is recovered from a complaint or not, and the loops end with the tokens or at a closing brace. -/
theorem parse_total (interactive : Bool) (tokens : List Token) (endLine : Int) (problems : Diagnostics) :
    (∃ parsed : Parsed, ∀ (limit : Nat) (line : Int),
      (∃ last, Counting.script limit interactive tokens ({}, ⟨tokens, endLine, line, problems⟩) =
          .ok parsed.program.statements ({}, ⟨[], endLine, last, parsed.problems⟩)) ∧
        parseWithin? limit interactive tokens endLine problems = some parsed ∨
      limit ≤ 4 * tokens.length + 4 ∧
        (∃ s, Counting.script limit interactive tokens ({}, ⟨tokens, endLine, line, problems⟩) =
          .error .tooDeep ({}, s)) ∧
        parseWithin? limit interactive tokens endLine problems = none) ∧
    (∀ (limit : Nat) (inBlock : Bool) (around : Surroundings) (s s' : ParseState) (result : Option Stmt),
      s.rest ≠ [] → recover inBlock (statement limit around) s = .ok result s' →
        ∃ ts, ts ≠ [] ∧ s.rest = ts ++ s'.rest) ∧
    ∀ (limit : Nat) (inBlock : Bool) (around : Surroundings) (s s' : ParseState) (body : List Stmt),
      items inBlock (recover inBlock (statement limit around)) s.rest s = .ok body s' →
        s'.rest = [] ∨ inBlock = true ∧ s'.sees (.symbol .rightBrace) = true := by
  refine ⟨?_, fun _ _ _ _ _ _ => recover_statement_moves, fun _ _ _ _ _ _ => items_statement_ends⟩
  obtain ⟨parsed, hparsed⟩ := exists_answer interactive tokens endLine problems
  refine ⟨parsed, fun limit line => ?_⟩
  rcases hparsed limit with hok | ⟨hlimit, hdeep⟩
  · obtain ⟨last, hline⟩ := hok line
    obtain ⟨last', hend⟩ := hok endLine
    refine Or.inl ⟨⟨last, ?_⟩, parseWithin_of_script_ok hend⟩
    rw [Counting.script_eq, Counting.lift]
    simp only [hline]
  · obtain ⟨s, hline⟩ := hdeep line
    obtain ⟨s', hend⟩ := hdeep endLine
    refine Or.inr ⟨hlimit, ⟨s, ?_⟩, parseWithin_of_script_error hend⟩
    rw [Counting.script_eq, Counting.lift]
    simp only [hline]

/-- A brace that closes nothing, a parenthesis in place of a semicolon, and a block that is never closed. -/
theorem parse_total_malformed :
    let tokens : List Token := [.symbol .rightBrace 1, .keyword .whileKw 2, .symbol .leftParen 2,
      .keyword .trueKw 2, .symbol .rightParen 2, .symbol .leftBrace 2, .keyword .breakKw 3, .symbol .rightParen 3,
      .symbol .semicolon 3]
    ∃ parsed last, parse? true tokens 4 [] = some parsed ∧ parsed.problems.length = 3 ∧
      Counting.script nestingLimit true tokens ({}, ⟨tokens, 4, 4, []⟩) =
        .ok parsed.program.statements ({}, ⟨[], 4, last, parsed.problems⟩) := by
  intro tokens
  obtain ⟨parsed, hparsed⟩ := (parse_total true tokens 4 []).1
  obtain ⟨⟨last, hscript⟩, hparse⟩ := (hparsed nestingLimit 4).resolve_right fun h => absurd h.1 (by decide)
  refine ⟨parsed, last, hparse, ?_, hscript⟩
  have hcomputed : (parse? true tokens 4 []).map (·.problems.length) = some 3 := by decide +kernel
  rw [parse?, hparse] at hcomputed
  simpa using hcomputed

end SafariScript
