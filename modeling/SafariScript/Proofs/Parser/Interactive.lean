import SafariScript.Proofs.Parser.Conclusion
import SafariScript.Proofs.Parser.StatementRepetition
import SafariScript.Proofs.Parser.Totality

/-!
# Interactive use and files

A script in interactive use is a script in a file, but for semicolons that may be left out. What the parser reads in
a file it reads in interactive use with the same result; and what it reads in interactive use it reads in a file, if
some semicolons are put in outside all braces, each at the end of a line (`Completed`).

That a semicolon is put in outside all braces is seen from the grammar: whatever a statement consists of, it closes
the braces that it opens, so between the statements of a script no brace is open.
-/

namespace SafariScript

/-- How many more braces are open behind a token than in front of it. -/
def Token.braceStep (t : Token) : Int :=
  match t.kind with
  | .symbol .leftBrace => 1
  | .symbol .rightBrace => -1
  | _ => 0

/-- How many more braces are open behind some tokens than in front of them. -/
def braceLevel : List Token → Int
  | [] => 0
  | t :: ts => t.braceStep + braceLevel ts

@[simp] theorem braceLevel_nil : braceLevel [] = 0 := rfl

@[simp] theorem braceLevel_cons (t : Token) (ts : List Token) :
    braceLevel (t :: ts) = t.braceStep + braceLevel ts := rfl

@[simp] theorem braceLevel_append (ts us : List Token) : braceLevel (ts ++ us) = braceLevel ts + braceLevel us := by
  induction ts with
  | nil => simp
  | cons t ts ih => simp [ih, Int.add_assoc]

/-- The tokens with some semicolons put in: each at the end of a line, outside all braces and on the line of the
token in front of it. So many braces are open in front of the tokens. -/
inductive Completed : (level : Int) → List Token → List Token → Prop
  | nil (level : Int) : Completed level [] []
  | keep {level : Int} {ts ts' : List Token} (t : Token) (rest : Completed (level + t.braceStep) ts ts') :
      Completed level (t :: ts) (t :: ts')
  | semicolon {level : Int} {ts ts' : List Token} (t : Token) (outside : level + t.braceStep = 0)
      (ends : Grammar.endsLine t.line ts = true) (rest : Completed (level + t.braceStep) ts ts') :
      Completed level (t :: ts) (t :: .symbol .semicolon t.line :: ts')

namespace Completed

variable {level : Int} {us us' : List Token}

theorem head_eq (h : Completed level us us') : us'.head? = us.head? := by
  cases h <;> rfl

/-- Nothing is put in behind the first tokens. -/
theorem append (ts : List Token) (h : Completed (level + braceLevel ts) us us') :
    Completed level (ts ++ us) (ts ++ us') := by
  induction ts generalizing level with
  | nil => simpa using h
  | cons t ts ih => exact .keep t (ih (by simpa [Int.add_assoc] using h))

/-- A semicolon is put in behind the first tokens. -/
theorem append_semicolon {ts : List Token} (hts : ts ≠ []) (houtside : level + braceLevel ts = 0)
    (hends : Grammar.endsLine (Grammar.linePast 0 ts) us = true) (h : Completed 0 us us') :
    Completed level (ts ++ us) (ts ++ .symbol .semicolon (Grammar.linePast 0 ts) :: us') := by
  induction ts generalizing level with
  | nil => exact absurd rfl hts
  | cons t ts ih =>
      have hlevel : level + t.braceStep + braceLevel ts = 0 := by simpa [Int.add_assoc] using houtside
      cases ts with
      | nil =>
          have hlevel : level + t.braceStep = 0 := by simpa using hlevel
          exact .semicolon t hlevel hends (by rwa [hlevel])
      | cons u ts => exact .keep t (ih (List.cons_ne_nil u ts) hlevel hends)

end Completed

/-! ## Braces in the grammar -/

namespace Grammar

@[simp] theorem braceStep_unary (op : UnaryOp) (line : Int) : (Token.symbol op.symbol line).braceStep = 0 := by
  cases op <;> rfl

@[simp] theorem braceStep_binary (op : BinaryOp) (line : Int) : (Token.symbol op.symbol line).braceStep = 0 := by
  cases op with
  | int op => cases op <;> rfl
  | _ => rfl

/-- There are no braces in expressions. -/
theorem Derives.braceLevel_eq_zero {rule : Rule} {ts : List Token} {tree : rule.Tree} (h : Derives rule ts tree) :
    braceLevel ts = 0 := by
  induction h with
  | unary op line _ ih => simp [ih]
  | binary op line _ _ _ ih₁ ih₂ => simp [ih₁, ih₂]
  | _ => simp_all [Token.braceStep]

theorem Params.braceLevel_eq_zero {ts : List Token} {params : List Word} (h : Params ts params) :
    braceLevel ts = 0 := by
  cases h with
  | none => rfl
  | some list =>
      induction list with
      | last last => simp [last, Token.braceStep]
      | next l first _ ih => simp [first, ih, Token.braceStep]

theorem Terminator.braceLevel_eq_zero {around : Surroundings} {line : Int} {ts rest : List Token}
    (h : Terminator around line ts rest) : braceLevel ts = 0 := by
  cases h <;> rfl

theorem Simple.braceLevel_eq_zero {around : Surroundings} {ts : List Token} {s : Stmt} (h : Simple around ts s) :
    braceLevel ts = 0 := by
  cases h with
  | expr value => exact value.braceLevel_eq_zero
  | print _ _ _ value | varInitial _ _ _ value | ret _ value | throwBall _ _ _ value =>
      simp [Token.braceStep, value.braceLevel_eq_zero]
  | _ => rfl

/-- A statement closes the braces that it opens. -/
theorem Forms.braceLevel_eq_zero {rule : StmtRule} {around : Surroundings} {ts rest : List Token}
    {tree : rule.Tree} (h : Forms rule around ts rest tree) : braceLevel ts = 0 := by
  induction h with
  | simple body ends => simp [body.braceLevel_eq_zero, ends.braceLevel_eq_zero]
  | block _ ih => exact ih
  | cond _ _ _ condition _ _ ih₁ ih₂ | elseIf _ _ _ _ condition _ _ ih₁ ih₂ =>
      simp [Token.braceStep, condition.braceLevel_eq_zero, ih₁, ih₂]
  | loop _ _ _ condition _ ih => simp [Token.braceStep, condition.braceLevel_eq_zero, ih]
  | forEach _ _ _ source _ ih => simp [Token.braceStep, source.braceLevel_eq_zero, ih]
  | forRange _ _ _ _ first last _ ih =>
      simp [Token.braceStep, first.braceLevel_eq_zero, last.braceLevel_eq_zero, ih]
  | define _ _ _ _ parameters _ ih => simp [Token.braceStep, parameters.braceLevel_eq_zero, ih]
  | explore _ _ _ _ _ ih | elseBlock _ _ ih | braces _ _ _ ih => simp [Token.braceStep, ih]
  | cons _ _ ih₁ ih₂ => simp [ih₁, ih₂]
  | bareReturn | nothing | nil => rfl

end Grammar

/-! ## Scripts read again -/

namespace Parser

open Grammar

theorem Sound.and {α : Type} {p : Parser α} {R T : ParseState → α → ParseState → Prop} (hR : Sound p R)
    (hT : Sound p T) : Sound p fun s a s' => R s a s' ∧ T s a s' := by
  intro s
  have hR := hR s
  have hT := hT s
  cases hps : p s with
  | ok a s' =>
      simp only [hps] at hR hT ⊢
      rcases hR with hgrew | ⟨hproblems, hR⟩
      · exact Or.inl hgrew
      · exact hT.imp id fun ⟨_, hT⟩ => ⟨hproblems, hR, hT⟩
  | error e s' => simpa only [hps] using hR

/-- A statement outside all braces, and then the rest of the tokens. -/
theorem Ended.completed {around : Surroundings} {s s' : ParseState} {ts ts' us' : List Token} {stmt : Stmt}
    (h : Ended around s' ts ts') (hreads : s.Reads ts s') (hforms : Forms .statement around ts s'.rest stmt)
    (hrest : Completed 0 s'.rest us') : Completed 0 s.rest (ts' ++ us') := by
  have hlevel : 0 + braceLevel ts = 0 := by rw [hforms.braceLevel_eq_zero, Int.zero_add]
  rw [hreads.rest]
  cases h with
  | same => exact .append ts (by rwa [hlevel])
  | semicolon hopen =>
      have hends := hopen.ends
      rw [hreads.lastLine_of_ne_nil hforms.statement_ne_nil] at hends ⊢
      rw [List.append_assoc]
      exact .append_semicolon hforms.statement_ne_nil hlevel hends hrest

/-- A script that was read in one use is read in the other one, once it is completed. -/
def ReadsCompleted (limit : Nat) (interactive interactive' : Bool) (s : ParseState) (body : List Stmt) : Prop :=
  ∃ ts', Completed 0 s.rest ts' ∧ (interactive = false → ts' = s.rest) ∧
    ∀ fuel t, t.rest = ts' → ts'.length ≤ fuel.length →
      ∃ t', script limit interactive' fuel t = .ok body t' ∧ t'.problems = t.problems

theorem readsCompleted_nil (limit : Nat) (interactive interactive' : Bool) {s : ParseState} (hs : s.rest = []) :
    ReadsCompleted limit interactive interactive' s [] := by
  rw [ReadsCompleted, hs]
  exact ⟨[], .nil 0, fun _ => rfl, fun fuel t ht _ => ⟨t, items_of_nil false ht fuel, rfl⟩⟩

/-- A statement that was read, and then the others. -/
theorem ReadsCompleted.cons {limit : Nat} {interactive interactive' : Bool} {s s₁ : ParseState} {first : Stmt}
    {others : List Stmt} (hforms : Formed .statement { interactive } s first s₁)
    (hstmt : Restated { interactive } true (statement limit { interactive := interactive' }) s first s₁)
    (hothers : ReadsCompleted limit interactive interactive' s₁ others) :
    ReadsCompleted limit interactive interactive' s (first :: others) := by
  obtain ⟨ts, hts, hforms⟩ := hforms
  obtain ⟨us, ts', hus, -, hended, hagain⟩ := hstmt
  obtain rfl := hts.unique hus
  obtain ⟨us', hcompleted, hsame, hrest⟩ := hothers
  refine ⟨ts' ++ us', hended.completed hts hforms hcompleted, fun hfile => ?_, fun fuel t ht hfuel => ?_⟩
  · cases hended with
    | same => rw [hts.rest, hsame hfile]
    | semicolon hopen => exact absurd (hfile.symm.trans hopen.interactive) (by decide)
  · have hne : ts' ≠ [] := hended.ne_nil hforms.statement_ne_nil
    have hpos : 0 < ts'.length := List.length_pos_iff.2 hne
    rw [List.length_append] at hfuel
    -- the state behind the first statement
    let t₁ : ParseState := { t with rest := us', lastLine := linePast t.lastLine ts' }
    have hfirst : t.Reads ts' t₁ := ⟨ht, rfl⟩
    have hfollows : Follows false s₁.rest t₁.rest := Or.inl (by rw [hcompleted.head_eq])
    cases fuel with
    | nil =>
        rw [List.length_nil] at hfuel
        omega
    | cons u fuel =>
        rw [List.length_cons] at hfuel
        obtain ⟨t', ht', hproblems⟩ := hrest fuel t₁ rfl (by omega)
        have hnonempty : t.rest ≠ [] := by
          rw [ht]
          exact List.append_ne_nil_of_left_ne_nil hne us'
        refine ⟨t', (script_turn_eq_ok hnonempty u fuel).2 ⟨some first, t₁, others, ?_, ht', rfl⟩, hproblems⟩
        exact recover_of_ok false (hagain t t₁ hfirst hfollows)

/-- What the loop over the statements of a script reads, it reads again in the other use. -/
theorem script_completed (limit : Nat) (interactive interactive' : Bool) (fuel : List Token) :
    Sound (script limit interactive fuel) fun s body _ =>
      s.rest.length ≤ fuel.length → ReadsCompleted limit interactive interactive' s body := by
  induction fuel with
  | nil =>
      refine (sound_pure _).mono ?_
      rintro s body s' ⟨rfl, rfl⟩ hfuel
      exact readsCompleted_nil _ _ _ (List.length_eq_zero_iff.1 (Nat.le_zero.1 hfuel))
  | cons u fuel ih =>
      refine sound_ofPeek fun kind => ?_
      split
      · refine (sound_pure _).mono ?_
        rintro s body s' ⟨rfl, rfl⟩ hkind _
        exact readsCompleted_nil _ _ _ (by simpa using hkind)
      · simp only [Bool.false_and, Bool.false_eq_true, if_false]
        have hstmt := (sound_statement limit { interactive }).and
          (restates_statement limit { interactive } interactive')
        refine ((sound_recover false hstmt).bind fun _ => ih.bind fun _ => sound_pure _).mono ?_
        rintro s body s' ⟨_, s₁, ⟨first, rfl, hforms, hagain⟩, others, s₂, hothers, rfl, rfl⟩ _ hfuel
        refine .cons hforms hagain (hothers ?_)
        obtain ⟨ts, hts, hforms⟩ := hforms
        have hpos : 0 < ts.length := List.length_pos_iff.2 hforms.statement_ne_nil
        have hlength := hts.length_eq
        rw [List.length_cons] at hfuel
        omega

/-- What was parsed without a problem is parsed in the other use, once it is completed. -/
theorem exists_parseWithin_completed {limit : Nat} {interactive : Bool} {tokens : List Token} {endLine : Int}
    {problems : Diagnostics} {program : Program} (interactive' : Bool)
    (h : parseWithin? limit interactive tokens endLine problems = some ⟨program, problems⟩) :
    ∃ tokens', Completed 0 tokens tokens' ∧ (interactive = false → tokens' = tokens) ∧
      parseWithin? limit interactive' tokens' endLine problems = some ⟨program, problems⟩ := by
  obtain ⟨s, hscript, hproblems⟩ := exists_script_of_parseWithin h
  obtain ⟨tokens', hcompleted, hsame, hagain⟩ :=
    (script_completed limit interactive interactive' tokens).of_ok hscript hproblems (Nat.le_refl _)
  obtain ⟨t, ht, ht'⟩ := hagain tokens' ⟨tokens', endLine, endLine, problems⟩ rfl (Nat.le_refl _)
  refine ⟨tokens', hcompleted, hsame, ?_⟩
  rw [parseWithin_of_script_ok ht, ht']

end Parser

/-- Interactive use is use in a file with semicolons that may be left out at the ends of lines: what is parsed in a
file is parsed in the same way in interactive use, and what is parsed in interactive use is parsed in the same way in
a file once the semicolons are put in. -/
theorem parseWithin_interactive (limit : Nat) (tokens : List Token) (endLine : Int) (problems : Diagnostics)
    (program : Program) :
    (parseWithin? limit false tokens endLine problems = some ⟨program, problems⟩ →
      parseWithin? limit true tokens endLine problems = some ⟨program, problems⟩) ∧
    (parseWithin? limit true tokens endLine problems = some ⟨program, problems⟩ →
      ∃ tokens', Completed 0 tokens tokens' ∧
        parseWithin? limit false tokens' endLine problems = some ⟨program, problems⟩) := by
  refine ⟨fun h => ?_, fun h => ?_⟩
  · obtain ⟨tokens', -, hsame, hparse⟩ := Parser.exists_parseWithin_completed true h
    rwa [hsame rfl] at hparse
  · obtain ⟨tokens', hcompleted, -, hparse⟩ := Parser.exists_parseWithin_completed false h
    exact ⟨tokens', hcompleted, hparse⟩

/-- The statements `return 1`, `while (x) { break; }` and `print(x)` on a line each, with no semicolon at the ends of
the first line and of the last one. -/
theorem parseWithin_interactive_lines :
    let program : Program := ⟨[.ret 1 (some (.literal (.int 1))), .loop (.ident ⟨"x", 2⟩) [.breakLoop],
      .print (.ident ⟨"x", 3⟩)]⟩
    let loop : List Token := [.keyword .whileKw 2, .symbol .leftParen 2, .name ⟨"x", 2⟩, .symbol .rightParen 2,
      .symbol .leftBrace 2, .keyword .breakKw 2, .symbol .semicolon 2, .symbol .rightBrace 2]
    let lines : List Token := [.keyword .returnKw 1, ⟨.number "1", 1⟩] ++ loop ++
      [.keyword .printKw 3, .symbol .leftParen 3, .name ⟨"x", 3⟩, .symbol .rightParen 3]
    let whole : List Token := [.keyword .returnKw 1, ⟨.number "1", 1⟩, .symbol .semicolon 1] ++ loop ++
      [.keyword .printKw 3, .symbol .leftParen 3, .name ⟨"x", 3⟩, .symbol .rightParen 3, .symbol .semicolon 3]
    (parse? true lines 3 [] = some ⟨program, []⟩ ∧
      ∃ tokens', Completed 0 lines tokens' ∧ parse? false tokens' 3 [] = some ⟨program, []⟩) ∧
    parse? false whole 3 [] = some ⟨program, []⟩ ∧ parse? true whole 3 [] = some ⟨program, []⟩ := by
  intro program loop lines whole
  have hlines : parse? true lines 3 [] = some ⟨program, []⟩ := by rfl
  have hwhole : parse? false whole 3 [] = some ⟨program, []⟩ := by rfl
  exact ⟨⟨hlines, (parseWithin_interactive _ lines 3 [] program).2 hlines⟩, hwhole,
    (parseWithin_interactive _ whole 3 [] program).1 hwhole⟩

end SafariScript
