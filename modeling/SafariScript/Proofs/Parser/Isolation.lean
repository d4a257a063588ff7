import SafariScript.Proofs.Parser.Conclusion
import SafariScript.Proofs.Parser.Totality

/-!
# Mistakes in a simple statement stay there

In a file, tokens without semicolons and braces, and without a statement keyword behind their first token, are
either one simple statement or a mistake. In both cases the semicolon behind them ends the turn of the parser:
a statement consumes it as its last token, and a mistake is found in front of it, from where nothing but the
semicolon stops the skipping. So what stands behind it is parsed as by itself.
-/

namespace SafariScript

open Grammar SafariScript.Parser

/-- A token at which tokens can divide into statements, whatever stands around it. -/
def TokenKind.divides : TokenKind → Bool
  | .symbol .semicolon | .symbol .leftBrace | .symbol .rightBrace => true
  | _ => false

/-- Tokens that hold at most one statement: nothing divides them, and only the first one may be a statement
keyword. -/
structure Undivided (ts : List Token) : Prop where
  plain : ∀ t ∈ ts, t.kind.divides = false
  starts : ∀ t ∈ ts.tail, Recovery.isBoundary false t.kind = false

/-- Nothing stops the skipping in front of the semicolon. -/
theorem Recovery.skip_undivided (progressed : Bool) (last : Int) (ts rest : List Token) (l : Int)
    (hplain : ∀ t ∈ ts, t.kind.divides = false)
    (hstarts : ∀ t ∈ if progressed then ts else ts.tail, isBoundary false t.kind = false) :
    skip false progressed last (ts ++ .symbol .semicolon l :: rest) = (rest, l) := by
  induction ts generalizing progressed last with
  | nil => cases progressed <;> rfl
  | cons t ts ih =>
      have ht : t.kind.divides = false := hplain t List.mem_cons_self
      have hboundary : (progressed && isBoundary false t.kind) = false := by
        cases progressed with
        | false => rfl
        | true => exact hstarts t List.mem_cons_self
      have hsemicolon : t.kind ≠ .symbol .semicolon := fun hkind => by rw [hkind] at ht; cases ht
      have hopen : t.kind ≠ .symbol .leftBrace := fun hkind => by rw [hkind] at ht; cases ht
      simp only [List.cons_append, skip, hboundary, Bool.false_eq_true, if_false, if_neg hsemicolon, if_neg hopen]
      refine ih true t.line (fun u hu => hplain u (List.mem_cons_of_mem t hu)) fun u hu => hstarts u ?_
      cases progressed with
      | false => exact hu
      | true => exact List.mem_cons_of_mem t hu

section

variable {c : Context} {s s₁ : ParseState} {ts : List Token} {l : Int} {limit : Nat}

/-- What is left in front of the last semicolon when no semicolon was consumed. -/
theorem ParseState.Moves.exists_left (h : s.Moves true s₁) (hs : s.rest = ts ++ [.symbol .semicolon l]) :
    ∃ us vs, ts = us ++ vs ∧ s₁.rest = vs ++ [.symbol .semicolon l] := by
  obtain ⟨us, hus, -, -, hspared⟩ := h
  rcases List.eq_nil_or_concat s₁.rest with hnil | ⟨vs, last, hlast⟩
  · rw [hs, hnil, List.append_nil] at hus
    exact absurd rfl (hspared rfl (.symbol .semicolon l) (by rw [← hus]; simp))
  · rw [hs, hlast, List.concat_eq_append, ← List.append_assoc] at hus
    obtain ⟨hts, hsemicolon⟩ := List.append_inj' hus rfl
    exact ⟨us, vs, hts, by rw [hlast, List.concat_eq_append, hsemicolon]⟩

theorem Undivided.not_braced (hts : Undivided ts) (hs : s.rest = ts ++ [.symbol .semicolon l]) : ¬s.Braced := by
  rintro ⟨t, ht, hkind⟩
  rw [hs, List.mem_append, List.mem_singleton] at ht
  rcases ht with ht | rfl
  · have hplain := hts.plain t ht
    rw [hkind] at hplain
    cases hplain
  · cases hkind

/-- Among such tokens only the semicolon ends a statement. -/
theorem Undivided.rest_eq_nil {us : List Token} {last : Token} (hts : Undivided ts)
    (hs : s.rest = ts ++ [.symbol .semicolon l]) (hus : s.rest = us ++ last :: s₁.rest)
    (hlast : last.kind.endsStatement = true) : s₁.rest = [] := by
  rcases List.eq_nil_or_concat s₁.rest with hnil | ⟨vs, u, hu⟩
  · exact hnil
  · -- the token that ended the statement would stand in front of the semicolon
    rw [hs, hu, List.concat_eq_append, ← List.cons_append, ← List.append_assoc] at hus
    obtain ⟨hus, -⟩ := List.append_inj' hus rfl
    have hplain := hts.plain last (by rw [hus]; simp)
    rw [TokenKind.divides.eq_def] at hplain
    rw [TokenKind.endsStatement.eq_def] at hlast
    split at hlast <;> simp_all

/-- A statement given up in front of the semicolon is resumed right behind it, whatever follows. -/
theorem Undivided.resume_eq {us vs behind : List Token} {u : ParseState} (hts : Undivided (us ++ vs))
    (hs : s.rest = us ++ vs ++ [.symbol .semicolon l]) (hrest : s₁.rest = vs ++ [.symbol .semicolon l])
    (hu : u.rest = vs ++ .symbol .semicolon l :: behind) (complaint : Complaint) (place : Word) :
    resume false (s₁.rest.length < s.rest.length) complaint place u =
      { u.report complaint place with rest := behind, lastLine := l } := by
  have hplain : ∀ t ∈ vs, t.kind.divides = false := fun t ht => hts.plain t (List.mem_append_right us ht)
  have hstarts : ∀ t ∈ if (decide (s₁.rest.length < s.rest.length)) then vs else vs.tail,
      Recovery.isBoundary false t.kind = false := by
    intro t ht
    refine hts.starts t ?_
    cases us with
    | nil => simpa [hs, hrest] using ht
    | cons v us =>
        refine List.mem_append_right us ?_
        split at ht
        · exact ht
        · exact List.mem_of_mem_tail ht
  simp only [resume, hu, Recovery.skip_undivided _ u.lastLine vs behind l hplain hstarts]

/-- A turn on such tokens consumes all of them with the semicolon, and does the same whatever stands behind. -/
theorem recover_undivided (hts : Undivided ts) (hs : s.rest = ts ++ [.symbol .semicolon l]) {first : Option Stmt}
    (h : recover false (statement limit { interactive := false }) s = .ok first s₁) :
    s₁.rest = [] ∧ ∀ t, c.Embeds s t → ∃ t₁,
      recover false (statement limit { interactive := false }) t = .ok first t₁ ∧ c.Embeds s₁ t₁ := by
  have hunbraced : ¬s.Braced := hts.not_braced hs
  have hconcludes : Concludes c s (statement limit { interactive := false }) :=
    concludes_statement rfl (fun hbraced => absurd hbraced hunbraced) limit
  cases hstatement : statement limit { interactive := false } s with
  | ok stmt s' =>
      obtain ⟨rfl, rfl⟩ := EStateM.Result.ok.inj ((recover_of_ok false hstatement).symm.trans h)
      obtain ⟨hends, hwhole⟩ := hconcludes.closed stmt s' hstatement
      obtain ⟨us, last, hus, hlast⟩ := hends.resolve_left fun hfalse => nomatch hfalse.1
      refine ⟨hts.rest_eq_nil hs hus hlast, fun t ht => ?_⟩
      obtain ⟨t', ht', hembeds⟩ := hwhole t ht
      exact ⟨t', recover_of_ok false ht', hembeds⟩
  | error e s' =>
      cases e with
      | tooDeep => cases (recover_of_tooDeep false hstatement).symm.trans h
      | complaint complaint place =>
          obtain ⟨rfl, rfl⟩ := EStateM.Result.ok.inj ((recover_of_complaint false hstatement).symm.trans h)
          obtain ⟨us, vs, rfl, hrest⟩ :=
            ParseState.Moves.exists_left (hconcludes.kept hunbraced _ s' hstatement) hs
          rw [hts.resume_eq hs hrest hrest complaint place]
          refine ⟨rfl, fun t ht => ?_⟩
          have hproceeds : Proceeds c false 0 true s (statement limit { interactive := false })
              (statement limit { interactive := false }) :=
            proceeds_statement (Nat.zero_le _) (Nat.le_refl limit) fun hinteractive => nomatch hinteractive
          obtain ⟨t', hembeds, ht'⟩ :=
            hproceeds.exists_recover false hstatement ht (Or.inl (by simp [hrest]))
          have hrest' : t'.rest = vs ++ .symbol .semicolon l :: c.behind := by
            rw [hembeds.rest, hrest, List.append_assoc]
            rfl
          rw [hts.resume_eq hs hrest hrest' complaint place] at ht'
          exact ⟨_, ht', rfl, hembeds.endLine, hembeds.report complaint place, fun _ => rfl⟩

end

/-- Statements and problems of two lists of tokens, one after the other. -/
def Parsed.append (first second : Parsed) : Parsed :=
  ⟨⟨first.program.statements ++ second.program.statements⟩, first.problems ++ second.problems⟩

/-- In a file, tokens that hold at most one simple statement and the semicolon behind them give the same statements
and problems whatever follows, and what follows gives those that it gives by itself. This is so under every bound
on the nesting that neither of the two exceeds, in particular under every large one. -/
theorem mistakes_isolated {ts : List Token} (hts : Undivided ts) (l : Int) (behind : List Token)
    (firstEnd endLine : Int) (problems : Diagnostics) :
    ∃ first second : Parsed, ∀ limit : Nat,
      4 * (ts.length + 1 + behind.length) + 4 < limit ∨
          (parseWithin? limit false (ts ++ [.symbol .semicolon l]) firstEnd problems).isSome = true ∧
            (parseWithin? limit false behind endLine []).isSome = true →
        parseWithin? limit false (ts ++ [.symbol .semicolon l]) firstEnd problems = some first ∧
          parseWithin? limit false behind endLine [] = some second ∧
          parseWithin? limit false (ts ++ .symbol .semicolon l :: behind) endLine problems =
            some (first.append second) := by
  obtain ⟨first, hfirst⟩ := exists_found false (ts ++ [.symbol .semicolon l]) firstEnd problems
  obtain ⟨second, hsecond⟩ := exists_found false behind endLine []
  refine ⟨first, second, fun limit hlimit => ?_⟩
  obtain ⟨last, hpart⟩ := hfirst limit (hlimit.imp (fun hlarge => by simp; omega) And.left)
  obtain ⟨last', hbehind⟩ := hsecond limit (hlimit.imp (fun hlarge => by omega) And.right)
  refine ⟨parseWithin_of_script_ok hpart, parseWithin_of_script_ok hbehind, ?_⟩
  -- the only turn on the part is the one that ends with its semicolon
  have hwhole := script_append (c := ⟨behind, endLine, [], 0⟩)
    (P := fun s => s.rest = ts ++ [.symbol .semicolon l] ∨ s.rest = [])
    (fun s turn s₁ hs hrest hok => ?_) hbehind (ts ++ [.symbol .semicolon l])
    (ts ++ .symbol .semicolon l :: behind) (Or.inl rfl) hpart (Nat.le_refl _)
    (t := ⟨ts ++ .symbol .semicolon l :: behind, endLine, endLine, problems⟩) (by simp; omega)
    ⟨by simp, rfl, rfl, nofun⟩
  · obtain ⟨t', ht', hproblems⟩ := hwhole
    rw [parseWithin_of_script_ok ht', hproblems]
    rfl
  · have hs := hs.resolve_right hrest
    obtain ⟨hused, hsame⟩ := recover_undivided hts hs hok
    refine ⟨?_, Or.inr hused, hsame⟩
    rw [hused]
    exact List.length_pos_iff.2 hrest

/-- A declaration without a name, and behind it an unfinished statement and an `else` without its `if`. -/
theorem mistakes_isolated_thrice :
    let ts : List Token := [.keyword .varKw 1, .symbol .equal 1, ⟨.number "1", 1⟩]
    let behind : List Token := [.keyword .printKw 2, .symbol .leftParen 2, .symbol .semicolon 2, .keyword .elseKw 3]
    Undivided ts ∧ ∃ first second : Parsed, first.problems.length = 1 ∧ second.problems.length = 2 ∧
      parse? false (ts ++ [.symbol .semicolon 1]) 1 [] = some first ∧ parse? false behind 3 [] = some second ∧
      parse? false (ts ++ .symbol .semicolon 1 :: behind) 3 [] = some (first.append second) := by
  intro ts behind
  have hts : Undivided ts := ⟨by decide, by decide⟩
  obtain ⟨first, second, hall⟩ := mistakes_isolated hts 1 behind 1 3 []
  obtain ⟨hfirst, hsecond, hboth⟩ := hall nestingLimit (Or.inl (by decide))
  refine ⟨hts, first, second, ?_, ?_, hfirst, hsecond, hboth⟩
  · have hcomputed : (parse? false (ts ++ [.symbol .semicolon 1]) 1 []).map (·.problems.length) = some 1 := by
      decide +kernel
    rw [parse?, hfirst] at hcomputed
    simpa using hcomputed
  · have hcomputed : (parse? false behind 3 []).map (·.problems.length) = some 2 := by decide +kernel
    rw [parse?, hsecond] at hcomputed
    simpa using hcomputed

end SafariScript
