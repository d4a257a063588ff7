import SafariScript.Proofs.Chunking
import SafariScript.Proofs.Parser.Omission
import SafariScript.Proofs.Token.Lexicon

/-!
# Statements that end with their line

In interactive use a simple statement may end without a semicolon where its line ends. The parser goes by the lines
of two tokens, the last one of the statement and the one behind it, and a token has the line on which it starts. So
between two tokens on different lines there is a line feed, or there is one inside the first of them
(`Adjacent.lineFeed_of_lt`). The latter is so for strings only: a string over several lines is the only token behind
which another statement can start on the same line (`lineFeed_behind_statement`).
-/

namespace SafariScript

open Grammar SafariScript.Parser Segment

/-! ## Tokens in the text -/

/-- Two successive tokens of a text whose first line has the given number: the tokens in front of them, the two, and
the characters between them, which are blanks and comments. -/
inductive Adjacent (line : Int) (source : List Char) : List Token → Token → Token → List Char → Prop where
  | mk {front between behind : List Segment} {first second : Segment} {last next : Token}
      (segmented : Segmented (front ++ first :: (between ++ second :: behind)) source)
      (hfirst : first.token? (lineBehind line front) = some last)
      (hbetween : ∀ s ∈ between, s.Silent)
      (hsecond : second.token? (lineBehind line (front ++ first :: between)) = some next) :
      Adjacent line source (Scan.ofSegments line front).tokens last next (between.flatMap Segment.text)

/-- A token among those of some segments: the segment that it is, and the tokens in front of it and behind it. -/
def TokenAt (line : Int) (segments : List Segment) (before : List Token) (t : Token) (behind : List Token) : Prop :=
  ∃ front s rest, segments = front ++ s :: rest ∧ (Scan.ofSegments line front).tokens = before ∧
    s.token? (lineBehind line front) = some t ∧
    (Scan.ofSegments (lineBehind line (front ++ [s])) rest).tokens = behind

theorem TokenAt.cons {line : Int} {segments : List Segment} {before behind : List Token} {t : Token} (s : Segment)
    (h : TokenAt (s.advance line) segments before t behind) :
    TokenAt line (s :: segments) ((s.token? line).toList ++ before) t behind := by
  obtain ⟨front, s', rest, rfl, hfront, hs', hbehind⟩ := h
  exact ⟨s :: front, s', rest, rfl, by rw [Scan.tokens_ofSegments_cons, hfront], hs', hbehind⟩

/-- Every token of some segments is one of them. -/
theorem tokenAt_of_tokens {line : Int} {segments : List Segment} {before behind : List Token} {t : Token}
    (h : (Scan.ofSegments line segments).tokens = before ++ t :: behind) : TokenAt line segments before t behind := by
  induction segments generalizing line before with
  | nil => simp [Scan.ofSegments, placed] at h
  | cons s segments ih =>
      rw [Scan.tokens_ofSegments_cons] at h
      cases htoken : s.token? line with
      | none =>
          rw [htoken] at h
          simpa [htoken] using (ih h).cons s
      | some u =>
          rw [htoken] at h
          cases before with
          | nil =>
              obtain ⟨rfl, hrest⟩ := List.cons.inj h
              exact ⟨[], s, segments, rfl, rfl, htoken, hrest⟩
          | cons v before =>
              obtain ⟨rfl, hrest⟩ := List.cons.inj h
              simpa [htoken] using (ih hrest).cons s

/-- Segments that give neither a token nor a problem are blanks and comments. -/
theorem silent_of_ofSegments {line : Int} {segments : List Segment}
    (htokens : (Scan.ofSegments line segments).tokens = [])
    (hproblems : (Scan.ofSegments line segments).problems = []) {s : Segment} (hs : s ∈ segments) : s.Silent := by
  obtain ⟨l, hl⟩ := exists_mem_placed line hs
  have htoken : s.token? l = none := List.filterMap_eq_nil_iff.1 htokens (l, s) hl
  have hproblem : s.problem? l = none := List.filterMap_eq_nil_iff.1 hproblems (l, s) hl
  rcases token_or_problem l s with ⟨kind, -, -, hsome, -⟩ | ⟨d, -, -, hsome⟩ | ⟨hsilent, -⟩
  · cases htoken.symm.trans hsome
  · cases hproblem.symm.trans hsome
  · exact hsilent

/-- Two successive tokens of a text without problems. -/
theorem exists_adjacent {line : Int} {source : List Char} {before behind : List Token} {last next : Token}
    (hproblems : (Scan.ofSegments line (split source)).problems = [])
    (htokens : (Scan.ofSegments line (split source)).tokens = before ++ last :: next :: behind) :
    ∃ gap, Adjacent line source before last next gap := by
  obtain ⟨front, first, rest, hsplit, rfl, hfirst, hrest⟩ := tokenAt_of_tokens htokens
  have hnext : TokenAt (lineBehind line (front ++ [first])) rest [] next behind := tokenAt_of_tokens hrest
  obtain ⟨between, second, behind, rfl, hbetween, hsecond, -⟩ := hnext
  have hsegmented : Segmented (front ++ first :: (between ++ second :: behind)) source := split_eq_iff.1 hsplit
  -- the problems of the part between the two tokens are among those of the whole
  have hnone : (Scan.ofSegments (lineBehind line (front ++ [first])) between).problems = [] := by
    rw [hsplit, List.append_cons, Scan.ofSegments_append, Scan.ofSegments_append] at hproblems
    exact (List.append_eq_nil_iff.1 (List.append_eq_nil_iff.1 hproblems).2).1
  refine ⟨_, .mk hsegmented hfirst (fun s hs => silent_of_ofSegments hbetween hnone hs) ?_⟩
  rw [List.append_cons, lineBehind, List.foldl_append]
  exact hsecond

namespace Segment

theorem Segmented.exists_stands {ss : List Segment} {cs : List Char} (h : Segmented ss cs) {s : Segment}
    (hs : s ∈ ss) : ∃ rest, Stands s rest := by
  induction h with
  | nil => cases hs
  | @cons _ _ rest hfirst _ ih =>
      rcases List.mem_cons.1 hs with rfl | hs
      · exact ⟨rest, hfirst⟩
      · exact ih hs

/-- Of all tokens only a string has line feeds in it. -/
theorem Stands.lineFeed_in_text {s : Segment} {rest : List Char} {kind : TokenKind} (h : Stands s rest)
    (hkind : s.tokenKind? = some kind) (hfeed : '\n' ∈ s.text) : ∃ raw, kind = .text raw ∧ '\n' ∈ raw.toList := by
  cases (denotes_of_tokenKind hkind).1 with
  | text raw => exact ⟨_, rfl, by simpa [text] using hfeed⟩
  | number =>
      cases h with
      | digits _ hds => cases hds _ hfeed
  | keyword | ident =>
      cases h with
      | word hc hcs => cases isWordChar_of_word hc hcs _ hfeed
  | symbol symbol =>
      have hnone : '\n' ∉ symbol.spelling.toList := by cases symbol <;> decide
      exact absurd hfeed hnone

end Segment

/-- Between two tokens on different lines there is a line feed, unless the first one is a string with a line feed in
it. -/
theorem Adjacent.lineFeed_of_lt {line : Int} {source gap : List Char} {before : List Token} {last next : Token}
    (h : Adjacent line source before last next gap) (hline : last.line < next.line) :
    '\n' ∈ gap ∨ ∃ raw, last.kind = .text raw ∧ '\n' ∈ raw.toList := by
  cases h with
  | @mk front between behind first second _ _ segmented hfirst _ hsecond =>
      obtain ⟨kind, hkind, rfl⟩ := exists_kind_of_token hfirst
      obtain ⟨kind', -, rfl⟩ := exists_kind_of_token hsecond
      have hsecond : Segmented ((front ++ first :: between) ++ second :: behind) source := by
        rwa [List.append_assoc, List.cons_append]
      rw [segmented.lineBehind_front, hsecond.lineBehind_front] at hline
      simp only [List.flatMap_append, List.flatMap_cons, List.count_append] at hline
      by_cases hgap : '\n' ∈ between.flatMap Segment.text
      · exact Or.inl hgap
      · have hnone := List.count_eq_zero_of_not_mem hgap
        have hfeed : '\n' ∈ first.text := List.count_pos_iff.1 (by omega)
        obtain ⟨rest, hstands⟩ := segmented.exists_stands (s := first) (by simp)
        exact Or.inr (hstands.lineFeed_in_text hkind hfeed)

/-! ## Statements -/

/-- A simple statement that ends without a semicolon ends its line. -/
theorem Grammar.Forms.endsLine_of_isSimple {around : Surroundings} {us rest : List Token} {last : Token} {stmt : Stmt}
    (h : Forms .statement around (us ++ [last]) rest stmt) (hsimple : stmt.isSimple = true)
    (hopen : last.kind ≠ .symbol .semicolon) : endsLine last.line rest = true := by
  have hlast (front : List Token) (t : Token) (hts : us ++ [last] = front ++ [t]) : last.kind = t.kind :=
    congrArg Token.kind (List.append_singleton_inj.1 hts).2
  generalize hts : us ++ [last] = ts at h
  cases h with
  | @simple _ ts _ _ _ body ends =>
      cases ends with
      | semicolon l => exact absurd (hlast _ _ hts) hopen
      | lineEnd _ _ hends =>
          obtain rfl : us ++ [last] = ts := by simpa using hts
          simpa using hends
  | bareReturn line l => exact absurd (hlast [_] _ hts) hopen
  | _ => cases hsimple

/-- A simple statement of a source text without problems, outside all blocks, that ends without a semicolon although
there are more tokens: between its last token and the next one there is a line feed, unless that last token is a
string with a line feed in it. -/
theorem lineFeed_behind_statement {line : Int} {source : String} {program : Program} {scan : Scan}
    (haccepted : (parseSource line true source).result = .ok program)
    (hscan : Scan.ofSource line source.toList = .ok scan) {s s' : ParseState}
    (hs : Relation.ReflTransGen (Turn nestingLimit true) ⟨scan.tokens, scan.endLine, scan.endLine, []⟩ s) {stmt : Stmt}
    (hstmt : statement nestingLimit { interactive := true } s = .ok stmt s') (hsimple : stmt.isSimple = true)
    {us vs : List Token} {last next : Token} (hlast : s.rest = us ++ last :: s'.rest)
    (hopen : last.kind ≠ .symbol .semicolon) (hnext : s'.rest = next :: vs) :
    ∃ before gap, scan.tokens = before ++ last :: s'.rest ∧ Adjacent line source.toList before last next gap ∧
      ('\n' ∈ gap ∨ ∃ raw, last.kind = .text raw ∧ '\n' ∈ raw.toList) := by
  obtain ⟨scan', hscan', hnone, hparse⟩ := parseSource_eq_ok.1 haccepted
  obtain rfl : scan' = scan := Except.ok.inj (hscan'.symm.trans hscan)
  obtain ⟨⟨before, hbefore⟩, -, hflawless⟩ := (flawless_of_parseWithin hparse).turns hs
  have hrest : s.rest ≠ [] := by simp [hlast]
  obtain ⟨_, _, -, -, -, -, hproblems, -⟩ := hflawless.turn hrest (recover_of_ok false hstmt)
  obtain ⟨ts, hts, hforms⟩ := (sound_statement nestingLimit { interactive := true }).of_ok hstmt hproblems
  obtain rfl : us ++ [last] = ts := by
    have hread := hts.rest
    rw [hlast, List.append_cons] at hread
    exact List.append_cancel_right hread
  have hline : last.line < next.line := by simpa [hnext, endsLine] using hforms.endsLine_of_isSimple hsimple hopen
  have htokens : scan'.tokens = (before ++ us) ++ last :: s'.rest := by
    rw [List.append_assoc, ← hlast]
    exact hbefore
  obtain ⟨-, rfl⟩ := Scan.ofSource_eq_ok.1 hscan
  obtain ⟨gap, hadjacent⟩ := exists_adjacent hnone (htokens.trans (by rw [hnext]))
  exact ⟨before ++ us, gap, htokens, hadjacent, hadjacent.lineFeed_of_lt hline⟩

/-- Between the statements `y` and `z` of `x; y /*⏎*/ z` the line feed is in a comment. -/
theorem lineFeed_behind_statement_comment :
    let source := "x; y /*\n*/ z"
    let start : ParseState := ⟨[.name ⟨"x", 1⟩, .symbol .semicolon 1, .name ⟨"y", 1⟩, .name ⟨"z", 2⟩], 2, 2, []⟩
    let s : ParseState := ⟨[.name ⟨"y", 1⟩, .name ⟨"z", 2⟩], 2, 1, []⟩
    let s' : ParseState := ⟨[.name ⟨"z", 2⟩], 2, 1, []⟩
    (parseSource 1 true source).result =
        .ok ⟨[.expr (.ident ⟨"x", 1⟩), .expr (.ident ⟨"y", 1⟩), .expr (.ident ⟨"z", 2⟩)]⟩ ∧
      Scan.ofSource 1 source.toList = .ok ⟨start.rest, 2, []⟩ ∧
      Relation.ReflTransGen (Turn nestingLimit true) start s ∧
      statement nestingLimit { interactive := true } s = .ok (.expr (.ident ⟨"y", 1⟩)) s' ∧
      ∃ before gap, start.rest = before ++ .name ⟨"y", 1⟩ :: s'.rest ∧
        Adjacent 1 source.toList before (.name ⟨"y", 1⟩) (.name ⟨"z", 2⟩) gap ∧ '\n' ∈ gap := by
  intro source start s s'
  have hsplit : split source.toList = [.word ['x'], .symbol .semicolon, .blank ' ', .word ['y'], .blank ' ',
      .blockComment ['\n'], .blank ' ', .word ['z']] := by decide +kernel
  have hscan : Scan.ofSource 1 source.toList = .ok ⟨start.rest, 2, []⟩ :=
    Scan.ofSource_eq_ok.2 (by rw [hsplit]; exact ⟨rfl, rfl⟩)
  have haccepted : (parseSource 1 true source).result =
      .ok ⟨[.expr (.ident ⟨"x", 1⟩), .expr (.ident ⟨"y", 1⟩), .expr (.ident ⟨"z", 2⟩)]⟩ :=
    parseSource_eq_ok.2 ⟨_, hscan, rfl, by rfl⟩
  have hturn : Turn nestingLimit true start s := ⟨nofun, some (.expr (.ident ⟨"x", 1⟩)), rfl⟩
  have hstmt : statement nestingLimit { interactive := true } s = .ok (.expr (.ident ⟨"y", 1⟩)) s' := rfl
  have hlast : s.rest = [] ++ .name ⟨"y", 1⟩ :: s'.rest := rfl
  obtain ⟨before, gap, htokens, hadjacent, hfeed⟩ :=
    lineFeed_behind_statement haccepted hscan (.single hturn) hstmt rfl hlast nofun rfl
  exact ⟨haccepted, hscan, .single hturn, hstmt, before, gap, htokens, hadjacent, hfeed.resolve_right nofun⟩

/-- A string over two lines ends a statement, and the next statement starts on the same line behind it. -/
theorem no_lineFeed_behind_string :
    let source := "\"a\nb\" x"
    let last : Token := ⟨.text "a\nb", 1⟩
    let next : Token := .name ⟨"x", 2⟩
    (parseSource 1 true source).result = .ok ⟨[.expr (.literal (.text "a\nb")), .expr (.ident ⟨"x", 2⟩)]⟩ ∧
      Scan.ofSource 1 source.toList = .ok ⟨[last, next], 2, []⟩ ∧
      statement nestingLimit { interactive := true } ⟨[last, next], 2, 2, []⟩ =
        .ok (.expr (.literal (.text "a\nb"))) ⟨[next], 2, 1, []⟩ ∧
      Adjacent 1 source.toList [] last next [' '] ∧ '\n' ∉ [' '] := by
  intro source last next
  have hsplit : split source.toList = [.string ['a', '\n', 'b'], .blank ' ', .word ['x']] := by decide +kernel
  have hscan : Scan.ofSource 1 source.toList = .ok ⟨[last, next], 2, []⟩ :=
    Scan.ofSource_eq_ok.2 (by rw [hsplit]; exact ⟨rfl, rfl⟩)
  have hsegmented : Segmented ([] ++ .string ['a', '\n', 'b'] :: ([.blank ' '] ++ .word ['x'] :: [])) source.toList :=
    split_eq_iff.1 hsplit
  refine ⟨parseSource_eq_ok.2 ⟨_, hscan, rfl, by rfl⟩, hscan, rfl, .mk hsegmented rfl ?_ rfl, by decide⟩
  exact List.forall_mem_singleton.2 (.blank ' ')

end SafariScript
