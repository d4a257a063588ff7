import SafariScript.Proofs.Token.Numbers

/-!
# Scanning written tokens again

The lexemes of a scan, written one after the other with blanks between them (`Spaced`), are scanned to the same tokens,
whatever was wrong with the source that they come from (`rescan_stable`). A segment that is a token stood in the source
in front of something else, but it does not depend on that: it may stand in front of a blank or at the end of any text,
since a blank goes on no run and makes no symbol longer (`Stands.before_blank`). So the text has the segments of the
tokens and the blanks, and no others (`Spaced.reread`).
-/

namespace SafariScript

open Segment

/-- The lexemes of some tokens in order, with one blank or more between two of them. -/
inductive Spaced : List Token → List Char → Prop where
  | nil : Spaced [] []
  | last (t : Token) : Spaced [t] t.lexeme.toList
  | cons (t : Token) {u : Token} {ts : List Token} {gap rest : List Char} (hne : gap ≠ [])
      (hgap : ∀ c ∈ gap, isSpace c = true) (hrest : Spaced (u :: ts) rest) :
      Spaced (t :: u :: ts) (t.lexeme.toList ++ gap ++ rest)

/-- A row of the token listing with its line forgotten. -/
def Scan.Row.unlined (r : Scan.Row) : Scan.Row :=
  { r with line := 0 }

namespace Segment

/-- A text that is empty or starts with a blank. -/
def Clear (rest : List Char) : Prop :=
  ∀ c ∈ rest.head?, isSpace c = true

theorem clear_nil : Clear [] := by
  intro c hc
  cases hc

theorem clear_append {gap : List Char} (hne : gap ≠ []) (hgap : ∀ c ∈ gap, isSpace c = true) (rest : List Char) :
    Clear (gap ++ rest) := by
  obtain ⟨b, gap, rfl⟩ := List.exists_cons_of_ne_nil hne
  intro c hc
  obtain rfl : b = c := Option.some.inj hc
  exact hgap b List.mem_cons_self

theorem isWordChar_of_isSpace {c : Char} (hc : isSpace c = true) : isWordChar c = false := by
  simp only [isSpace, Bool.or_eq_true, beq_iff_eq] at hc
  obtain ((rfl | rfl) | rfl) | rfl := hc <;> decide

theorem isDigit_of_isSpace {c : Char} (hc : isSpace c = true) : isDigit c = false := by
  have hword := isWordChar_of_isSpace hc
  rw [isWordChar, Bool.or_eq_false_iff] at hword
  exact hword.2

theorem not_isSpace_of_mem_spelling (s : Symbol) {c : Char} (hc : c ∈ s.spelling.toList) : isSpace c = false := by
  have hnone : s.spelling.toList.any isSpace = false := by cases s <;> decide
  simpa using List.any_eq_false.1 hnone c hc

/-- A token may stand in front of a blank and at the end of a text. -/
theorem Stands.before_blank {s : Segment} {kind : TokenKind} {rest behind : List Char} (h : Stands s rest)
    (hkind : s.tokenKind? = some kind) (hbehind : Clear behind) : Stands s behind := by
  cases h with
  | string hraw => exact .string hraw
  | digits hne hds _ => exact .digits hne hds fun c hc => isDigit_of_isSpace (hbehind c hc)
  | word hc hcs _ => exact .word hc hcs fun d hd => isWordChar_of_isSpace (hbehind d hd)
  | pair hs => exact .pair hs
  | @single symbol c _ hs _ _ =>
      refine .single hs ?_ ?_
      · intro d hd pair hpair
        have hspace := not_isSpace_of_mem_spelling pair (c := d) (by simp [hpair])
        rw [hbehind d hd] at hspace
        cases hspace
      · rintro ⟨-, hstar⟩
        exact absurd (hbehind '*' hstar) (by decide)
  | _ => cases hkind

/-- A segment that is a token of a kind wherever a blank or nothing stands behind it. -/
structure Freestanding (s : Segment) (kind : TokenKind) : Prop where
  kind : s.tokenKind? = some kind
  readable : s.excess? = none
  stands : ∀ rest, Clear rest → Stands s rest

/-- Segments of a text that give tokens of some kinds and no problems. -/
structure Reread (segments : List Segment) (kinds : List TokenKind) (text : List Char) : Prop where
  segmented : Segmented segments text
  readable : ∀ s ∈ segments, s.excess? = none
  kinds : ∀ line, (Scan.ofSegments line segments).tokens.map Token.kind = kinds
  problems : ∀ line, (Scan.ofSegments line segments).problems = []

namespace Reread

variable {segments : List Segment} {kinds : List TokenKind} {rest : List Char}

theorem nil : Reread [] [] [] where
  segmented := .nil
  readable := by simp
  kinds := fun _ => rfl
  problems := fun _ => rfl

theorem token {s : Segment} {kind : TokenKind} (hs : Freestanding s kind) (hrest : Clear rest)
    (h : Reread segments kinds rest) :
    Reread (s :: segments) (kind :: kinds) (kind.lexeme.toList ++ rest) where
  segmented := by
    rw [(denotes_of_tokenKind hs.kind).2]
    exact .cons (hs.stands rest hrest) h.segmented
  readable := List.forall_mem_cons.2 ⟨hs.readable, h.readable⟩
  kinds := by
    intro line
    rw [Scan.tokens_ofSegments_cons, List.map_append, h.kinds, token?, hs.kind]
    rfl
  problems := by
    intro line
    have hnone : s.problem? line = none := by
      obtain ⟨_, -, -, -, hnone⟩ | ⟨_, -, htoken, -⟩ | ⟨-, -, hnone⟩ := token_or_problem line s
      · exact hnone
      · rw [token?, hs.kind] at htoken
        cases htoken
      · exact hnone
    rw [problems_ofSegments_cons, h.problems, hnone]
    rfl

theorem blanks {gap : List Char} (hgap : ∀ c ∈ gap, isSpace c = true) (h : Reread segments kinds rest) :
    Reread (gap.map .blank ++ segments) kinds (gap ++ rest) := by
  induction gap with
  | nil => exact h
  | cons c gap ih =>
      obtain ⟨hc, hgap⟩ := List.forall_mem_cons.1 hgap
      have hothers := ih hgap
      constructor
      case segmented => exact .cons (.blank hc) hothers.segmented
      case readable => exact List.forall_mem_cons.2 ⟨rfl, hothers.readable⟩
      case kinds =>
        intro line
        rw [List.map_cons, List.cons_append, Scan.tokens_ofSegments_cons]
        exact hothers.kinds _
      case problems =>
        intro line
        rw [List.map_cons, List.cons_append, problems_ofSegments_cons]
        exact hothers.problems _

end Reread
end Segment

/-- Tokens that may stand by themselves are read again. -/
theorem Spaced.reread {ts : List Token} {text : List Char} (h : Spaced ts text)
    (hts : ∀ t ∈ ts, ∃ s, Freestanding s t.kind) : ∃ segments, Reread segments (ts.map Token.kind) text := by
  induction h with
  | nil => exact ⟨[], .nil⟩
  | last t =>
      obtain ⟨s, hs⟩ := hts t List.mem_cons_self
      have hread : Reread [s] [t.kind] (t.lexeme.toList ++ []) := .token hs clear_nil .nil
      rw [List.append_nil] at hread
      exact ⟨[s], hread⟩
  | @cons t u ts gap rest hne hgap hrest ih =>
      obtain ⟨⟨s, hs⟩, hts⟩ := List.forall_mem_cons.1 hts
      obtain ⟨segments, hsegments⟩ := ih hts
      rw [List.append_assoc]
      exact ⟨_, .token hs (clear_append hne hgap rest) (hsegments.blanks hgap)⟩

/-- Every token of a scan may stand by itself. -/
theorem exists_freestanding {line : Int} {source : List Char} {segments : List Segment} (h : Segmented segments source)
    (hread : segments.findSome? excess? = none) {t : Token} (ht : t ∈ (Scan.ofSegments line segments).tokens) :
    ∃ s, Freestanding s t.kind := by
  obtain ⟨before, behind, htokens⟩ := List.append_of_mem ht
  obtain ⟨front, s, rest, rfl, -, htoken⟩ := exists_segment_of_filterMap htokens
  obtain ⟨kind, hkind, rfl⟩ := Option.map_eq_some_iff.1 htoken
  refine ⟨s, hkind, ?_, fun rest' hrest' => h.stands.before_blank hkind hrest'⟩
  exact List.findSome?_eq_none_iff.1 hread s (by simp)

/-- The listing up to lines depends on the kinds of the tokens alone. -/
theorem Scan.rows_unlined (scan : Scan) : scan.rows.map Row.unlined =
    (scan.tokens.map Token.kind).map (fun kind => ⟨kind.typeName, kind.lexeme, kind.literal?, 0⟩) ++
      [⟨"EOF", "", none, 0⟩] := by
  rw [rows, List.map_append, List.map_map, List.map_map]
  rfl

/-- A text without a run of more than 4300 digits is scanned, with or without problems, and the tokens that this gives
are stable: written one after the other with blanks between them, they are scanned without problems to tokens of the
same kinds, with the same names, lexemes and constants in the listing, and the end of the source behind them. -/
theorem rescan_stable (line : Int) (source : List Char)
    (hdigits : ∀ run, run <:+: source → (∀ c ∈ run, isDigit c = true) → run.length ≤ 4300) :
    ∃ scan, Scan.ofSource line source = .ok scan ∧
      ∀ (line' : Int) (text : List Char), Spaced scan.tokens text →
        ∃ rescan, Scan.ofSource line' text = .ok rescan ∧ rescan.problems = [] ∧
          rescan.tokens.map Token.kind = scan.tokens.map Token.kind ∧
          rescan.rows.map Scan.Row.unlined = scan.rows.map Scan.Row.unlined := by
  have hread := excess_eq_none hdigits
  refine ⟨_, Scan.ofSource_eq_ok.2 ⟨hread, rfl⟩, ?_⟩
  intro line' text hspaced
  obtain ⟨segments, hsegments⟩ := hspaced.reread fun t ht => exists_freestanding (split_segmented source) hread ht
  have hread' : segments.findSome? excess? = none := List.findSome?_eq_none_iff.2 hsegments.readable
  refine ⟨_, Scan.ofSource_eq_ok_of_segmented hsegments.segmented hread', hsegments.problems line',
    hsegments.kinds line', ?_⟩
  rw [Scan.rows_unlined, Scan.rows_unlined, hsegments.kinds line']

/-- A string over two lines with an escaped quotation mark, an arrow, a minus sign in front of a greater sign, a number
with leading zeros in front of a word, a stray character and a comment that is never closed. -/
theorem rescan_stable_flawed :
    let source := "\"a\\\"\n\"->- >007if@/*".toList
    let text := "\"a\\\"\n\"".toList ++ "\n\n".toList ++ ("->".toList ++ "\t".toList ++ ("-".toList ++ " \r ".toList ++
      (">".toList ++ " ".toList ++ ("007".toList ++ "\n".toList ++ "if".toList))))
    (∀ run, run <:+: source → (∀ c ∈ run, isDigit c = true) → run.length ≤ 4300) ∧
      ∃ scan, Scan.ofSource 1 source = .ok scan ∧ scan.problems.length = 2 ∧ Spaced scan.tokens text ∧
        ∃ rescan, Scan.ofSource 9 text = .ok rescan ∧ rescan.problems = [] ∧
          rescan.tokens.map Token.kind = scan.tokens.map Token.kind ∧
          rescan.rows.map Scan.Row.unlined = scan.rows.map Scan.Row.unlined := by
  intro source text
  have hdigits : ∀ run, run <:+: source → (∀ c ∈ run, isDigit c = true) → run.length ≤ 4300 :=
    fun run hrun _ => Nat.le_trans hrun.length_le (by decide)
  obtain ⟨scan, hscan, hstable⟩ := rescan_stable 1 source hdigits
  obtain ⟨-, rfl⟩ := Scan.ofSource_eq_ok.1 hscan
  have htokens : (Scan.ofSegments 1 (split source)).tokens = [⟨.text "a\\\"\n", 1⟩, ⟨.symbol .arrow, 2⟩,
      ⟨.symbol .minus, 2⟩, ⟨.symbol .greater, 2⟩, ⟨.number "007", 2⟩, ⟨.keyword .ifKw, 2⟩] := by decide +kernel
  have hspaced : Spaced (Scan.ofSegments 1 (split source)).tokens text := by
    have hblank {gap : List Char} (h : gap.all isSpace = true) : ∀ c ∈ gap, isSpace c = true := List.all_eq_true.1 h
    rw [htokens]
    exact .cons _ (by decide) (hblank (by decide)) <| .cons _ (by decide) (hblank (by decide)) <|
      .cons _ (by decide) (hblank (by decide)) <| .cons _ (by decide) (hblank (by decide)) <|
      .cons _ (by decide) (hblank (by decide)) <| .last _
  exact ⟨hdigits, _, hscan, by decide +kernel, hspaced, hstable 9 text hspaced⟩

end SafariScript
