import SafariScript.Proofs.Token.Lines

/-!
# Runs of digits

A run of digits is a number unless it stands in a comment, a string or a word (`NumberRun`). The splitting of a text
has just these runs as its segments of digits (`Segmented.exists_digits`, `Segmented.numberRun`): nothing else that may
stand in a text holds a digit, and nothing that may stand in front of a digit ends with one. What stands in front of a
number is scanned as if it ended there (`Segmented.of_append`), so that a number comes between the tokens of the text in
front of it and those of the text behind it, as one token or, if it is too large, as one problem (`numbers_scanned`).
Only a run that is too long to be read stops the scan.
-/

namespace SafariScript

theorem digitsValue_eq (ds : List Char) : digitsValue ds = Nat.ofDigitChars 10 ds 0 := by
  rw [digitsValue, Text.ofDigits, List.foldl_map, Nat.ofDigitChars_eq_foldl]

/-- A number that starts with a one and has more than ten digits is too large. -/
theorem lt_ofDigitChars {ds : List Char} (hlength : 10 ≤ ds.length) :
    2147483647 < Nat.ofDigitChars 10 ('1' :: ds) 0 := by
  have hfirst : 10 * 0 + ('1'.toNat - '0'.toNat) = 1 := rfl
  have hpow : 10 ^ 10 ≤ 10 ^ ds.length := Nat.pow_le_pow_right (by decide) hlength
  rw [Nat.ofDigitChars_cons, hfirst, Nat.ofDigitChars_eq_ofDigitChars_zero]
  omega

namespace Segment

/-- A comment, a string or a word, in which a digit is a character like others. -/
def absorbsDigits : Segment → Bool
  | .lineComment _ | .blockComment _ | .openComment _ | .string _ | .openString _ | .word _ => true
  | .blank _ | .digits _ | .symbol _ | .stray _ => false

/-- A run of digits of a text that is as long as it can be, between the text in front of it and behind it. -/
structure DigitRun (source front ds behind : List Char) : Prop where
  text : source = front ++ ds ++ behind
  nonempty : ds ≠ []
  digits : ∀ c ∈ ds, isDigit c = true
  start : ∀ c ∈ front.getLast?, isDigit c = false
  stop : ∀ c ∈ behind.head?, isDigit c = false

/-- What stands behind the front of a text is not part of a comment, a string or a word. -/
def Outside (source front : List Char) : Prop :=
  ∀ before s after, Segmented (before ++ s :: after) source → s.absorbsDigits = true →
    ¬ ((before.flatMap text).length ≤ front.length ∧ front.length < (before.flatMap text ++ s.text).length)

/-- A run of digits outside comments, strings and words. -/
structure NumberRun (source front ds behind : List Char) : Prop extends DigitRun source front ds behind where
  outside : Outside source front

/-! ## Where a character stands -/

/-- Every character of a text belongs to a segment. -/
theorem exists_segment_at {segments : List Segment} {front rest : List Char} {c : Char}
    (h : segments.flatMap text = front ++ c :: rest) :
    ∃ before s after inner outer, segments = before ++ s :: after ∧ front = before.flatMap text ++ inner ∧
      s.text = inner ++ c :: outer ∧ rest = outer ++ after.flatMap text := by
  induction segments generalizing front with
  | nil => simp at h
  | cons s segments ih =>
      rw [List.flatMap_cons] at h
      -- the segment ends in front of the character, or the character is in it
      rcases List.append_eq_append_iff.1 h with ⟨inner, rfl, hsegments⟩ | ⟨outer, htext, hrest⟩
      · obtain ⟨before, s', after, inner', outer, rfl, rfl, htext, rfl⟩ := ih hsegments
        exact ⟨s :: before, s', after, inner', outer, rfl, by simp, htext, rfl⟩
      · cases outer with
        | nil =>
            have hbehind : segments.flatMap text = [] ++ c :: rest := by simpa using hrest.symm
            obtain ⟨before, s', after, inner, outer, rfl, hfront, htext', rfl⟩ := ih hbehind
            refine ⟨s :: before, s', after, inner, outer, rfl, ?_, htext', rfl⟩
            have hempty : before.flatMap text ++ inner = [] := hfront.symm
            rw [List.flatMap_cons, List.append_assoc, hempty, htext, List.append_nil, List.append_nil]
        | cons d outer =>
            obtain ⟨rfl, rfl⟩ := List.cons.inj hrest
            exact ⟨[], s, segments, front, outer, rfl, rfl, htext, rfl⟩

/-- Of the segments that are not comments, strings or words, only those of digits hold a digit. -/
theorem Stands.exists_digits {s : Segment} {rest : List Char} {c : Char} (h : Stands s rest)
    (hs : s.absorbsDigits = false) (hmem : c ∈ s.text) (hc : isDigit c = true) :
    ∃ ds, s = .digits ds ∧ (∀ d ∈ ds, isDigit d = true) ∧ ∀ d ∈ rest.head?, isDigit d = false := by
  cases h with
  | digits _ hds hrest => exact ⟨_, rfl, hds, hrest⟩
  | blank hspace =>
      obtain rfl := List.mem_singleton.1 hmem
      simp only [isSpace, Bool.or_eq_true, beq_iff_eq] at hspace
      obtain ((rfl | rfl) | rfl) | rfl := hspace <;> exact absurd hc (by decide)
  | stray hbare =>
      obtain rfl := List.mem_singleton.1 hmem
      rw [hbare.digit] at hc
      cases hc
  | @pair symbol _ _ _ _ | @single symbol _ _ _ _ _ =>
      have hnone : symbol.spelling.toList.any isDigit = false := by cases symbol <;> decide
      exact absurd hc (List.any_eq_false.1 hnone c hmem)
  | _ => cases hs

/-- What may stand in front of a digit does not end with one. -/
theorem Stands.getLast_text {s : Segment} {c d : Char} {rest : List Char} (h : Stands s (d :: rest))
    (hd : isDigit d = true) (hc : s.text.getLast? = some c) : isDigit c = false := by
  have hword : isWordChar d = true := by rw [isWordChar, hd, Bool.or_true]
  cases hs : s.absorbsDigits with
  | false =>
      rw [← Bool.not_eq_true]
      intro hdigit
      obtain ⟨ds, -, -, hrest⟩ := h.exists_digits hs (List.mem_of_getLast? hc) hdigit
      rw [hrest d rfl] at hd
      cases hd
  | true =>
      cases h with
      | @lineComment body _ _ hrest =>
          rw [hrest d rfl] at hd
          cases hd
      | @blockComment body _ _ =>
          have htext : (Segment.blockComment body).text = ('/' :: '*' :: (body ++ ['*'])) ++ ['/'] := by simp [text]
          rw [htext, List.getLast?_concat] at hc
          cases hc
          decide
      | @string raw _ _ =>
          have htext : (Segment.string raw).text = ('"' :: raw) ++ ['"'] := rfl
          rw [htext, List.getLast?_concat] at hc
          cases hc
          decide
      | word _ _ hrest =>
          rw [hrest d rfl] at hword
          cases hword
      | _ => cases hs

/-! ## Numbers and segments of digits -/

/-- A run of digits outside comments, strings and words is a segment. -/
theorem Segmented.exists_digits {segments : List Segment} {source front ds behind : List Char}
    (h : Segmented segments source) (hrun : NumberRun source front ds behind) :
    ∃ before after, segments = before ++ .digits ds :: after ∧ before.flatMap text = front ∧
      after.flatMap text = behind := by
  obtain ⟨d, more, rfl⟩ := List.exists_cons_of_ne_nil hrun.nonempty
  have hsource : segments.flatMap text = front ++ d :: (more ++ behind) := by
    rw [h.text_eq, hrun.text]
    simp
  obtain ⟨before, s, after, inner, outer, rfl, hfront, htext, hrest⟩ := exists_segment_at hsource
  have hd : isDigit d = true := hrun.digits d List.mem_cons_self
  have hs : s.absorbsDigits = false := by
    rw [← Bool.not_eq_true]
    intro habsorbs
    apply hrun.outside before s after h habsorbs
    simp [hfront, htext]
  obtain ⟨es, rfl, hes, hbehind⟩ := h.stands.exists_digits hs (by simp [htext]) hd
  -- nothing of the segment is in front of the run, for there is no digit
  obtain rfl : inner = [] := by
    rcases List.eq_nil_or_concat inner with rfl | ⟨inner, c, rfl⟩
    · rfl
    · have hlast : isDigit c = false := hrun.start c (by simp [hfront])
      have hmem : c ∈ es := by
        show c ∈ (Segment.digits es).text
        simp [htext]
      rw [hes c hmem] at hlast
      cases hlast
  have hes' : es = d :: outer := htext
  subst hes'
  have hrun' := span_of_run hrun.digits hrun.stop
  have hsegment := span_of_run hes hbehind
  have hsame : d :: more ++ behind = d :: outer ++ after.flatMap text := congrArg (d :: ·) hrest
  rw [hsame] at hrun'
  have hds : d :: outer = d :: more := hsegment.1.symm.trans hrun'.1
  rw [hds]
  exact ⟨before, after, rfl, by simp [hfront], hsegment.2.symm.trans hrun'.2⟩

/-- A segment of digits is a run of digits outside comments, strings and words. -/
theorem Segmented.numberRun {before after : List Segment} {source ds : List Char}
    (h : Segmented (before ++ .digits ds :: after) source) :
    NumberRun source (before.flatMap text) ds (after.flatMap text) := by
  have hstands := h.stands
  cases hstands with
  | digits hne hds hrest =>
    refine { text := ?_, nonempty := hne, digits := hds, start := ?_, stop := hrest, outside := ?_ }
    · rw [← h.text_eq]
      simp [text]
    · intro c hc
      rcases List.eq_nil_or_concat before with rfl | ⟨before, s, rfl⟩
      · cases hc
      · rw [List.concat_eq_append] at hc h
        rw [List.append_assoc] at h
        obtain ⟨d, more, rfl⟩ := List.exists_cons_of_ne_nil hne
        have hs : Stands s (d :: (more ++ after.flatMap text)) := h.stands
        apply hs.getLast_text (hds d List.mem_cons_self)
        rw [List.flatMap_append, List.flatMap_singleton, List.getLast?_append] at hc
        obtain ⟨last, hlast⟩ := Option.isSome_iff_exists.1 (List.getLast?_isSome.2 hs.text_ne_nil)
        rw [hlast] at hc ⊢
        exact hc
    · intro before' s after' h' hs hplace
      have hsame : before ++ .digits ds :: after = before' ++ s :: after' := h.eq_split.trans h'.eq_split.symm
      rcases List.append_eq_append_iff.1 hsame with ⟨between, rfl, hbetween⟩ | ⟨between, rfl, hbetween⟩
      · cases between with
        | nil =>
            cases (List.cons.inj hbetween).1
            cases hs
        | cons first between =>
            obtain ⟨rfl, -⟩ := List.cons.inj hbetween
            have hpos : 0 < ds.length := List.length_pos_iff.2 hne
            simp only [List.flatMap_append, List.flatMap_cons, List.length_append, text] at hplace
            omega
      · cases between with
        | nil =>
            cases (List.cons.inj hbetween).1
            cases hs
        | cons first between =>
            obtain ⟨rfl, -⟩ := List.cons.inj hbetween
            simp only [List.flatMap_append, List.flatMap_cons, List.length_append] at hplace
            omega

/-! ## The text in front of a number -/

/-- What may stand in front of a text may stand in front of a part of it. -/
theorem Stands.of_append {s : Segment} {rest more : List Char} (h : Stands s (rest ++ more)) : Stands s rest := by
  have hhead : ∀ c ∈ rest.head?, c ∈ (rest ++ more).head? := by
    intro c hc
    cases rest with
    | nil => cases hc
    | cons d rest => exact hc
  generalize htext : rest ++ more = text at h hhead
  cases h with
  | blank hc => exact .blank hc
  | lineComment hbody hrest => exact .lineComment hbody fun c hc => hrest c (hhead c hc)
  | blockComment hbody => exact .blockComment hbody
  | openComment hbody =>
      obtain rfl := (List.append_eq_nil_iff.1 htext).1
      exact .openComment hbody
  | string hraw => exact .string hraw
  | openString hraw =>
      obtain rfl := (List.append_eq_nil_iff.1 htext).1
      exact .openString hraw
  | digits hne hds hrest => exact .digits hne hds fun c hc => hrest c (hhead c hc)
  | word hc hcs hrest => exact .word hc hcs fun d hd => hrest d (hhead d hd)
  | pair hs => exact .pair hs
  | single hs hpair hcomment =>
      exact .single hs (fun d hd => hpair d (hhead d hd)) fun h => hcomment ⟨h.1, hhead _ h.2⟩
  | stray hc hsingle hpair hcomment =>
      exact .stray hc hsingle (fun d hd => hpair d (hhead d hd)) fun h => hcomment ⟨h.1, hhead _ h.2⟩

theorem Segmented.of_append {front rest : List Segment} {cs : List Char} (h : Segmented (front ++ rest) cs) :
    Segmented front (front.flatMap text) ∧ Segmented rest (rest.flatMap text) := by
  induction front generalizing cs with
  | nil =>
      rw [List.nil_append] at h
      rw [h.text_eq]
      exact ⟨.nil, h⟩
  | cons s front ih =>
      have hfirst : Segmented ([] ++ s :: (front ++ rest)) cs := h
      have hstands : Stands s ((front ++ rest).flatMap text) := hfirst.stands
      rw [List.flatMap_append] at hstands
      cases h with
      | cons _ hsegments =>
          obtain ⟨hfront, hrest⟩ := ih hsegments
          exact ⟨.cons hstands.of_append hfront, hrest⟩

/-! ## Scanning -/

/-- A number has too many digits to be read. -/
theorem excess_eq_some_iff {s : Segment} {n : Nat} :
    s.excess? = some n ↔ ∃ ds, s = .digits ds ∧ 4300 < ds.length ∧ n = ds.length := by
  cases s with
  | digits ds =>
      by_cases hlength : ds.length ≤ 4300
      · have hnone : (Segment.digits ds).excess? = none := if_pos hlength
        rw [hnone]
        constructor
        · intro h
          cases h
        · rintro ⟨_, ⟨⟩, hlong, -⟩
          omega
      · have hsome : (Segment.digits ds).excess? = some ds.length := if_neg hlength
        rw [hsome]
        constructor
        · rintro ⟨⟩
          exact ⟨ds, rfl, by omega, rfl⟩
        · rintro ⟨_, ⟨⟩, -, rfl⟩
          rfl
  | _ => simp [excess?]

theorem exists_excess_iff {segments : List Segment} :
    (∃ n, segments.findSome? excess? = some n) ↔ ∃ ds, .digits ds ∈ segments ∧ 4300 < ds.length := by
  rw [← Option.isSome_iff_exists, List.findSome?_isSome_iff]
  constructor
  · rintro ⟨s, hs, hsome⟩
    obtain ⟨n, hn⟩ := Option.isSome_iff_exists.1 hsome
    obtain ⟨ds, rfl, hlength, -⟩ := excess_eq_some_iff.1 hn
    exact ⟨ds, hs, hlength⟩
  · rintro ⟨ds, hs, hlength⟩
    exact ⟨.digits ds, hs, by rw [excess_eq_some_iff.2 ⟨ds, rfl, hlength, rfl⟩]; rfl⟩

end Segment

open Segment

namespace Scan

variable {line : Int} {source : List Char} {segments : List Segment}

theorem ofSource_eq_ok_of_segmented (h : Segmented segments source) (hread : segments.findSome? excess? = none) :
    ofSource line source = .ok (ofSegments line segments) := by
  obtain rfl := h.eq_split
  exact ofSource_eq_ok.2 ⟨hread, rfl⟩

theorem ofSource_eq_error_iff : (∃ long, ofSource line source = .error long) ↔
    ∃ ds, .digits ds ∈ split source ∧ 4300 < ds.length := by
  rw [← exists_excess_iff, ofSource]
  cases (split source).findSome? excess? with
  | none => simp
  | some n => simp

end Scan

/-- What a run of digits that starts on a line gives: one token with its value, or one problem if that is more than
2147483647. -/
inductive Reads (line : Int) (ds : List Char) : List Token → Diagnostics → Prop where
  | token (hvalue : Nat.ofDigitChars 10 ds 0 ≤ 2147483647)
      (hliteral : (TokenKind.number (String.ofList ds)).literal? = some (.int (Nat.ofDigitChars 10 ds 0 : Nat))) :
      Reads line ds [⟨.number (String.ofList ds), line⟩] []
  | problem (hvalue : 2147483647 < Nat.ofDigitChars 10 ds 0) :
      Reads line ds [] [{ category := .lexical, cause := "Number too large: " ++ String.ofList ds, line }]

theorem reads_digits (line : Int) (ds : List Char) :
    Reads line ds ((Segment.digits ds).token? line).toList ((Segment.digits ds).problem? line).toList := by
  by_cases hvalue : digitsValue ds ≤ 2147483647
  · have htoken : (Segment.digits ds).token? line = some ⟨.number (String.ofList ds), line⟩ := by
      simp [token_eq, tokenKind?, greatestNumber, hvalue]
    have hproblem : (Segment.digits ds).problem? line = none := by
      simp [problem?, cause?, greatestNumber, hvalue]
    rw [htoken, hproblem]
    rw [digitsValue_eq] at hvalue
    refine .token hvalue ?_
    simp [TokenKind.literal?, digitsValue_eq]
  · have htoken : (Segment.digits ds).token? line = none := by
      simp [token_eq, tokenKind?, greatestNumber, hvalue]
    have hproblem : (Segment.digits ds).problem? line =
        some { category := .lexical, cause := "Number too large: " ++ String.ofList ds, line } := by
      simp [problem?, cause?, notedLine, advance, greatestNumber, hvalue]
    rw [htoken, hproblem]
    rw [digitsValue_eq] at hvalue
    exact .problem (Nat.lt_of_not_le hvalue)

theorem problems_ofSegments_cons (line : Int) (s : Segment) (segments : List Segment) :
    (Scan.ofSegments line (s :: segments)).problems =
      (s.problem? line).toList ++ (Scan.ofSegments (s.advance line) segments).problems := by
  simp only [Scan.ofSegments, placed, List.filterMap_cons]
  cases s.problem? line <;> rfl

/-- A scan fails exactly if a number of the text has more than 4300 digits. Otherwise it ends with the end of the
source, and for every number of the text what it finds is what is found in the text in front of the number and in the
text behind it, and between the two one token with the value of the number, or one problem if that is too large. -/
theorem numbers_scanned (line : Int) (source : List Char) :
    ((∃ long, Scan.ofSource line source = .error long) ↔
      ∃ front ds behind, NumberRun source front ds behind ∧ 4300 < ds.length) ∧
    ∀ scan, Scan.ofSource line source = .ok scan →
      (∃ rows : List Scan.Row, scan.rows = rows ++ [⟨"EOF", "", none, line + (source.count '\n' : Nat)⟩]) ∧
      ∀ front ds behind, NumberRun source front ds behind →
        ∃ earlier later ts problems, Scan.ofSource line front = .ok earlier ∧
          Scan.ofSource (line + (front.count '\n' : Nat)) behind = .ok later ∧
          Reads (line + (front.count '\n' : Nat)) ds ts problems ∧
          scan.tokens = earlier.tokens ++ ts ++ later.tokens ∧
          scan.problems = earlier.problems ++ problems ++ later.problems := by
  constructor
  · rw [Scan.ofSource_eq_error_iff]
    constructor
    · rintro ⟨ds, hds, hlength⟩
      obtain ⟨before, after, hsplit⟩ := List.append_of_mem hds
      have hsegmented := split_segmented source
      rw [hsplit] at hsegmented
      exact ⟨_, ds, _, hsegmented.numberRun, hlength⟩
    · rintro ⟨front, ds, behind, hrun, hlength⟩
      obtain ⟨before, after, hsplit, -, -⟩ := (split_segmented source).exists_digits hrun
      exact ⟨ds, by simp [hsplit], hlength⟩
  · intro scan hscan
    obtain ⟨hread, rfl⟩ := Scan.ofSource_eq_ok.1 hscan
    refine ⟨⟨_, (lexed_split line source).listing⟩, ?_⟩
    intro front ds behind hrun
    obtain ⟨before, after, hsplit, rfl, rfl⟩ := (split_segmented source).exists_digits hrun
    have hsegmented := split_segmented source
    rw [hsplit] at hsegmented hread
    have hread' := List.findSome?_eq_none_iff.1 hread
    have hbefore : before.findSome? excess? = none :=
      List.findSome?_eq_none_iff.2 fun s hs => hread' s (List.mem_append_left _ hs)
    have hafter : after.findSome? excess? = none :=
      List.findSome?_eq_none_iff.2 fun s hs => hread' s (List.mem_append_right _ (List.mem_cons_of_mem _ hs))
    have hrest : Segmented after (after.flatMap text) := by
      rw [← List.singleton_append, ← List.append_assoc] at hsegmented
      exact hsegmented.of_append.2
    refine ⟨_, _, _, _, Scan.ofSource_eq_ok_of_segmented hsegmented.of_append.1 hbefore,
      Scan.ofSource_eq_ok_of_segmented hrest hafter, reads_digits _ ds, ?_, ?_⟩
    · rw [hsplit, Scan.ofSegments_append]
      dsimp only
      rw [Scan.tokens_ofSegments_cons, hsegmented.lineBehind_front, advance]
      simp
    · rw [hsplit, Scan.ofSegments_append]
      dsimp only
      rw [problems_ofSegments_cons, hsegmented.lineBehind_front, advance]
      simp

/-- Digits in a word, in a string over two lines, and behind it a number with leading zeros and one that is too
large. -/
theorem numbers_scanned_mixed :
    let source := "a1 \"2\n\"0042+99999999999".toList
    let front := "a1 \"2\n\"0042+".toList
    let ds := "99999999999".toList
    ∃ scan, Scan.ofSource 3 source = .ok scan ∧ NumberRun source front ds [] ∧
      ∃ earlier later ts problems, Scan.ofSource 3 front = .ok earlier ∧ Scan.ofSource 4 [] = .ok later ∧
        Reads 4 ds ts problems ∧ scan.tokens = earlier.tokens ++ ts ++ later.tokens ∧
        scan.problems = earlier.problems ++ problems ++ later.problems ∧
        scan.tokens.map Token.lexeme = ["a1", "\"2\n\"", "0042", "+"] ∧ scan.problems.map Diagnostic.line = [4] := by
  intro source front ds
  have hsplit : split source = [.word "a1".toList, .blank ' ', .string "2\n".toList, .digits "0042".toList,
      .symbol .plus] ++ .digits ds :: [] := by decide +kernel
  have hsegmented := split_segmented source
  rw [hsplit] at hsegmented
  have hrun : NumberRun source front ds [] := hsegmented.numberRun
  have hscan : Scan.ofSource 3 source = .ok (Scan.ofSegments 3 (split source)) :=
    Scan.ofSource_eq_ok.2 ⟨by decide +kernel, rfl⟩
  obtain ⟨earlier, later, ts, problems, hearlier, hlater, hreads, htokens, hproblems⟩ :=
    ((numbers_scanned 3 source).2 _ hscan).2 front ds [] hrun
  exact ⟨_, hscan, hrun, earlier, later, ts, problems, hearlier, hlater, hreads, htokens, hproblems,
    by decide +kernel, by decide +kernel⟩

/-- A number of 4301 digits is too large, but stops the scan. -/
theorem longNumber_not_scanned :
    let source := List.replicate 4301 '1'
    NumberRun source [] source [] ∧ 2147483647 < Nat.ofDigitChars 10 source 0 ∧
      ¬ ∃ scan, Scan.ofSource 1 source = .ok scan := by
  intro source
  have hone : ∀ c ∈ source, c = '1' := fun c hc => List.eq_of_mem_replicate hc
  have hsegmented : Segmented ([] ++ .digits source :: []) source := by
    have hstands : Stands (.digits source) [] :=
      .digits (List.cons_ne_nil '1' _) (fun c hc => by rw [hone c hc]; decide) (fun c hc => by cases hc)
    have hcons := Segmented.cons hstands .nil
    rwa [List.append_nil] at hcons
  refine ⟨hsegmented.numberRun, ?_, ?_⟩
  · have hsource : source = '1' :: List.replicate 4300 '1' := List.replicate_succ
    rw [hsource]
    exact lt_ofDigitChars (by rw [List.length_replicate]; decide)
  · rintro ⟨scan, hscan⟩
    have hmem : .digits source ∈ split source := by
      rw [← hsegmented.eq_split]
      exact List.mem_cons_self
    have hlength : 4300 < source.length := by
      rw [List.length_replicate]
      decide
    obtain ⟨long, hlong⟩ := Scan.ofSource_eq_error_iff.2 ⟨source, hmem, hlength⟩
    rw [hlong] at hscan
    cases hscan

end SafariScript
