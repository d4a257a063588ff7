import SafariScript.Proofs.Token.Segments

/-!
# The lexicon

What the segments of a text are, said without the functions that find them. `Segment.Stands s rest` says that the
characters of `s` are of its class and that it may stand in front of `rest`: a run is not cut short, a comment or a
string ends at its first closing, a symbol of one character does not start a longer one or a comment. A text has
one segmentation of this kind and the split finds it (`Segment.split_eq_iff`). `Yields` says which tokens and which
problems segments give, in order and with their lines.
-/

namespace SafariScript

namespace Symbol

theorem ofPair_eq_some_iff {c d : Char} {s : Symbol} : ofPair? c d = some s ↔ s.spelling.toList = [c, d] := by
  refine ⟨toList_spelling_of_ofPair, fun h => ?_⟩
  cases s <;> cases h <;> rfl

theorem ofChar_eq_some_iff {c : Char} {s : Symbol} : ofChar? c = some s ↔ s.spelling.toList = [c] := by
  refine ⟨toList_spelling_of_ofChar, fun h => ?_⟩
  cases s <;> cases h <;> rfl

end Symbol

namespace Keyword

theorem mem_all (keyword : Keyword) : keyword ∈ all := by
  cases keyword <;> decide

theorem spelling_of_ofSpelling {text : String} {keyword : Keyword} (h : ofSpelling? text = some keyword) :
    keyword.spelling = text := by
  simpa using List.find?_some h

theorem spelling_ne_of_ofSpelling {text : String} (h : ofSpelling? text = none) (keyword : Keyword) :
    keyword.spelling ≠ text := by
  simpa using List.find?_eq_none.1 h keyword (mem_all keyword)

end Keyword

namespace Segment

/-! ## Classes of segments -/

/-- The body of a string: characters that neither end it nor escape, and backslashes with the character behind
them. -/
inductive Quotable : List Char → Prop where
  | nil : Quotable []
  | plain {c : Char} {cs : List Char} (hquote : c ≠ '"') (hescape : c ≠ '\\') (hcs : Quotable cs) : Quotable (c :: cs)
  | escape {c : Char} {cs : List Char} (hcs : Quotable cs) : Quotable ('\\' :: c :: cs)

/-- A character that starts no blank, string, number or word. -/
structure Bare (c : Char) : Prop where
  space : isSpace c = false
  quote : c ≠ '"'
  digit : isDigit c = false
  word : isWordStart c = false

/-- A segment that may stand in front of a text. -/
inductive Stands : Segment → List Char → Prop where
  | blank {c : Char} {rest : List Char} (hc : isSpace c = true) : Stands (.blank c) rest
  | lineComment {body rest : List Char} (hbody : '\n' ∉ body) (hrest : ∀ c ∈ rest.head?, c = '\n') :
      Stands (.lineComment body) rest
  /-- There is no closing before the one at its end, also not one that the last star of the body is part of. -/
  | blockComment {body rest : List Char} (hbody : ¬ ['*', '/'] <:+: body ++ ['*']) : Stands (.blockComment body) rest
  | openComment {body : List Char} (hbody : ¬ ['*', '/'] <:+: body) : Stands (.openComment body) []
  | string {raw rest : List Char} (hraw : Quotable raw) : Stands (.string raw) rest
  | openString {raw : List Char} (hraw : ∀ front behind, raw = front ++ '"' :: behind → ¬ Quotable front) :
      Stands (.openString raw) []
  | digits {ds rest : List Char} (hne : ds ≠ []) (hds : ∀ c ∈ ds, isDigit c = true)
      (hrest : ∀ c ∈ rest.head?, isDigit c = false) : Stands (.digits ds) rest
  | word {c : Char} {cs rest : List Char} (hc : isWordStart c = true) (hcs : ∀ d ∈ cs, isWordChar d = true)
      (hrest : ∀ d ∈ rest.head?, isWordChar d = false) : Stands (.word (c :: cs)) rest
  | pair {s : Symbol} {c d : Char} {rest : List Char} (hs : s.spelling.toList = [c, d]) : Stands (.symbol s) rest
  | single {s : Symbol} {c : Char} {rest : List Char} (hs : s.spelling.toList = [c])
      (hpair : ∀ d ∈ rest.head?, ∀ pair : Symbol, pair.spelling.toList ≠ [c, d])
      (hcomment : ¬ (c = '/' ∧ rest.head? = some '*')) : Stands (.symbol s) rest
  | stray {c : Char} {rest : List Char} (hc : Bare c) (hsingle : ∀ s : Symbol, s.spelling.toList ≠ [c])
      (hpair : ∀ d ∈ rest.head?, ∀ pair : Symbol, pair.spelling.toList ≠ [c, d])
      (hcomment : ¬ (c = ':' ∧ rest.head? = some '>')) : Stands (.stray c) rest

/-- The first character of a word is one that may also go on a word. -/
theorem isWordChar_of_word {c : Char} {cs : List Char} (hc : isWordStart c = true)
    (hcs : ∀ d ∈ cs, isWordChar d = true) : ∀ d ∈ c :: cs, isWordChar d = true :=
  List.forall_mem_cons.2 ⟨by rw [isWordChar, hc, Bool.true_or], hcs⟩

/-- A text and its segments from left to right, each one standing in front of the rest. -/
inductive Segmented : List Segment → List Char → Prop where
  | nil : Segmented [] []
  | cons {s : Segment} {ss : List Segment} {rest : List Char} (hs : Stands s rest) (hss : Segmented ss rest) :
      Segmented (s :: ss) (s.text ++ rest)

/-! ## Comments and strings -/

/-- No closing starts here, so those of the rest are all there are. -/
theorem closing_infix_cons {c : Char} {cs : List Char} (h : c = '*' → cs.head? ≠ some '/') :
    ['*', '/'] <:+: c :: cs ↔ ['*', '/'] <:+: cs := by
  rw [List.infix_cons_iff, or_iff_right]
  rintro ⟨rest, hrest⟩
  obtain ⟨rfl, rfl⟩ := List.cons.inj hrest
  exact h rfl rfl

theorem commentBody_cons {c : Char} {cs : List Char} (h : c = '*' → cs.head? ≠ some '/') :
    commentBody? (c :: cs) = (commentBody? cs).map fun (body, rest) => (c :: body, rest) := by
  rw [commentBody?]
  rintro rest rfl rfl
  exact h rfl rfl

/-- Reading on from a character at which no closing starts. -/
theorem head_ne_of_not_closing {c : Char} {cs : List Char} (h : ∀ rest, c = '*' → cs = '/' :: rest → False) :
    c = '*' → cs.head? ≠ some '/' := by
  intro hc hhead
  obtain ⟨rest, hcs⟩ := List.head?_eq_some_iff.1 hhead
  exact h rest hc hcs

theorem commentBody_eq_none_iff {cs : List Char} : commentBody? cs = none ↔ ¬ ['*', '/'] <:+: cs := by
  induction cs using commentBody?.induct with
  | case1 => simp [commentBody?]
  | case2 rest => simpa [commentBody?] using List.infix_append' [] ['*', '/'] rest
  | case3 c cs hclose ih =>
      have hhead := head_ne_of_not_closing hclose
      rw [commentBody_cons hhead, Option.map_eq_none_iff, ih, closing_infix_cons hhead]

theorem not_closing_of_commentBody {cs body rest : List Char} (h : commentBody? cs = some (body, rest)) :
    ¬ ['*', '/'] <:+: body ++ ['*'] := by
  induction cs using commentBody?.induct generalizing body with
  | case1 => simp [commentBody?] at h
  | case2 rest' =>
      simp only [commentBody?, Option.some.injEq, Prod.mk.injEq] at h
      obtain ⟨rfl, -⟩ := h
      exact fun hpart => absurd hpart.length_le (by decide)
  | case3 c cs hclose ih =>
      rw [commentBody_cons (head_ne_of_not_closing hclose)] at h
      obtain ⟨⟨inner, rest'⟩, hinner, heq⟩ := Option.map_eq_some_iff.1 h
      simp only [Prod.mk.injEq] at heq
      obtain ⟨rfl, rfl⟩ := heq
      have htext := (commentBody_closed hinner).1
      rw [List.cons_append, closing_infix_cons]
      · exact ih hinner
      · -- what stands behind the character in the body stands behind it in the text
        rintro rfl hhead
        refine head_ne_of_not_closing hclose rfl ?_
        rw [htext, ← hhead]
        cases inner <;> rfl

theorem commentBody_of_not_closing {body : List Char} (h : ¬ ['*', '/'] <:+: body ++ ['*']) (rest : List Char) :
    commentBody? (body ++ '*' :: '/' :: rest) = some (body, rest) := by
  induction body with
  | nil => rfl
  | cons c body ih =>
      have hhead : c = '*' → (body ++ ['*']).head? ≠ some '/' := by
        rintro rfl hhead
        obtain ⟨more, hmore⟩ := List.head?_eq_some_iff.1 hhead
        refine h ⟨[], more, ?_⟩
        rw [List.cons_append, hmore]
        rfl
      rw [List.cons_append, closing_infix_cons hhead] at h
      rw [List.cons_append, commentBody_cons, ih h]
      · rfl
      · rw [show (body ++ '*' :: '/' :: rest).head? = (body ++ ['*']).head? by cases body <;> rfl]
        exact hhead

theorem quotable_of_stringBody {cs raw rest : List Char} (h : stringBody? cs = some (raw, rest)) : Quotable raw := by
  induction cs using stringBody?.induct generalizing raw with
  | case1 => simp [stringBody?] at h
  | case2 rest' =>
      simp only [stringBody?, Option.some.injEq, Prod.mk.injEq] at h
      obtain ⟨rfl, -⟩ := h
      exact .nil
  | case3 c cs ih =>
      rw [stringBody?] at h
      obtain ⟨⟨inner, rest'⟩, hinner, heq⟩ := Option.map_eq_some_iff.1 h
      simp only [Prod.mk.injEq] at heq
      obtain ⟨rfl, rfl⟩ := heq
      exact .escape (ih hinner)
  | case4 c cs hquote hescape ih =>
      rw [stringBody?.eq_4 c cs hquote hescape] at h
      obtain ⟨⟨inner, rest'⟩, hinner, heq⟩ := Option.map_eq_some_iff.1 h
      simp only [Prod.mk.injEq] at heq
      obtain ⟨rfl, rfl⟩ := heq
      refine .plain hquote ?_ (ih hinner)
      rintro rfl
      -- a backslash with nothing behind it leaves the string open
      cases cs with
      | nil => simp [stringBody?] at hinner
      | cons d cs => exact hescape d cs rfl rfl

theorem stringBody_of_quotable {raw : List Char} (h : Quotable raw) (rest : List Char) :
    stringBody? (raw ++ '"' :: rest) = some (raw, rest) := by
  induction h with
  | nil => rfl
  | plain hquote hescape _ ih =>
      rw [List.cons_append, stringBody?, ih]
      · rfl
      · exact hquote
      · exact fun d cs hc _ => hescape hc
  | escape _ ih =>
      rw [List.cons_append, List.cons_append, stringBody?, ih]
      rfl

/-- The body of a string ends at the quotation mark that is not escaped. -/
theorem stringBody_eq_some_iff {cs raw rest : List Char} :
    stringBody? cs = some (raw, rest) ↔ cs = raw ++ '"' :: rest ∧ Quotable raw := by
  refine ⟨fun h => ⟨(stringBody_closed h).1, quotable_of_stringBody h⟩, ?_⟩
  rintro ⟨rfl, hraw⟩
  exact stringBody_of_quotable hraw rest

theorem stringBody_eq_none_iff {cs : List Char} :
    stringBody? cs = none ↔ ∀ front behind, cs = front ++ '"' :: behind → ¬ Quotable front := by
  rw [Option.eq_none_iff_forall_ne_some]
  simp only [Prod.forall, ne_eq, stringBody_eq_some_iff, not_and]

/-! ## One segment -/

/-- A run ends in front of the first character that does not belong to it. -/
theorem span_of_run {p : Char → Bool} {run rest : List Char} (hrun : ∀ c ∈ run, p c = true)
    (hrest : ∀ c ∈ rest.head?, p c = false) :
    (run ++ rest).takeWhile p = run ∧ (run ++ rest).dropWhile p = rest := by
  rw [List.takeWhile_append_of_pos hrun, List.dropWhile_append_of_pos hrun]
  cases rest with
  | nil => simp
  | cons c rest => simp [hrest c rfl]

theorem head_dropWhile {p : Char → Bool} (cs : List Char) : ∀ c ∈ (cs.dropWhile p).head?, p c = false := by
  intro c hc
  have hnot := List.head?_dropWhile_not p cs
  rwa [Option.mem_def.1 hc] at hnot

/-- A character at which neither a run nor a comment nor a string starts is left to the symbols. -/
theorem next_eq_operator {c : Char} {rest : List Char} (hc : Bare c) (hline : ¬ (c = ':' ∧ rest.head? = some '>'))
    (hblock : ¬ (c = '/' ∧ rest.head? = some '*')) : next c rest = operator c rest := by
  unfold next
  rw [if_neg (by simp [hc.space]), if_neg (by simpa using hline), if_neg (by simpa using hblock),
    if_neg (by simpa using hc.quote), if_neg (by simp [hc.digit]), if_neg (by simp [hc.word])]

/-- The first character of a run starts no blank, comment or string. -/
theorem next_of_run {p : Char → Bool} {c : Char} (hc : p c = true)
    (hp : ∀ d ∈ [' ', '\r', '\t', '\n', ':', '/', '"'], p d = false) (rest : List Char) :
    next c rest =
      if isDigit c then (.digits (c :: rest.takeWhile isDigit), rest.dropWhile isDigit)
      else if isWordStart c then (.word (c :: rest.takeWhile isWordChar), rest.dropWhile isWordChar)
      else operator c rest := by
  have hne (d : Char) (hd : d ∈ [' ', '\r', '\t', '\n', ':', '/', '"']) : (c == d) = false := by
    rw [beq_eq_false_iff_ne]
    rintro rfl
    simp [hp c hd] at hc
  simp [next, isSpace, hne]

theorem next_of_isDigit {c : Char} (hc : isDigit c = true) (rest : List Char) :
    next c rest = (.digits (c :: rest.takeWhile isDigit), rest.dropWhile isDigit) := by
  rw [next_of_run hc (by simp [isDigit]), if_pos hc]

theorem next_of_isWordStart {c : Char} (hc : isWordStart c = true) (rest : List Char) :
    next c rest = (.word (c :: rest.takeWhile isWordChar), rest.dropWhile isWordChar) := by
  have hdigit : ¬ isDigit c = true := by
    intro hdigit
    simp only [isDigit, isWordStart, Bool.or_eq_true, Bool.and_eq_true, decide_eq_true_eq, beq_iff_eq] at hc hdigit
    obtain (⟨ha, -⟩ | ⟨ha, -⟩) | rfl := hc
    · exact absurd (Char.le_trans ha hdigit.2) (by decide)
    · exact absurd (Char.le_trans ha hdigit.2) (by decide)
    · exact absurd hdigit.2 (by decide)
  rw [next_of_run hc (by simp [isWordStart]), if_neg hdigit, if_pos hc]

theorem bare_of_spelling {s : Symbol} {c : Char} {cs : List Char} (h : s.spelling.toList = c :: cs) :
    Bare c ∧ c ≠ ':' := by
  cases s <;> cases h <;> exact ⟨⟨by decide, by decide, by decide, by decide⟩, by decide⟩

theorem not_comment_of_pair {s : Symbol} {c d : Char} (h : s.spelling.toList = [c, d]) : c ≠ '/' := by
  cases s <;> cases h <;> decide

/-- No symbol of two characters starts here. -/
theorem no_pair_iff {c : Char} {rest : List Char} :
    rest.head?.bind (Symbol.ofPair? c) = none ↔
      ∀ d ∈ rest.head?, ∀ pair : Symbol, pair.spelling.toList ≠ [c, d] := by
  rw [Option.bind_eq_none_iff]
  refine forall₂_congr fun d _ => ?_
  rw [Option.eq_none_iff_forall_ne_some]
  exact forall_congr' fun pair => not_congr Symbol.ofPair_eq_some_iff

theorem no_single_iff {c : Char} : Symbol.ofChar? c = none ↔ ∀ s : Symbol, s.spelling.toList ≠ [c] := by
  rw [Option.eq_none_iff_forall_ne_some]
  exact forall_congr' fun s => not_congr Symbol.ofChar_eq_some_iff

theorem operator_stands {c : Char} {rest : List Char} (hc : Bare c) (hline : ¬ (c = ':' ∧ rest.head? = some '>'))
    (hblock : ¬ (c = '/' ∧ rest.head? = some '*')) : Stands (operator c rest).1 (operator c rest).2 := by
  unfold operator
  split
  · next pair hpair =>
    obtain ⟨d, -, hpair⟩ := Option.bind_eq_some_iff.1 hpair
    exact .pair (Symbol.ofPair_eq_some_iff.1 hpair)
  · next hpair =>
    have hpair := no_pair_iff.1 hpair
    split
    · next single hsingle => exact .single (Symbol.ofChar_eq_some_iff.1 hsingle) hpair hblock
    · next hsingle => exact .stray hc (no_single_iff.1 hsingle) hpair hline

/-- The segment that a text starts with is of its class. -/
theorem next_stands (c : Char) (rest : List Char) : Stands (next c rest).1 (next c rest).2 := by
  unfold next
  split
  · next hspace => exact .blank hspace
  next hspace =>
  split
  · refine .lineComment (fun hmem => ?_) (fun c hc => ?_)
    · simpa using List.all_eq_true.1 List.all_takeWhile _ hmem
    · simpa using head_dropWhile _ c hc
  next hline =>
  split
  · unfold comment
    split
    · next body rest' hbody => exact .blockComment (not_closing_of_commentBody hbody)
    · next hopen => exact .openComment (commentBody_eq_none_iff.1 hopen)
  next hblock =>
  split
  · unfold quotation
    split
    · next raw rest' hraw => exact .string (quotable_of_stringBody hraw)
    · next hopen => exact .openString (stringBody_eq_none_iff.1 hopen)
  next hquote =>
  split
  · next hdigit =>
    refine .digits (List.cons_ne_nil _ _) (List.forall_mem_cons.2 ⟨hdigit, ?_⟩) (head_dropWhile rest)
    exact List.all_eq_true.1 List.all_takeWhile
  next hdigit =>
  split
  · next hword => exact .word hword (List.all_eq_true.1 List.all_takeWhile) (head_dropWhile rest)
  next hword =>
  have hc : Bare c := ⟨by simpa using hspace, by simpa using hquote, by simpa using hdigit, by simpa using hword⟩
  exact operator_stands hc (by simpa using hline) (by simpa using hblock)

/-- A segment that stands in front of a text is the one that is found there. -/
theorem next_of_stands {s : Segment} {c : Char} {rest behind : List Char} (h : Stands s behind)
    (htext : s.text ++ behind = c :: rest) : next c rest = (s, behind) := by
  cases h with
  | blank hc =>
      obtain ⟨rfl, rfl⟩ := List.cons.inj htext
      simp [next, hc]
  | @lineComment body _ hbody hrest =>
      obtain ⟨rfl, rfl⟩ := List.cons.inj htext
      have hspan := @span_of_run (· != '\n') body behind (fun c hc => by simpa using ne_of_mem_of_not_mem hc hbody)
        (fun c hc => by simpa using hrest c hc)
      show (Segment.lineComment ((body ++ behind).takeWhile _), (body ++ behind).dropWhile _) = _
      rw [hspan.1, hspan.2]
  | @blockComment body _ hbody =>
      obtain ⟨rfl, rfl⟩ := List.cons.inj htext
      have hbehind : body ++ ['*', '/'] ++ behind = body ++ '*' :: '/' :: behind := List.append_assoc _ _ _
      show comment (body ++ ['*', '/'] ++ behind) = _
      rw [comment, hbehind, commentBody_of_not_closing hbody behind]
  | @openComment body hbody =>
      obtain ⟨rfl, rfl⟩ := List.cons.inj htext
      show comment (body ++ []) = _
      rw [comment, List.append_nil, commentBody_eq_none_iff.2 hbody]
  | @string raw _ hraw =>
      obtain ⟨rfl, rfl⟩ := List.cons.inj htext
      have hbehind : raw ++ ['"'] ++ behind = raw ++ '"' :: behind := List.append_assoc _ _ _
      show quotation (raw ++ ['"'] ++ behind) = _
      rw [quotation, hbehind, stringBody_of_quotable hraw behind]
  | @openString raw hraw =>
      obtain ⟨rfl, rfl⟩ := List.cons.inj htext
      show quotation (raw ++ []) = _
      rw [quotation, List.append_nil, stringBody_eq_none_iff.2 hraw]
  | @digits ds _ hne hds hrest =>
      obtain ⟨d, ds, rfl⟩ := List.exists_cons_of_ne_nil hne
      obtain ⟨rfl, rfl⟩ := List.cons.inj htext
      obtain ⟨hd, hds⟩ := List.forall_mem_cons.1 hds
      have hspan := span_of_run hds hrest
      show next _ (ds ++ behind) = _
      rw [next_of_isDigit hd, hspan.1, hspan.2]
  | @word d cs _ hd hcs hrest =>
      obtain ⟨rfl, rfl⟩ := List.cons.inj htext
      have hspan := span_of_run hcs hrest
      show next _ (cs ++ behind) = _
      rw [next_of_isWordStart hd, hspan.1, hspan.2]
  | @pair s' c d _ hs =>
      rw [text, hs] at htext
      obtain ⟨rfl, rfl⟩ := List.cons.inj htext
      obtain ⟨hbare, hcolon⟩ := bare_of_spelling hs
      rw [next_eq_operator hbare (fun h => hcolon h.1) (fun h => not_comment_of_pair hs h.1)]
      simp [operator, Symbol.ofPair_eq_some_iff.2 hs]
  | single hs hpair hcomment =>
      rw [text, hs] at htext
      obtain ⟨rfl, rfl⟩ := List.cons.inj htext
      obtain ⟨hbare, hcolon⟩ := bare_of_spelling hs
      show next _ behind = _
      rw [next_eq_operator hbare (fun h => hcolon h.1) hcomment, operator]
      simp only [no_pair_iff.2 hpair, Symbol.ofChar_eq_some_iff.2 hs]
  | @stray c _ hc hsingle hpair hcomment =>
      obtain ⟨rfl, rfl⟩ := List.cons.inj htext
      have hslash : c ≠ '/' := fun h => hsingle .slash (by rw [h]; rfl)
      show next _ behind = _
      rw [next_eq_operator hc hcomment (fun h => hslash h.1), operator]
      simp only [no_pair_iff.2 hpair, no_single_iff.2 hsingle]

/-! ## All segments -/

theorem split_segmented (cs : List Char) : Segmented (split cs) cs := by
  induction hn : cs.length using Nat.strongRecOn generalizing cs with
  | ind n ih =>
      cases cs with
      | nil => exact .nil
      | cons c rest =>
          obtain ⟨front, htext, hrest⟩ := exists_next_text c rest
          have hlength := length_next_le c rest
          rw [List.length_cons] at hn
          have hsegmented := Segmented.cons (next_stands c rest) (ih _ (by omega) _ rfl)
          rwa [htext, List.cons_append, ← hrest, ← split_cons] at hsegmented

theorem Stands.text_ne_nil {s : Segment} {rest : List Char} (h : Stands s rest) : s.text ≠ [] := by
  cases h with
  | digits hne => exact hne
  | pair hs => simp [text, hs]
  | single hs => simp [text, hs]
  | _ => simp [text]

theorem Segmented.eq_split {ss : List Segment} {cs : List Char} (h : Segmented ss cs) : ss = split cs := by
  induction h with
  | nil => rfl
  | @cons s ss rest hs _ ih =>
      obtain ⟨c, front, htext⟩ := List.exists_cons_of_ne_nil hs.text_ne_nil
      have hnext := next_of_stands hs (by rw [htext]; rfl : s.text ++ rest = c :: (front ++ rest))
      rw [htext, List.cons_append, split_cons, hnext, ← ih]

/-- A text is segmented in one way, and the split finds it. -/
theorem split_eq_iff {cs : List Char} {ss : List Segment} : split cs = ss ↔ Segmented ss cs :=
  ⟨fun h => h ▸ split_segmented cs, fun h => h.eq_split.symm⟩

/-! ## Tokens and problems -/

/-- The kind of token that a segment is. -/
inductive Denotes : Segment → TokenKind → Prop where
  | text (raw : List Char) : Denotes (.string raw) (.text (String.ofList raw))
  | number {ds : List Char} (hds : digitsValue ds ≤ 2147483647) : Denotes (.digits ds) (.number (String.ofList ds))
  | keyword {cs : List Char} {keyword : Keyword} (hcs : keyword.spelling.toList = cs) :
      Denotes (.word cs) (.keyword keyword)
  | ident {cs : List Char} (hcs : ∀ keyword : Keyword, keyword.spelling.toList ≠ cs) :
      Denotes (.word cs) (.ident (String.ofList cs))
  | symbol (s : Symbol) : Denotes (.symbol s) (.symbol s)

/-- The problem with a segment that starts on a line. -/
inductive Flaw (line : Int) : Segment → Diagnostic → Prop where
  | stray (c : Char) : Flaw line (.stray c)
      { category := .lexical, cause := "Unexpected character ('" ++ c.toString ++ "')", line }
  | number {ds : List Char} (hds : 2147483647 < digitsValue ds) : Flaw line (.digits ds)
      { category := .lexical, cause := "Number too large: " ++ String.ofList ds, line }
  | string (raw : List Char) : Flaw line (.openString raw)
      { category := .lexical, cause := "Unterminated string", line }
  /-- The only problem that is reported at its end. -/
  | comment (body : List Char) : Flaw line (.openComment body)
      { category := .lexical, cause := "Unterminated multi-line comment", line := line + (body.count '\n' : Nat) }

/-- A segment that is neither a token nor a problem. -/
inductive Silent : Segment → Prop where
  | blank (c : Char) : Silent (.blank c)
  | lineComment (body : List Char) : Silent (.lineComment body)
  | blockComment (body : List Char) : Silent (.blockComment body)

theorem denotes_of_tokenKind {s : Segment} {kind : TokenKind} (h : s.tokenKind? = some kind) :
    s.Denotes kind ∧ kind.lexeme.toList = s.text := by
  cases s with
  | string raw =>
      cases h
      exact ⟨.text raw, by simp [TokenKind.lexeme, Segment.text]⟩
  | digits ds =>
      simp only [tokenKind?, Option.ite_none_right_eq_some, Option.some.injEq] at h
      obtain ⟨hds, rfl⟩ := h
      exact ⟨.number hds, String.toList_ofList⟩
  | word cs =>
      cases hkeyword : Keyword.ofSpelling? (String.ofList cs) with
      | some keyword =>
          have hspelling := Keyword.spelling_of_ofSpelling hkeyword
          have hcs : keyword.spelling.toList = cs := by rw [hspelling, String.toList_ofList]
          simp only [tokenKind?, hkeyword, Option.some.injEq] at h
          subst h
          exact ⟨.keyword hcs, hcs⟩
      | none =>
          simp only [tokenKind?, hkeyword, Option.some.injEq] at h
          subst h
          refine ⟨.ident fun keyword hcs => ?_, String.toList_ofList⟩
          exact Keyword.spelling_ne_of_ofSpelling hkeyword keyword (by rw [← hcs, String.ofList_toList])
  | symbol s =>
      cases h
      exact ⟨.symbol s, rfl⟩
  | _ => cases h

/-- A token is noted on the line where it starts: a string because that line is kept, and no other token has line
feeds to count. -/
theorem token_eq (line : Int) (s : Segment) : s.token? line = s.tokenKind?.map fun kind => ⟨kind, line⟩ := by
  cases s <;> rfl

theorem exists_kind_of_token {line : Int} {s : Segment} {t : Token} (h : s.token? line = some t) :
    ∃ kind, s.tokenKind? = some kind ∧ ⟨kind, line⟩ = t :=
  Option.map_eq_some_iff.1 ((token_eq line s).symm.trans h)

/-- What is wrong with a segment is noted where it starts, unless it is a comment: there the counter has passed the
line feeds of the comment. -/
theorem flaw_of_problem {line : Int} {s : Segment} {d : Diagnostic} (h : s.problem? line = some d) : s.Flaw line d := by
  obtain ⟨cause, hcause, rfl⟩ := Option.map_eq_some_iff.1 h
  cases s with
  | stray c =>
      cases hcause
      exact .stray c
  | openString raw =>
      cases hcause
      exact .string raw
  | openComment body =>
      cases hcause
      have hline : notedLine line (.openComment body) = line + (body.count '\n' : Nat) := commentLine_eq line body
      rw [hline]
      exact .comment body
  | digits ds =>
      simp only [cause?, Option.ite_none_left_eq_some, Option.some.injEq] at hcause
      obtain ⟨hds, rfl⟩ := hcause
      exact .number (Nat.lt_of_not_le hds)
  | _ => cases hcause

/-- A segment is a token, a problem, or neither. -/
theorem token_or_problem (line : Int) (s : Segment) :
    (∃ kind, s.Denotes kind ∧ kind.lexeme.toList = s.text ∧ s.token? line = some ⟨kind, line⟩ ∧
      s.problem? line = none) ∨
    (∃ d, s.Flaw line d ∧ s.token? line = none ∧ s.problem? line = some d) ∨
    (s.Silent ∧ s.token? line = none ∧ s.problem? line = none) := by
  cases hkind : s.tokenKind? with
  | some kind =>
      obtain ⟨hdenotes, hlexeme⟩ := denotes_of_tokenKind hkind
      refine .inl ⟨kind, hdenotes, hlexeme, by rw [token_eq, hkind]; rfl, ?_⟩
      cases hdenotes with
      | @number ds hds =>
          have hnone : (digits ds).cause? = none := if_pos hds
          rw [problem?, hnone, Option.map_none]
      | _ => rfl
  | none =>
      right
      have htoken : s.token? line = none := by rw [token_eq, hkind]; rfl
      have hflawed {cause : String} (hcause : s.cause? = some cause) :
          ∃ d, s.Flaw line d ∧ s.token? line = none ∧ s.problem? line = some d := by
        have hproblem : s.problem? line = some { category := .lexical, cause, line := s.notedLine line } := by
          rw [problem?, hcause, Option.map_some]
        exact ⟨_, flaw_of_problem hproblem, htoken, hproblem⟩
      cases s with
      | blank c => exact .inr ⟨.blank c, htoken, rfl⟩
      | lineComment body => exact .inr ⟨.lineComment body, htoken, rfl⟩
      | blockComment body => exact .inr ⟨.blockComment body, htoken, rfl⟩
      | openComment | openString | stray => exact .inl (hflawed rfl)
      | digits ds =>
          have hds : ¬ digitsValue ds ≤ greatestNumber := by simpa [tokenKind?] using hkind
          exact .inl (hflawed (if_neg hds))
      | string raw => cases hkind
      | symbol s => cases hkind
      | word cs => simp only [tokenKind?] at hkind; split at hkind <;> cases hkind

/-- A segmentation is that of the split, so all its line feeds are counted. -/
theorem Segmented.counted {ss : List Segment} {cs : List Char} (h : Segmented ss cs) : ∀ s ∈ ss, s.Counted := by
  rw [h.eq_split]
  exact fun _ => counted_of_mem_split

/-- The line counter in front of a segment has counted the line feeds of the text up to there. -/
theorem Segmented.lineBehind_front {front rest : List Segment} {s : Segment} {cs : List Char} {line : Int}
    (h : Segmented (front ++ s :: rest) cs) :
    lineBehind line front = line + ((front.flatMap text).count '\n' : Nat) :=
  lineBehind_eq line fun s' hs' => h.counted s' (List.mem_append_left _ hs')

end Segment

/-- What segments give from a line on: each a token with its own characters, a problem, or nothing. -/
inductive Yields : Int → List Segment → List Token → Diagnostics → Prop where
  | nil {line : Int} : Yields line [] [] []
  | token {line : Int} {s : Segment} {ss : List Segment} {t : Token} {ts : List Token} {ds : Diagnostics}
      (hkind : s.Denotes t.kind) (hlexeme : t.lexeme.toList = s.text) (hline : t.line = line)
      (hrest : Yields (line + (s.text.count '\n' : Nat)) ss ts ds) : Yields line (s :: ss) (t :: ts) ds
  | problem {line : Int} {s : Segment} {ss : List Segment} {d : Diagnostic} {ts : List Token} {ds : Diagnostics}
      (hflaw : s.Flaw line d) (hrest : Yields (line + (s.text.count '\n' : Nat)) ss ts ds) :
      Yields line (s :: ss) ts (d :: ds)
  | silent {line : Int} {s : Segment} {ss : List Segment} {ts : List Token} {ds : Diagnostics} (hs : s.Silent)
      (hrest : Yields (line + (s.text.count '\n' : Nat)) ss ts ds) : Yields line (s :: ss) ts ds

theorem yields_ofSegments (line : Int) {segments : List Segment} (h : ∀ s ∈ segments, s.Counted) :
    Yields line segments (Scan.ofSegments line segments).tokens (Scan.ofSegments line segments).problems := by
  induction segments generalizing line with
  | nil => exact .nil
  | cons s segments ih =>
      obtain ⟨hs, hcounted⟩ := List.forall_mem_cons.1 h
      have hrest := ih (s.advance line) hcounted
      rw [hs] at hrest
      simp only [Scan.ofSegments, placed, List.filterMap_cons, hs line] at hrest ⊢
      obtain ⟨kind, hkind, hlexeme, htoken, hproblem⟩ | ⟨d, hflaw, htoken, hproblem⟩ | ⟨hsilent, htoken, hproblem⟩ :=
        Segment.token_or_problem line s
      · rw [htoken, hproblem]
        exact .token hkind hlexeme rfl hrest
      · rw [htoken, hproblem]
        exact .problem hflaw hrest
      · rw [htoken, hproblem]
        exact .silent hsilent hrest

/-- A number of a segmented text is a run of digits of it. -/
theorem Segment.Segmented.digits_within {ss : List Segment} {cs ds : List Char} (h : Segmented ss cs)
    (hds : .digits ds ∈ ss) : ds <:+: cs ∧ ∀ c ∈ ds, isDigit c = true := by
  induction h with
  | nil => cases hds
  | @cons s ss rest hs _ ih =>
      rcases List.mem_cons.1 hds with rfl | hds
      · cases hs with
        | digits _ hall => exact ⟨(List.prefix_append ds rest).isInfix, hall⟩
      · obtain ⟨hpart, hall⟩ := ih hds
        exact ⟨hpart.trans (List.suffix_append s.text rest).isInfix, hall⟩

/-- How a text from a line on is read: its segments, the tokens and problems that these give, and the listing. -/
structure Lexed (line : Int) (source : List Char) (segments : List Segment) (scan : Scan) : Prop where
  segmented : Segment.Segmented segments source
  unique : ∀ others, Segment.Segmented others source → others = segments
  text : segments.flatMap Segment.text = source
  yields : Yields line segments scan.tokens scan.problems
  listing : scan.rows =
    scan.tokens.map (fun t => ⟨t.kind.typeName, t.lexeme, t.kind.literal?, t.line⟩) ++
      [⟨"EOF", "", none, line + (source.count '\n' : Nat)⟩]
  endOnce : ∀ t ∈ scan.tokens, t.kind.typeName ≠ "EOF"

theorem TokenKind.typeName_ne_end (kind : TokenKind) : kind.typeName ≠ "EOF" := by
  cases kind with
  | symbol s => cases s <;> decide
  | keyword keyword => cases keyword <;> decide
  | ident name => simp [TokenKind.typeName]
  | number digits => simp [TokenKind.typeName]
  | text raw => simp [TokenKind.typeName]

theorem lexed_split (line : Int) (source : List Char) :
    Lexed line source (Segment.split source) (Scan.ofSegments line (Segment.split source)) where
  segmented := Segment.split_segmented source
  unique := fun _ hothers => hothers.eq_split
  text := Segment.split_text source
  yields := yields_ofSegments line fun _ => Segment.counted_of_mem_split
  listing := by
    rw [← lineBehind_split line source]
    rfl
  endOnce := fun t _ => t.kind.typeName_ne_end

theorem excess_eq_none {source : List Char}
    (h : ∀ run, run <:+: source → (∀ c ∈ run, Segment.isDigit c = true) → run.length ≤ Text.digitLimit) :
    (Segment.split source).findSome? Segment.excess? = none := by
  rw [List.findSome?_eq_none_iff]
  intro s hs
  cases s with
  | digits ds =>
      obtain ⟨hpart, hall⟩ := (Segment.split_segmented source).digits_within hs
      exact if_pos (h ds hpart hall)
  | _ => rfl

/-- A text without a run of more than 4300 digits is scanned to the end, and read by its only segmentation. -/
theorem lexed_ofSource (line : Int) (source : List Char)
    (hdigits : ∀ run, run <:+: source → (∀ c ∈ run, Segment.isDigit c = true) → run.length ≤ 4300) :
    ∃ segments scan, Scan.ofSource line source = .ok scan ∧ Lexed line source segments scan :=
  ⟨_, _, Scan.ofSource_eq_ok.2 ⟨excess_eq_none hdigits, rfl⟩, lexed_split line source⟩

/-- Overlapping openings and closings: the comment `/*/ */`, a quotation mark that is escaped, a number that is too
large, an ampersand on its own and a string that is never closed. -/
theorem lexed_ofSource_overlapping :
    let source := "var a1-->2/*/ */:>b\n\"\\\"\\\\\"99999999999 & \"x\\\"".toList
    (∀ run, run <:+: source → (∀ c ∈ run, Segment.isDigit c = true) → run.length ≤ 4300) ∧
      ∃ segments scan, Scan.ofSource 7 source = .ok scan ∧ Lexed 7 source segments scan ∧
        scan.tokens.map Token.lexeme = ["var", "a1", "-", "->", "2", "\"\\\"\\\\\""] ∧ scan.problems.length = 3 := by
  intro source
  have hdigits : ∀ run, run <:+: source → (∀ c ∈ run, Segment.isDigit c = true) → run.length ≤ 4300 :=
    fun run hrun _ => Nat.le_trans hrun.length_le (by decide)
  obtain ⟨segments, scan, hscan, hlexed⟩ := lexed_ofSource 7 source hdigits
  obtain ⟨-, rfl⟩ := Scan.ofSource_eq_ok.1 hscan
  exact ⟨hdigits, segments, _, hscan, hlexed, by decide +kernel, by decide +kernel⟩

end SafariScript
