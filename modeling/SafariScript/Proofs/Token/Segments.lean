import SafariScript.Token.Scan

/-!
# Splitting a text at a line feed

The segments of a text, written one after the other, give it back (`Segment.split_text`), so the lines on which
they start can be counted in the text itself. A line feed belongs to no segment but comments and strings, and no
other segment looks beyond it: unless a comment or a string is still open, a text that ends before a line feed has
the same segments whatever follows (`Segment.split_append`), and so the same tokens on the same lines
(`Scan.ofSource_append`).
-/

namespace SafariScript

namespace Symbol

theorem toList_spelling_of_ofChar {c : Char} {s : Symbol} (h : ofChar? c = some s) : s.spelling.toList = [c] := by
  unfold ofChar? at h
  split at h
  all_goals cases h
  all_goals decide

theorem toList_spelling_of_ofPair {c d : Char} {s : Symbol} (h : ofPair? c d = some s) :
    s.spelling.toList = [c, d] := by
  unfold ofPair? at h
  split at h
  all_goals cases h
  all_goals decide

end Symbol

namespace Segment

/-- A comment or a string that is never closed. -/
def isOpen : Segment → Bool
  | .openComment _ | .openString _ => true
  | _ => false

/-! ## One segment -/

/-- A comment that is closed ends with its closing, and does not go on behind it. -/
theorem commentBody_closed {cs body rest : List Char} (h : commentBody? cs = some (body, rest)) :
    cs = body ++ '*' :: '/' :: rest ∧ ∀ more, commentBody? (cs ++ more) = some (body, rest ++ more) := by
  induction cs using commentBody?.induct generalizing body with
  | case1 => simp [commentBody?] at h
  | case2 rest' =>
      simp only [commentBody?, Option.some.injEq, Prod.mk.injEq] at h
      obtain ⟨rfl, rfl⟩ := h
      exact ⟨rfl, fun more => rfl⟩
  | case3 c cs hclose ih =>
      rw [commentBody?] at h
      · obtain ⟨⟨inner, rest'⟩, hinner, heq⟩ := Option.map_eq_some_iff.1 h
        simp only [Prod.mk.injEq] at heq
        obtain ⟨rfl, rfl⟩ := heq
        obtain ⟨htext, hmore⟩ := ih hinner
        refine ⟨congrArg (c :: ·) htext, fun more => ?_⟩
        rw [List.cons_append, commentBody?, hmore]
        · rfl
        · rintro rest'' rfl hcs
          -- the closing is not split by the end of the text, for there is one behind it
          cases cs with
          | nil => simp [commentBody?] at hinner
          | cons d cs =>
              obtain ⟨rfl, -⟩ := List.cons.inj hcs
              exact hclose cs rfl rfl
      · exact hclose

/-- A string that is closed ends with its quote, and does not go on behind it. -/
theorem stringBody_closed {cs raw rest : List Char} (h : stringBody? cs = some (raw, rest)) :
    cs = raw ++ '"' :: rest ∧ ∀ more, stringBody? (cs ++ more) = some (raw, rest ++ more) := by
  induction cs using stringBody?.induct generalizing raw with
  | case1 => simp [stringBody?] at h
  | case2 rest' =>
      simp only [stringBody?, Option.some.injEq, Prod.mk.injEq] at h
      obtain ⟨rfl, rfl⟩ := h
      exact ⟨rfl, fun more => rfl⟩
  | case3 c cs ih =>
      rw [stringBody?] at h
      obtain ⟨⟨inner, rest'⟩, hinner, heq⟩ := Option.map_eq_some_iff.1 h
      simp only [Prod.mk.injEq] at heq
      obtain ⟨rfl, rfl⟩ := heq
      obtain ⟨htext, hmore⟩ := ih hinner
      refine ⟨by rw [htext]; rfl, fun more => ?_⟩
      rw [List.cons_append, List.cons_append, stringBody?, hmore]
      rfl
  | case4 c cs hquote hescape ih =>
      rw [stringBody?] at h
      · obtain ⟨⟨inner, rest'⟩, hinner, heq⟩ := Option.map_eq_some_iff.1 h
        simp only [Prod.mk.injEq] at heq
        obtain ⟨rfl, rfl⟩ := heq
        obtain ⟨htext, hmore⟩ := ih hinner
        refine ⟨congrArg (c :: ·) htext, fun more => ?_⟩
        rw [List.cons_append, stringBody?, hmore]
        · rfl
        · exact hquote
        · rintro d rest'' rfl hcs
          cases cs with
          | nil => simp [stringBody?] at hinner
          | cons e cs => exact hescape e cs rfl rfl
      · exact hquote
      · exact hescape

/-- A segment has a character, and with what follows it gives the text back. -/
theorem exists_next_text (c : Char) (rest : List Char) :
    ∃ cs, (next c rest).1.text = c :: cs ∧ rest = cs ++ (next c rest).2 := by
  unfold next
  split
  · exact ⟨[], rfl, rfl⟩
  split
  · next hcomment =>
    simp only [Bool.and_eq_true, beq_iff_eq] at hcomment
    obtain ⟨rfl, hhead⟩ := hcomment
    obtain ⟨rest, rfl⟩ := List.head?_eq_some_iff.1 hhead
    exact ⟨_, rfl, by simp⟩
  split
  · next hcomment =>
    simp only [Bool.and_eq_true, beq_iff_eq] at hcomment
    obtain ⟨rfl, hhead⟩ := hcomment
    obtain ⟨rest, rfl⟩ := List.head?_eq_some_iff.1 hhead
    unfold comment
    split
    · next body rest' hbody =>
      rw [List.tail_cons] at hbody
      exact ⟨_, rfl, by simp [(commentBody_closed hbody).1]⟩
    · exact ⟨_, rfl, by simp⟩
  split
  · next hquote =>
    obtain rfl := beq_iff_eq.1 hquote
    unfold quotation
    split
    · next raw rest' hraw => exact ⟨_, rfl, by simp [(stringBody_closed hraw).1]⟩
    · exact ⟨_, rfl, by simp⟩
  split
  · exact ⟨_, rfl, by simp⟩
  split
  · exact ⟨_, rfl, by simp⟩
  unfold operator
  split
  · next pair hpair =>
    obtain ⟨d, hhead, hpair⟩ := Option.bind_eq_some_iff.1 hpair
    obtain ⟨rest, rfl⟩ := List.head?_eq_some_iff.1 hhead
    exact ⟨[d], Symbol.toList_spelling_of_ofPair hpair, rfl⟩
  · split
    · next single hsingle => exact ⟨[], Symbol.toList_spelling_of_ofChar hsingle, rfl⟩
    · exact ⟨[], rfl, rfl⟩

/-- What stops at a character stops there whatever follows. -/
theorem span_append {p : Char → Bool} {a : Char} (ha : p a = false) (xs ys : List Char) :
    (xs ++ a :: ys).takeWhile p = xs.takeWhile p ∧
      (xs ++ a :: ys).dropWhile p = xs.dropWhile p ++ a :: ys := by
  induction xs with
  | nil => simp [ha]
  | cons x xs ih =>
      cases hx : p x with
      | true => simp [hx, ih]
      | false => simp [hx]

/-- A symbol of two characters is not found across a line feed. -/
theorem operator_append (c : Char) (rest more : List Char) :
    operator c (rest ++ '\n' :: more) = ((operator c rest).1, (operator c rest).2 ++ '\n' :: more) := by
  unfold operator
  cases rest with
  | nil =>
      have hpair : Symbol.ofPair? c '\n' = none := by
        unfold Symbol.ofPair?
        split <;> simp_all
      simp only [List.nil_append, List.head?_cons, Option.bind_some, hpair, List.head?_nil, Option.bind_none]
      cases Symbol.ofChar? c <;> rfl
  | cons d rest =>
      simp only [List.cons_append, List.head?_cons, Option.bind_some, List.tail_cons]
      cases Symbol.ofPair? c d with
      | some pair => rfl
      | none => cases Symbol.ofChar? c <;> rfl

/-- No segment but an open one goes on behind a text that ends before a line feed. -/
theorem next_append {c : Char} {rest : List Char} (h : (next c rest).1.isOpen = false) (more : List Char) :
    next c (rest ++ '\n' :: more) = ((next c rest).1, (next c rest).2 ++ '\n' :: more) := by
  have hhead (d : Char) (hd : d ≠ '\n') :
      ((rest ++ '\n' :: more).head? == some d) = (rest.head? == some d) := by
    cases rest with
    | nil => simpa using hd.symm
    | cons e rest => rfl
  unfold next at h ⊢
  rw [hhead '>' (by decide), hhead '*' (by decide)]
  by_cases hspace : isSpace c = true
  · simp only [hspace, if_true]
  simp only [hspace, Bool.false_eq_true, if_false] at h ⊢
  by_cases hline : (c == ':' && rest.head? == some '>') = true
  · obtain ⟨rest, rfl⟩ := List.head?_eq_some_iff.1 (beq_iff_eq.1 (Bool.and_eq_true_iff.1 hline).2)
    have hspan := span_append (p := (· != '\n')) (by decide : ('\n' != '\n') = false) rest more
    simp only [hline, if_true, List.cons_append, List.tail_cons, hspan]
  simp only [hline, Bool.false_eq_true, if_false] at h ⊢
  by_cases hblock : (c == '/' && rest.head? == some '*') = true
  · obtain ⟨rest, rfl⟩ := List.head?_eq_some_iff.1 (beq_iff_eq.1 (Bool.and_eq_true_iff.1 hblock).2)
    simp only [hblock, if_true, List.cons_append, List.tail_cons, comment] at h ⊢
    cases hbody : commentBody? rest with
    | none => simp [hbody, isOpen] at h
    | some found => simp [(commentBody_closed hbody).2]
  simp only [hblock, Bool.false_eq_true, if_false] at h ⊢
  by_cases hquote : (c == '"') = true
  · simp only [hquote, if_true, quotation] at h ⊢
    cases hraw : stringBody? rest with
    | none => simp [hraw, isOpen] at h
    | some found => simp [(stringBody_closed hraw).2]
  simp only [hquote, Bool.false_eq_true, if_false] at h ⊢
  by_cases hdigit : isDigit c = true
  · have hspan := span_append (p := isDigit) (by decide : isDigit '\n' = false) rest more
    simp only [hdigit, if_true, hspan]
  simp only [hdigit, Bool.false_eq_true, if_false] at h ⊢
  by_cases hword : isWordStart c = true
  · have hspan := span_append (p := isWordChar) (by decide : isWordChar '\n' = false) rest more
    simp only [hword, if_true, hspan]
  simp only [hword, Bool.false_eq_true, if_false]
  exact operator_append c rest more

/-! ## All segments -/

theorem length_next_le (c : Char) (rest : List Char) : (next c rest).2.length ≤ rest.length := by
  obtain ⟨cs, -, hrest⟩ := exists_next_text c rest
  rw [congrArg List.length hrest, List.length_append]
  exact Nat.le_add_left _ _

/-- There is a segment for each turn of the split, so its bound does not matter. -/
theorem splitUpTo_eq (fuel fuel' : Nat) (cs : List Char) (h : cs.length ≤ fuel) (h' : cs.length ≤ fuel') :
    splitUpTo fuel cs = splitUpTo fuel' cs := by
  induction fuel generalizing fuel' cs with
  | zero =>
      obtain rfl : cs = [] := List.length_eq_zero_iff.1 (Nat.le_zero.1 h)
      cases fuel' <;> rfl
  | succ fuel ih =>
      cases cs with
      | nil => cases fuel' <;> rfl
      | cons c rest =>
          rw [List.length_cons] at h h'
          obtain ⟨fuel', rfl⟩ : ∃ n, fuel' = n + 1 := ⟨fuel' - 1, by omega⟩
          have hlength := length_next_le c rest
          rw [splitUpTo, splitUpTo, ih fuel' (next c rest).2 (by omega) (by omega)]

theorem split_cons (c : Char) (rest : List Char) :
    split (c :: rest) = (next c rest).1 :: split (next c rest).2 := by
  rw [split, List.length_cons, splitUpTo]
  exact congrArg _ (splitUpTo_eq _ _ _ (length_next_le c rest) (Nat.le_refl _))

/-- The segments of a text give it back. -/
theorem split_text (cs : List Char) : (split cs).flatMap text = cs := by
  induction hn : cs.length using Nat.strongRecOn generalizing cs with
  | ind n ih =>
      cases cs with
      | nil => rfl
      | cons c rest =>
          obtain ⟨front, htext, hrest⟩ := exists_next_text c rest
          have hlength := length_next_le c rest
          rw [List.length_cons] at hn
          rw [split_cons, List.flatMap_cons, ih _ (by omega) _ rfl, htext, List.cons_append, ← hrest]

/-- Unless a comment or a string is open, a text that ends before a line feed has the same segments whatever
follows. -/
theorem split_append {cs : List Char} (h : ∀ s ∈ split cs, s.isOpen = false) (more : List Char) :
    split (cs ++ '\n' :: more) = split cs ++ .blank '\n' :: split more := by
  induction hn : cs.length using Nat.strongRecOn generalizing cs with
  | ind n ih =>
      cases cs with
      | nil => rw [List.nil_append, split_cons]; rfl
      | cons c rest =>
          have hlength := length_next_le c rest
          rw [List.length_cons] at hn
          rw [split_cons] at h
          obtain ⟨hfirst, hothers⟩ := List.forall_mem_cons.1 h
          have hrest := ih _ (by omega) hothers rfl
          rw [List.cons_append, split_cons, next_append hfirst, hrest, split_cons, List.cons_append]

theorem problem_of_isOpen {s : Segment} (line : Int) (h : s.problem? line = none) : s.isOpen = false := by
  cases s <;> first | rfl | cases h

/-! ## The line counter -/

theorem lineAfter_add_count (line : Int) (c : Char) (cs : List Char) :
    lineAfter line c + (cs.count '\n' : Nat) = line + ((c :: cs).count '\n' : Nat) := by
  rw [lineAfter, List.count_cons]
  cases c == '\n' with
  | true =>
      simp only [if_true]
      omega
  | false => simp

/-- In a comment each line feed is counted as it is passed. -/
theorem commentLine_eq (line : Int) (cs : List Char) : commentLine line cs = line + (cs.count '\n' : Nat) := by
  induction cs generalizing line with
  | nil => simp [commentLine]
  | cons c cs ih => rw [commentLine, ih, lineAfter_add_count]

/-- In a string a line feed is counted also behind a backslash, which itself is none. -/
theorem stringLine_eq (line : Int) (cs : List Char) : stringLine line cs = line + (cs.count '\n' : Nat) := by
  induction line, cs using stringLine.induct with
  | case1 line => simp [stringLine]
  | case2 line c cs ih =>
      have hescape : '\\' ≠ '\n' := by decide
      rw [stringLine, ih, lineAfter_add_count, List.count_cons_of_ne hescape]
  | case3 line c cs hescape ih =>
      rw [stringLine, ih, lineAfter_add_count]
      exact hescape

/-- The line counter sees all line feeds of a segment. -/
def Counted (s : Segment) : Prop :=
  ∀ line, s.advance line = line + (s.text.count '\n' : Nat)

theorem counted_of_not_mem {s : Segment} (hline : ∀ line, s.advance line = line) (htext : '\n' ∉ s.text) :
    s.Counted := by
  intro line
  rw [hline, List.count_eq_zero_of_not_mem htext, Int.natCast_zero, Int.add_zero]

theorem counted_symbol (symbol : Symbol) : (Segment.symbol symbol).Counted :=
  counted_of_not_mem (fun _ => rfl) (by cases symbol <;> decide)

theorem counted_comment (rest : List Char) : (comment rest).1.Counted := by
  unfold comment
  split
  · intro line
    simp [advance, commentLine_eq, text]
  · intro line
    simp [advance, commentLine_eq, text]

theorem counted_quotation (rest : List Char) : (quotation rest).1.Counted := by
  unfold quotation
  split
  · intro line
    simp [advance, stringLine_eq, text]
  · intro line
    simp [advance, stringLine_eq, text]

theorem counted_operator {c : Char} (hc : c ≠ '\n') (rest : List Char) : (operator c rest).1.Counted := by
  unfold operator
  split
  · exact counted_symbol _
  · split
    · exact counted_symbol _
    · exact counted_of_not_mem (fun _ => rfl) (by simpa [text] using hc.symm)

/-- What a text starts with is counted in full: the branches of the scanner that do not count read no line feed. -/
theorem counted_next (c : Char) (rest : List Char) : (next c rest).1.Counted := by
  have hrun {p : Char → Bool} (hfeed : p '\n' = false) (hc : p c = true) : '\n' ∉ c :: rest.takeWhile p := by
    rintro (_ | ⟨_, hmem⟩)
    · simp [hfeed] at hc
    · have hfalse := List.all_eq_true.1 List.all_takeWhile _ hmem
      simp [hfeed] at hfalse
  unfold next
  split
  · intro line
    simpa [advance, text] using lineAfter_add_count line c []
  next hspace =>
  split
  · refine counted_of_not_mem (fun _ => rfl) ?_
    simp only [text, List.mem_cons, not_or]
    refine ⟨by decide, by decide, fun hmem => ?_⟩
    simpa using List.all_eq_true.1 List.all_takeWhile _ hmem
  split
  · exact counted_comment rest.tail
  split
  · exact counted_quotation rest
  split
  · next hdigit => exact counted_of_not_mem (fun _ => rfl) (hrun (by decide) hdigit)
  split
  · next hword =>
    have hchar : isWordChar c = true := by rw [isWordChar, hword, Bool.true_or]
    exact counted_of_not_mem (fun _ => rfl) (hrun (by decide) hchar)
  · exact counted_operator (by rintro rfl; exact hspace rfl) rest

theorem counted_of_mem_split {cs : List Char} {s : Segment} (h : s ∈ split cs) : s.Counted := by
  induction hn : cs.length using Nat.strongRecOn generalizing cs with
  | ind n ih =>
      cases cs with
      | nil => cases h
      | cons c rest =>
          have hlength := length_next_le c rest
          rw [List.length_cons] at hn
          rw [split_cons] at h
          rcases List.mem_cons.1 h with rfl | h
          · exact counted_next c rest
          · exact ih _ (by omega) h rfl

end Segment

/-! ## Lines and tokens -/

/-- The line behind segments, the first one of which starts on a line. -/
abbrev lineBehind (line : Int) (segments : List Segment) : Int :=
  segments.foldl Segment.advance line

/-- The line counter counts the line feeds of the text. -/
theorem lineBehind_eq (line : Int) {segments : List Segment} (h : ∀ s ∈ segments, s.Counted) :
    lineBehind line segments = line + ((segments.flatMap Segment.text).count '\n' : Nat) := by
  induction segments generalizing line with
  | nil => simp
  | cons s segments ih =>
      obtain ⟨hs, hrest⟩ := List.forall_mem_cons.1 h
      rw [lineBehind, List.foldl_cons, ← lineBehind, ih _ hrest, hs, List.flatMap_cons, List.count_append]
      omega

/-- Behind the whole text the counter has seen all its line feeds. -/
theorem lineBehind_split (line : Int) (source : List Char) :
    lineBehind line (Segment.split source) = line + (source.count '\n' : Nat) := by
  rw [lineBehind_eq line fun _ => Segment.counted_of_mem_split, Segment.split_text]

theorem placed_append (line : Int) (xs ys : List Segment) :
    placed line (xs ++ ys) = placed line xs ++ placed (lineBehind line xs) ys := by
  induction xs generalizing line with
  | nil => rfl
  | cons s xs ih =>
      rw [List.cons_append, placed, ih]
      rfl

theorem exists_mem_placed (line : Int) {segments : List Segment} {s : Segment} (h : s ∈ segments) :
    ∃ l, (l, s) ∈ placed line segments := by
  induction segments generalizing line with
  | nil => cases h
  | cons first segments ih =>
      rcases List.mem_cons.1 h with rfl | h
      · exact ⟨line, List.mem_cons_self⟩
      · obtain ⟨l, hl⟩ := ih (first.advance line) h
        exact ⟨l, List.mem_cons_of_mem _ hl⟩

namespace Scan

theorem ofSource_eq_ok {line : Int} {source : List Char} {scan : Scan} :
    ofSource line source = .ok scan ↔
      (Segment.split source).findSome? Segment.excess? = none ∧ scan = ofSegments line (Segment.split source) := by
  simp only [ofSource]
  cases (Segment.split source).findSome? Segment.excess? with
  | some digits => simp
  | none => simp [eq_comm]

/-- Where no problem was found, nothing is open. -/
theorem not_isOpen_of_problems {line : Int} {segments : List Segment} (h : (ofSegments line segments).problems = [])
    {s : Segment} (hs : s ∈ segments) : s.isOpen = false := by
  obtain ⟨l, hl⟩ := exists_mem_placed line hs
  exact Segment.problem_of_isOpen l (List.filterMap_eq_nil_iff.1 h (l, s) hl)

theorem tokens_ofSegments_cons (line : Int) (s : Segment) (segments : List Segment) :
    (ofSegments line (s :: segments)).tokens =
      (s.token? line).toList ++ (ofSegments (s.advance line) segments).tokens := by
  simp only [ofSegments, placed, List.filterMap_cons]
  cases s.token? line <;> rfl

theorem ofSegments_append (line : Int) (xs ys : List Segment) :
    ofSegments line (xs ++ ys) =
      { ofSegments (lineBehind line xs) ys with
        tokens := (ofSegments line xs).tokens ++ (ofSegments (lineBehind line xs) ys).tokens
        problems := (ofSegments line xs).problems ++ (ofSegments (lineBehind line xs) ys).problems } := by
  simp only [ofSegments, placed_append, List.filterMap_append, List.foldl_append]

/-- Two texts with a line feed between them have the tokens of both, on the same lines, if the first one has no
problems and the lines of the second one are counted on. -/
theorem ofSource_append {line : Int} {a b : List Char} {first second : Scan} (hfirst : ofSource line a = .ok first)
    (hnone : first.problems = []) (hsecond : ofSource (line + (a.count '\n' : Nat) + 1) b = .ok second) :
    ofSource line (a ++ '\n' :: b) = .ok { second with tokens := first.tokens ++ second.tokens } := by
  obtain ⟨hread₁, rfl⟩ := ofSource_eq_ok.1 hfirst
  obtain ⟨hread₂, rfl⟩ := ofSource_eq_ok.1 hsecond
  have hsplit := Segment.split_append (fun s hs => not_isOpen_of_problems hnone hs) b
  have hbehind (line : Int) : ofSegments line (.blank '\n' :: Segment.split b) =
      ofSegments (line + 1) (Segment.split b) := rfl
  rw [ofSource_eq_ok, hsplit]
  constructor
  · rw [List.findSome?_append, hread₁]
    exact hread₂
  · rw [ofSegments_append, lineBehind_split, hbehind, hnone, List.nil_append]

end Scan
end SafariScript
