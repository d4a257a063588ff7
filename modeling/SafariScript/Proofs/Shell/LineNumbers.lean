import SafariScript.Proofs.Shell.Buffering
import SafariScript.Proofs.Shell.Reports
import SafariScript.Proofs.Token.Lines

/-!
# The numbers of typed lines

Three counters work together in the number of a line: the shell counts the lines that it gives to the interpreter, it
remembers the count at the first line of a block, and the scanner counts on from there over the line feeds of the whole
block. Blank lines, commands and failures change some of them and not others. They stay in step because the number of
the first line kept and how many lines are kept tell how many were given (`Shell.Coherent.inStep`). So the lines of a
piece of source that the session is served have the numbers that the shell gave them, whatever is found on a line has
its number (`LineNumbered`), and whatever is reported of the piece was found there or, by a run, in a piece before it
(`Session.Piece.Reported`).
-/

namespace SafariScript

open Segment

/-! ## Lines of characters -/

theorem splitOn_cons (c : Char) (cs : List Char) : (c :: cs).splitOn '\n' =
    if c = '\n' then [] :: cs.splitOn '\n' else (cs.splitOn '\n').modifyHead (c :: ·) := by
  unfold List.splitOn
  rw [List.splitOnP_cons_eq_if_modifyHead]
  simp only [beq_iff_eq]

theorem length_splitOn (cs : List Char) : (cs.splitOn '\n').length = cs.count '\n' + 1 := by
  induction cs with
  | nil => rfl
  | cons c cs ih =>
      rw [splitOn_cons]
      by_cases hc : c = '\n'
      · rw [if_pos hc, hc, List.length_cons, ih, List.count_cons_self]
      · rw [if_neg hc, List.length_modifyHead, ih, List.count_cons_of_ne hc]

/-- The line of a character is the one behind as many lines as there are line feeds in front of it. -/
theorem exists_line_of_char {front rest : List Char} {c : Char} (hc : c ≠ '\n') :
    ∃ earlier start more later, (front ++ c :: rest).splitOn '\n' = earlier ++ (start ++ c :: more) :: later ∧
      front = earlier.flatMap (· ++ ['\n']) ++ start ∧ earlier.length = front.count '\n' := by
  induction front with
  | nil =>
      obtain ⟨first, others, hrest⟩ := List.exists_cons_of_ne_nil (List.splitOn_ne_nil '\n' rest)
      refine ⟨[], [], first, others, ?_, rfl, rfl⟩
      rw [List.nil_append, splitOn_cons, if_neg hc, hrest]
      rfl
  | cons d front ih =>
      obtain ⟨earlier, start, more, later, hsplit, hfront, hlength⟩ := ih
      rw [List.cons_append, splitOn_cons, hsplit, hfront]
      rw [hfront] at hlength
      by_cases hd : d = '\n'
      · refine ⟨[] :: earlier, start, more, later, by rw [if_pos hd]; rfl, by rw [hd]; rfl, ?_⟩
        rw [hd, List.count_cons_self, ← hlength, List.length_cons]
      · rw [if_neg hd, List.count_cons_of_ne hd]
        cases earlier with
        | nil => exact ⟨[], d :: start, more, later, rfl, rfl, hlength⟩
        | cons first earlier => exact ⟨(d :: first) :: earlier, start, more, later, rfl, rfl, hlength⟩

/-! ## Segments on lines -/

/-- Only a blank can start with a line feed. -/
theorem Segment.Stands.exists_first {s : Segment} {rest : List Char} (h : Stands s rest)
    (hblank : ∀ c, s ≠ .blank c) : ∃ c more, s.text = c :: more ∧ c ≠ '\n' := by
  cases h with
  | blank _ => exact absurd rfl (hblank _)
  | lineComment _ _ | blockComment _ | openComment _ | string _ | openString _ => exact ⟨_, _, rfl, by decide⟩
  | @digits ds _ hne hds _ =>
      obtain ⟨c, more, rfl⟩ := List.exists_cons_of_ne_nil hne
      refine ⟨c, more, rfl, ?_⟩
      rintro rfl
      exact absurd (hds '\n' List.mem_cons_self) (by decide)
  | word hc _ _ =>
      refine ⟨_, _, rfl, ?_⟩
      rintro rfl
      exact absurd hc (by decide)
  | @pair symbol _ _ _ _ | @single symbol _ _ _ _ _ => cases symbol <;> exact ⟨_, _, rfl, by decide⟩
  | stray hc _ _ _ =>
      refine ⟨_, _, rfl, ?_⟩
      rintro rfl
      exact absurd hc.space (by decide)

/-- In a source text, a segment behind some others starts on a line of the text: in front of it are the earlier lines,
each with its line feed, and the first characters of this one, which goes on with the first character of the
segment. -/
def StartsOn (source : List Char) (front : List Segment) (s : Segment) (earlier : List String) (text : String) : Prop :=
  ∃ rest start c more, Segmented (front ++ s :: rest) source ∧
    front.flatMap Segment.text = (earlier.flatMap fun l => l.toList ++ ['\n']) ++ start ∧
    s.text.head? = some c ∧ text.toList = start ++ c :: more

/-- A segment that is no blank starts on the line behind as many others as there are line feeds in front of it. -/
theorem exists_startsOn {source : String} {front rest : List Segment} {s : Segment}
    (h : Segmented (front ++ s :: rest) source.toList) (hblank : ∀ c, s ≠ .blank c) :
    ∃ earlier text later, pieceLines source = earlier ++ text :: later ∧ StartsOn source.toList front s earlier text ∧
      earlier.length = (front.flatMap Segment.text).count '\n' := by
  obtain ⟨c, chars, htext, hc⟩ := h.stands.exists_first hblank
  have hsource := h.text_eq
  rw [List.flatMap_append, List.flatMap_cons, htext, List.cons_append] at hsource
  obtain ⟨earlier, start, more, later, hsplit, hfront, hlength⟩ := exists_line_of_char hc
  rw [hsource] at hsplit
  refine ⟨earlier.map String.ofList, String.ofList (start ++ c :: more), later.map String.ofList, ?_, ?_, ?_⟩
  · rw [pieceLines, hsplit, List.map_append, List.map_cons]
  · refine ⟨rest, start, c, more, h, ?_, by rw [htext]; rfl, String.toList_ofList⟩
    simpa only [List.flatMap_map, String.toList_ofList] using hfront
  · rw [List.length_map, hlength]

/-! ## What is found on lines -/

/-- Among the lines of a source text with their numbers, the one on which a segment starts has the number `n`. -/
def StartsAt (block : List (String × Nat)) (source : List Char) (front : List Segment) (s : Segment) (n : Nat) : Prop :=
  ∃ earlier text later, block = earlier ++ (text, n) :: later ∧ StartsOn source front s (earlier.map Prod.fst) text

/-- What is found in a source text has the numbers that some lines have. -/
structure LineNumbered (first : Nat) (source : String) (scan : Scan) (block : List (String × Nat)) : Prop where
  /-- The listing ends on the last line. -/
  ending : (block.getLast?.map fun entry => (entry.2 : Int)) = some scan.endLine
  /-- A token has the number of the line on which its lexeme starts. -/
  token : ∀ before t behind, scan.tokens = before ++ t :: behind → ∃ front s, ∃ n : Nat,
    (Scan.ofSegments first front).tokens = before ∧ s.text = t.lexeme.toList ∧
    StartsAt block source.toList front s n ∧ t.line = (n : Int)
  /-- A problem of the scanner has the number of the line on which the text at fault starts, or that of the last line
  if it is a comment that is never closed. -/
  problem : ∀ before d behind, scan.problems = before ++ d :: behind → ∃ front s, ∃ n : Nat,
    (Scan.ofSegments first front).problems = before ∧ s.Flaw n d ∧ StartsAt block source.toList front s n ∧
    d.line = if s.isOpenComment then scan.endLine else (n : Int)

/-- The numbers of the lines of a source text go on from that of the first one by the line feeds between them. -/
theorem startsAt_zipIdx (first : Nat) {source : String} {front rest : List Segment} {s : Segment}
    (h : Segmented (front ++ s :: rest) source.toList) (hblank : ∀ c, s ≠ .blank c) :
    StartsAt ((pieceLines source).zipIdx first) source.toList front s
      (first + (front.flatMap Segment.text).count '\n') := by
  obtain ⟨earlier, text, later, hsource, hstarts, hlength⟩ := exists_startsOn h hblank
  refine ⟨earlier.zipIdx first, text, later.zipIdx (first + earlier.length + 1), ?_, ?_⟩
  · rw [hsource, List.zipIdx_append, List.zipIdx_cons, hlength]
  · rwa [List.zipIdx_map_fst]

/-- The last line has the number to which the scanner counts. -/
theorem getLast_zipIdx (first : Nat) (source : String) :
    ((pieceLines source).zipIdx first).getLast?.map (fun entry => (entry.2 : Int)) =
      some (lineBehind first (split source.toList)) := by
  have hlength : (pieceLines source).length = source.toList.count '\n' + 1 := by
    rw [pieceLines, List.length_map, length_splitOn]
  rw [lineBehind_split, List.getLast?_eq_getElem?, List.length_zipIdx, hlength, List.getElem?_zipIdx,
    Nat.add_sub_cancel, List.getElem?_eq_getElem (by omega)]
  rfl

/-- Whatever is found in a source text has the number of its line, if these go on from that of the first one. -/
theorem lineNumbered_zipIdx {first : Nat} {source : String} {scan : Scan}
    (h : Scan.ofSource first source.toList = .ok scan) :
    LineNumbered first source scan ((pieceLines source).zipIdx first) := by
  obtain ⟨-, rfl⟩ := Scan.ofSource_eq_ok.1 h
  have hsegmented := split_segmented source.toList
  have hnumbered := numbered_of_segmented first hsegmented
  refine ⟨getLast_zipIdx first source, ?token, ?problem⟩
  case token =>
    intro before t behind ht
    obtain ⟨front, s, rest, hsegments, hbefore, hkind, hsource, hline⟩ := hnumbered.token before t behind ht
    rw [hsegments] at hsegmented
    have hlexeme : s.text = t.lexeme.toList := by
      have htext := hsegmented.text_eq
      rw [List.flatMap_append, List.flatMap_cons, ← List.append_assoc, hsource] at htext
      exact List.append_cancel_left (List.append_cancel_right htext)
    have hstarts := startsAt_zipIdx first hsegmented (by rintro c rfl; cases hkind)
    exact ⟨front, s, _, hbefore, hlexeme, hstarts, hline⟩
  case problem =>
    intro before d behind hd
    obtain ⟨front, s, rest, hsegments, hbefore, hflaw, -, hline⟩ := hnumbered.problem before d behind hd
    have hend : (Scan.ofSegments first (split source.toList)).endLine = first + (source.toList.count '\n' : Nat) :=
      lineBehind_split first source.toList
    rw [hsegments] at hsegmented
    have hstarts := startsAt_zipIdx first hsegmented (by rintro c rfl; cases hflaw)
    refine ⟨front, s, _, hbefore, hflaw, hstarts, ?_⟩
    rw [hline, hend]
    split <;> rfl

/-! ## The count of the shell -/

namespace Shell

variable {sh : Shell} {lines : List String} {line : String}

/-- The count goes up by one for a line that the interpreter is given. -/
theorem Coherent.lineNumber_feed (hsh : sh.Coherent) (line : String) :
    (sh.feed line).1.lineNumber = sh.lineNumber + (sh.request line).line?.toList.length := by
  have htakes := hsh.takes_feed line
  generalize (sh.feed line).1 = after at htakes ⊢
  cases htakes with
  | obeyed hrequest _ _ text =>
      rw [hrequest]
      rfl
  | kept hrequest _ _ _ | handed hrequest _ _ _ =>
      rw [hrequest]
      rfl

/-- The count of the shell is that of the lines that the interpreter was given. -/
theorem Coherent.numberedLines_eq (hsh : sh.Coherent) (hlines : ∀ line ∈ lines, '\n' ∉ line.toList) :
    sh.numberedLines lines = (sh.givenLines lines).zipIdx (sh.lineNumber + 1) := by
  induction lines generalizing sh with
  | nil => rfl
  | cons line lines ih =>
      obtain ⟨hline, hlines⟩ := List.forall_mem_cons.1 hlines
      have hcount := hsh.lineNumber_feed line
      rw [numberedLines, givenLines, ih (hsh.feed hline) hlines, List.zipIdx_append, hcount, Nat.add_right_comm]
      cases (sh.request line).line? <;> rfl

/-- Whatever lines a fresh shell has taken, and whatever came of them: the lines that the interpreter was given are
counted from one, and the lines of the pieces of source that the session was served, with the lines kept behind them,
are these lines with their numbers. Whatever the scanner finds in a piece has the number of the line on which it
starts. What is reported of a piece was found in it by the scanner or by the parser, or by a run at a token of the
piece or of one before it. -/
theorem tokens_numbered {session : Session} (hqueue : session.queue = []) (hfunctions : session.world.functions = #[])
    {lines : List String} (hlines : ∀ line ∈ lines, '\n' ∉ line.toList) :
    let sh := (start session).feedAll lines
    (start session).numberedLines lines = ((start session).givenLines lines).zipIdx 1 ∧
    ∃ pieces, session.Served pieces sh.session ∧
      pieces.flatMap Session.Piece.numbered ++ sh.pending.zipIdx sh.firstLine = (start session).numberedLines lines ∧
      ∀ earlier piece later, pieces = earlier ++ piece :: later →
        (∀ scan, piece.Scanned scan → LineNumbered piece.firstLine piece.source scan piece.numbered) ∧
        ∀ failure ∈ piece.failure, ∀ d ∈ failure.problems, piece.Reported earlier d := by
  intro sh
  have hstart : (start session).Coherent := coherent_start hqueue
  obtain ⟨pieces, hserved, hnumbered⟩ := hstart.served_feedAll hlines
  refine ⟨hstart.numberedLines_eq hlines, pieces, hserved, hnumbered, fun earlier piece later hsplit => ?_⟩
  exact ⟨fun scan hscan => lineNumbered_zipIdx hscan, hserved.reported hqueue hfunctions hsplit⟩

/-- Neither the command nor the blank line counts that come first; the line that fails does, and so does the blank line
that ends an unfinished block. In the block after them the name of the command is the fifth line, and the function that
the block declares is called on the seventh. -/
theorem tokens_numbered_mixed :
    let session : Session :=
      ⟨Session.typedPath, true, { fatal := false, color := false }, .initial (.ofScript []) (.uniform 50) [], []⟩
    let lines := ["help", " ", "print(1 / 0)", "if (true) \x7b", "", "define f() \x7b", "help", "\x7d", "f()"]
    let sh := (start session).feedAll lines
    session.queue = [] ∧ session.world.functions = #[] ∧ (∀ line ∈ lines, '\n' ∉ line.toList) ∧
      ∃ pieces, session.Served pieces sh.session ∧
        pieces.flatMap Session.Piece.numbered =
          [("print(1 / 0)", 1), ("if (true) \x7b", 2), ("", 3), ("define f() \x7b", 4), ("help", 5), ("\x7d", 6),
            ("f()", 7)] ∧
        ∀ earlier piece later, pieces = earlier ++ piece :: later →
          (∀ scan, piece.Scanned scan → LineNumbered piece.firstLine piece.source scan piece.numbered) ∧
          ∀ failure ∈ piece.failure, ∀ d ∈ failure.problems, piece.Reported earlier d := by
  intro session lines sh
  have hlines : ∀ line ∈ lines, '\n' ∉ line.toList := by decide
  obtain ⟨hcounted, pieces, hserved, hnumbered, hfound⟩ := @tokens_numbered session rfl rfl lines hlines
  refine ⟨rfl, rfl, hlines, pieces, hserved, ?_, hfound⟩
  have hpending : sh.pending = [] := by decide +kernel
  have hgiven : (start session).givenLines lines =
      ["print(1 / 0)", "if (true) \x7b", "", "define f() \x7b", "help", "\x7d", "f()"] := by
    decide +kernel
  rw [hpending, List.zipIdx_nil, List.append_nil, hcounted, hgiven] at hnumbered
  exact hnumbered

end Shell
end SafariScript
