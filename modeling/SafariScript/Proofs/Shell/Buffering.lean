import SafariScript.Proofs.Shell.Pieces
import SafariScript.Shell

/-!
# The lines that the shell keeps

The shell is a machine that takes one line after the other. What a line asks for is the shell's own decision
(`Shell.request`): it is a command, or it is for the interpreter. A line for the interpreter is kept, or it makes the
session work on one piece of source, which has all the lines kept before it and the line itself (`Shell.Takes`). Two
facts hold after every line, however the work on it ended:

* `Shell.Coherent`: lines are kept exactly while braces are open and the prompt asks for more, the depth is that of
  the braces in the lines kept, the number of the first line kept and how many are kept tell how many the interpreter
  was given, and no program waits in the session;
* nothing is lost or repeated: the lines of all pieces that the session was served, and behind them the lines kept,
  are the lines that the interpreter was given, in order and each with its number.

Both are proved for one line (`Shell.Coherent.feed`, `Shell.Coherent.served_feed`) and follow for all lines by
induction.
-/

namespace SafariScript

/-- The lines of a piece of source. -/
def pieceLines (source : String) : List String :=
  (source.toList.splitOn '\n').map String.ofList

/-- How many more braces some lines open than they close. -/
def braceBalance (lines : List String) : Int :=
  ((lines.flatMap String.toList).count '{' : Int) - ((lines.flatMap String.toList).count '}' : Int)

/-! ## Characters of lines -/

theorem pieceLines_intercalate {lines : List String} (hne : lines ≠ [])
    (hlines : ∀ line ∈ lines, '\n' ∉ line.toList) : pieceLines ("\n".intercalate lines) = lines := by
  have hsplit : (("\n".intercalate lines).toList.splitOn '\n') = lines.map String.toList := by
    rw [String.toList_intercalate]
    apply List.splitOn_intercalate
    · intro cs hcs
      obtain ⟨line, hline, rfl⟩ := List.mem_map.1 hcs
      exact hlines line hline
    · simpa using hne
  rw [pieceLines, hsplit, List.map_map]
  simp [Function.comp_def]

theorem braceDepth_eq (depth : Int) (line : String) :
    braceDepth depth line = depth + braceBalance [line] := by
  have hfold (cs : List Char) : cs.foldl
      (fun depth c => if c == '{' then depth + 1 else if c == '}' then depth - 1 else depth) depth =
        depth + ((cs.count '{' : Int) - (cs.count '}' : Int)) := by
    induction cs generalizing depth with
    | nil => simp
    | cons c cs ih =>
        rw [List.foldl_cons, ih, List.count_cons, List.count_cons]
        by_cases hopen : c = '{'
        · subst hopen
          simp
          omega
        · by_cases hclose : c = '}'
          · subst hclose
            simp
            omega
          · simp [hopen, hclose]
  have hline := hfold line.toList
  simpa [braceDepth, braceBalance] using hline

theorem braceBalance_concat (lines : List String) (line : String) :
    braceBalance (lines ++ [line]) = braceBalance lines + braceBalance [line] := by
  simp only [braceBalance, List.flatMap_append, List.count_append]
  omega

namespace Text

/-- A piece of source is blank exactly if all its lines are. -/
theorem isAllBlank_intercalate (lines : List String) :
    isAllBlank ("\n".intercalate lines) = lines.all isAllBlank := by
  unfold isAllBlank
  rw [String.toList_intercalate]
  induction lines with
  | nil => rfl
  | cons first lines ih =>
      cases lines with
      | nil => simp [List.intercalate]
      | cons second lines =>
          rw [List.map_cons, List.map_cons, List.intercalate_cons_cons, ← List.map_cons]
          have hfeed : "\n".toList.all isBlank = true := by decide
          rw [List.all_append, List.all_append, ih, hfeed, Bool.and_true]
          rfl

/-- A line that opens a brace is not blank. -/
theorem not_isAllBlank_of_mem {line : String} (h : '{' ∈ line.toList) : isAllBlank line = false := by
  rw [isAllBlank, List.all_eq_false]
  exact ⟨'{', h, by decide⟩

/-- A line that is not empty without the blanks at its ends is not blank. -/
theorem not_isAllBlank_strip {line : String} (h : strip line ≠ "") : isAllBlank (strip line) = false := by
  -- stripping stops at a character that is no blank
  have hlast := List.head?_dropWhile_not isBlank (line.toList.dropWhile isBlank).reverse
  cases hrest : (line.toList.dropWhile isBlank).reverse.dropWhile isBlank with
  | nil =>
      rw [strip, trimBoth, hrest] at h
      exact absurd rfl h
  | cons c cs =>
      rw [hrest] at hlast
      rw [isAllBlank, List.all_eq_false]
      refine ⟨c, ?_, by simpa using hlast⟩
      simp [strip, trimBoth, hrest]

theorem mem_of_mem_strip {line : String} {c : Char} (h : c ∈ (strip line).toList) : c ∈ line.toList := by
  simp only [strip, trimBoth, String.toList_ofList, List.mem_reverse] at h
  have hmem := (List.dropWhile_suffix _).subset h
  exact (List.dropWhile_suffix _).subset (List.mem_reverse.1 hmem)

end Text

/-! ## What happens to a line -/

/-- The line that the interpreter is given, if it is given one. -/
def Request.line? : Request → Option String
  | .interpret line => some line
  | _ => none

/-- The lines of a piece of source, each with its number. -/
def Session.Piece.numbered (piece : Session.Piece) : List (String × Nat) :=
  (pieceLines piece.source).zipIdx piece.firstLine

namespace Shell

variable {sh : Shell} {line given : String} {lines : List String}

/-- The shell after some lines, however the work on each of them ended. -/
def feedAll (sh : Shell) (lines : List String) : Shell :=
  lines.foldl (fun sh line => (sh.feed line).1) sh

/-- The lines that the interpreter is given while the shell takes some lines. -/
def givenLines (sh : Shell) : List String → List String
  | [] => []
  | line :: lines => (sh.request line).line?.toList ++ givenLines (sh.feed line).1 lines

/-- The lines that the interpreter is given while the shell takes some lines, each with the count of the shell when the
interpreter has it. -/
def numberedLines (sh : Shell) : List String → List (String × Nat)
  | [] => []
  | line :: lines =>
    (sh.request line).line?.toList.map (·, (sh.feed line).1.lineNumber) ++ numberedLines (sh.feed line).1 lines

/-- The number of the first line of the block that the next line for the interpreter belongs to. -/
def blockStart (sh : Shell) : Nat :=
  if sh.pending.isEmpty then sh.lineNumber + 1 else sh.firstLine

/-- What comes of a line, with the shell afterwards. -/
inductive Takes (sh : Shell) (line : String) : Shell → Prop where
  /-- Outside a block and at the end of input, a blank line or a command changes nothing but what is written. -/
  | obeyed (hrequest : (sh.request line).line? = none) (houtside : sh.pending = [] ∨ line = "EOF")
      (hcommand : Text.strip line = "" ∨ commandName (Text.strip line) ∈ ["help", "exit", "EOF"]) (text : String) :
      Takes sh line (sh.write text)
  /-- While braces are open the line is kept, unless it is blank. -/
  | kept {given : String} (hrequest : sh.request line = .interpret given)
      (hgiven : given = if sh.pending.isEmpty then Text.strip line else line)
      (hopen : 0 < braceBalance (sh.pending ++ [given])) (hblank : Text.isAllBlank given = false) :
      Takes sh line
        { sh with lineNumber := sh.lineNumber + 1, firstLine := sh.blockStart, pending := sh.pending ++ [given],
                  depth := braceBalance (sh.pending ++ [given]), prompt := .continuation }
  /-- Otherwise the session works on one piece of source, the lines kept before and the line itself, and no line is
  kept, whatever comes of the work. -/
  | handed {given : String} {failure : Option Failure} {session : Session}
      (hrequest : sh.request line = .interpret given)
      (hgiven : given = if sh.pending.isEmpty then Text.strip line else line)
      (hclosed : braceBalance (sh.pending ++ [given]) ≤ 0 ∨ Text.isAllBlank given = true)
      (hwork : sh.session.Works ("\n".intercalate (sh.pending ++ [given])) sh.blockStart failure session) :
      Takes sh line
        { sh with lineNumber := sh.lineNumber + 1, firstLine := sh.blockStart, pending := [], depth := 0,
                  prompt := .primary, session }

/-- Lines are kept exactly while braces are open and the prompt asks for more, the depth is that of the braces in
the lines kept, these are the last ones that were counted, and no program waits in the session. The lines kept have no
line feed in them. -/
structure Coherent (sh : Shell) : Prop where
  pending_iff : sh.pending ≠ [] ↔ 0 < sh.depth
  prompt_iff : sh.prompt = .continuation ↔ 0 < sh.depth
  depth_eq : sh.depth = braceBalance sh.pending
  inStep : sh.pending ≠ [] → sh.firstLine + sh.pending.length = sh.lineNumber + 1
  queue_eq : sh.session.queue = []
  undivided : ∀ line ∈ sh.pending, '\n' ∉ line.toList

theorem coherent_start {session : Session} (h : session.queue = []) : (start session).Coherent where
  pending_iff := by simp [start]
  prompt_iff := by simp [start]
  depth_eq := rfl
  inStep := by simp [start]
  queue_eq := h
  undivided := by simp [start]

/-! ## One line -/

theorem feed_of_interpret (h : sh.request line = .interpret given) : sh.feed line = sh.interpretLine given := by
  rw [feed, h]

/-- A line that is not for the interpreter is blank or a command, and comes outside a block or ends the input. -/
theorem obeyed_cases (h : (sh.request line).line? = none) :
    (sh.pending = [] ∨ line = "EOF") ∧
      (Text.strip line = "" ∨ commandName (Text.strip line) ∈ ["help", "exit", "EOF"]) ∧
      ∃ text, (sh.feed line).1 = sh.write text := by
  have hnothing : sh = sh.write "" := by
    simp [write, Session.write, World.write]
  unfold feed
  unfold request at h ⊢
  split at h
  · cases h
  · next hblock =>
    rw [if_neg hblock]
    refine ⟨by simpa [Decidable.or_iff_not_imp_left] using hblock, ?_⟩
    dsimp only at h ⊢
    split at h
    · next hblank =>
      rw [if_pos hblank]
      exact ⟨.inl (beq_iff_eq.1 hblank), "", hnothing⟩
    · next hblank =>
      rw [if_neg hblank]
      split at h
      · next hname => exact ⟨.inr (by simp [hname]), by simpa only [hname] using ⟨_, rfl⟩⟩
      · next hname => exact ⟨.inr (by simp [hname]), by simpa only [hname] using ⟨"", hnothing⟩⟩
      · next hname => exact ⟨.inr (by simp [hname]), by simpa only [hname] using ⟨_, rfl⟩⟩
      · cases h

/-- A line of a block is for the interpreter as it is, any other one without the blanks at its ends, and then it is not
blank. -/
theorem given_cases (h : sh.request line = .interpret given) :
    sh.pending ≠ [] ∧ given = line ∨ sh.pending = [] ∧ given = Text.strip line ∧ given ≠ "" := by
  unfold request at h
  split at h
  · next hblock =>
    obtain ⟨hpending, -⟩ := Bool.and_eq_true_iff.1 hblock
    exact .inl ⟨by simpa using hpending, (Request.interpret.inj h).symm⟩
  · next hblock =>
    dsimp only at h
    split at h
    · cases h
    · next hblank =>
      split at h
      · cases h
      · cases h
      · cases h
      · next hhelp hexit hend =>
        have houtside : sh.pending = [] := Decidable.byContradiction fun hpending => by
          -- the end of input is a command also inside a block
          obtain rfl : line = "EOF" := by simpa [hpending] using hblock
          exact hend (by decide)
        obtain rfl := Request.interpret.inj h
        exact .inr ⟨houtside, rfl, by simpa using hblank⟩

theorem given_eq (h : sh.request line = .interpret given) :
    given = if sh.pending.isEmpty then Text.strip line else line := by
  rcases given_cases h with ⟨hpending, rfl⟩ | ⟨hpending, rfl, -⟩
  · rw [if_neg (by simpa using hpending)]
  · rw [hpending]
    rfl

theorem undivided_of_given (hline : '\n' ∉ line.toList) (h : sh.request line = .interpret given) :
    '\n' ∉ given.toList := by
  rcases given_cases h with ⟨-, rfl⟩ | ⟨-, rfl, -⟩
  · exact hline
  · exact fun hmem => hline (Text.mem_of_mem_strip hmem)

theorem Coherent.undivided_concat (hsh : sh.Coherent) (hline : '\n' ∉ line.toList)
    (h : sh.request line = .interpret given) : ∀ kept ∈ sh.pending ++ [given], '\n' ∉ kept.toList := by
  intro kept hkept
  rcases List.mem_append.1 hkept with hkept | hkept
  · exact hsh.undivided kept hkept
  · rw [List.mem_singleton.1 hkept]
    exact undivided_of_given hline h

/-- What is handed to the session is never blank: a block opens a brace, and a line by itself has been stripped. -/
theorem Coherent.not_blank (hsh : sh.Coherent) (h : sh.request line = .interpret given) :
    Text.isAllBlank ("\n".intercalate (sh.pending ++ [given])) = false := by
  rw [Text.isAllBlank_intercalate, List.all_eq_false]
  rcases given_cases h with ⟨hpending, -⟩ | ⟨-, rfl, hne⟩
  · have hdepth : 0 < braceBalance sh.pending := hsh.depth_eq ▸ hsh.pending_iff.1 hpending
    have hcount : 0 < (sh.pending.flatMap String.toList).count '{' := by
      unfold braceBalance at hdepth
      omega
    obtain ⟨first, hfirst, hbrace⟩ := List.mem_flatMap.1 (List.count_pos_iff.1 hcount)
    refine ⟨first, by simp [hfirst], ?_⟩
    rw [Text.not_isAllBlank_of_mem hbrace]
    exact Bool.false_ne_true
  · refine ⟨Text.strip line, by simp, ?_⟩
    rw [Text.not_isAllBlank_strip hne]
    exact Bool.false_ne_true

/-- What the interpreter does with a line. -/
theorem Coherent.takes_interpret (hsh : sh.Coherent) (h : sh.request line = .interpret given) :
    sh.Takes line (sh.interpretLine given).1 := by
  have hdepth : braceDepth sh.depth given = braceBalance (sh.pending ++ [given]) := by
    rw [braceDepth_eq, braceBalance_concat, hsh.depth_eq]
  unfold interpretLine
  dsimp only
  rw [hdepth]
  split
  · next hkept =>
    simp only [Bool.and_eq_true, decide_eq_true_eq, Bool.not_eq_true'] at hkept
    exact .kept h (given_eq h) hkept.1 hkept.2
  · next hhanded =>
    have hclosed : braceBalance (sh.pending ++ [given]) ≤ 0 ∨ Text.isAllBlank given = true := by
      simpa [Decidable.or_iff_not_imp_left] using hhanded
    obtain ⟨failure, hwork⟩ :=
      sh.session.exists_works ("\n".intercalate (sh.pending ++ [given])) sh.blockStart
    have htakes := Takes.handed h (given_eq h) hclosed hwork
    simp only [flush, hsh.not_blank h, Bool.false_eq_true, if_false]
    -- the session is the same however the work on the piece is followed
    split
    all_goals
      next hchunk =>
        rw [show sh.session.chunk _ (sh.blockStart : Int) = _ from hchunk] at htakes
        exact htakes

/-- What comes of a line is one of three things. -/
theorem Coherent.takes_feed (hsh : sh.Coherent) (line : String) : sh.Takes line (sh.feed line).1 := by
  cases hrequest : sh.request line with
  | interpret given =>
      rw [feed_of_interpret hrequest]
      exact hsh.takes_interpret hrequest
  | help | exit | endOfInput | nothing =>
      have hnone : (sh.request line).line? = none := by rw [hrequest]; rfl
      obtain ⟨houtside, hcommand, text, hfeed⟩ := obeyed_cases hnone
      rw [hfeed]
      exact .obeyed hnone houtside hcommand text

theorem blockStart_of_nil (h : sh.pending = []) : sh.blockStart = sh.lineNumber + 1 := by
  rw [blockStart, h]
  rfl

theorem Coherent.blockStart_eq (hsh : sh.Coherent) : sh.blockStart + sh.pending.length = sh.lineNumber + 1 := by
  by_cases hpending : sh.pending = []
  · rw [blockStart_of_nil hpending, hpending]
    rfl
  · rw [blockStart, if_neg (by simpa using hpending)]
    exact hsh.inStep hpending

/-- The lines kept have the same numbers whether the next line goes to their block or starts a new one. -/
theorem zipIdx_blockStart (sh : Shell) : sh.pending.zipIdx sh.blockStart = sh.pending.zipIdx sh.firstLine := by
  by_cases hpending : sh.pending = []
  · rw [hpending]
    rfl
  · rw [blockStart, if_neg (by simpa using hpending)]

/-- A line keeps the shell coherent. -/
theorem Coherent.feed (hsh : sh.Coherent) (hline : '\n' ∉ line.toList) : (sh.feed line).1.Coherent := by
  have htakes := hsh.takes_feed line
  generalize (sh.feed line).1 = after at htakes ⊢
  cases htakes with
  | obeyed hrequest _ _ text =>
      exact ⟨hsh.pending_iff, hsh.prompt_iff, hsh.depth_eq, hsh.inStep, hsh.queue_eq, hsh.undivided⟩
  | @kept given hrequest _ hopen hblank =>
      have hcount := hsh.blockStart_eq
      refine ⟨by simpa using hopen, by simpa using hopen, rfl, fun _ => ?_, hsh.queue_eq,
        hsh.undivided_concat hline hrequest⟩
      simp only [List.length_append, List.length_singleton]
      omega
  | handed hrequest _ hclosed hwork =>
      exact ⟨by simp, by simp, rfl, by simp, hwork.queue_eq hsh.queue_eq, by simp⟩

/-- The lines of what a line makes the session work on, and those kept then, are the lines kept before and the one
given to the interpreter, each with its number. -/
theorem Coherent.served_feed (hsh : sh.Coherent) (hline : '\n' ∉ line.toList) :
    ∃ pieces, sh.session.Served pieces (sh.feed line).1.session ∧
      pieces.flatMap Session.Piece.numbered ++ (sh.feed line).1.pending.zipIdx (sh.feed line).1.firstLine =
        sh.pending.zipIdx sh.firstLine ++ (sh.request line).line?.toList.map (·, (sh.feed line).1.lineNumber) := by
  have hnumber (given : String) : (sh.pending ++ [given]).zipIdx sh.blockStart =
      sh.pending.zipIdx sh.firstLine ++ [(given, sh.lineNumber + 1)] := by
    rw [List.zipIdx_append, zipIdx_blockStart, hsh.blockStart_eq]
    rfl
  have htakes := hsh.takes_feed line
  generalize (sh.feed line).1 = after at htakes ⊢
  cases htakes with
  | obeyed hrequest _ _ text => exact ⟨[], .wrote .refl text, by simp [hrequest, write]⟩
  | kept hrequest _ hopen hblank => exact ⟨[], .refl, by simpa [hrequest, Request.line?] using hnumber _⟩
  | @handed given failure session hrequest _ hclosed hwork =>
      let piece : Session.Piece := ⟨"\n".intercalate (sh.pending ++ [given]), sh.blockStart, failure⟩
      have hpiece : piece.numbered = (sh.pending ++ [given]).zipIdx sh.blockStart :=
        congrArg (·.zipIdx sh.blockStart) (pieceLines_intercalate (by simp) (hsh.undivided_concat hline hrequest))
      refine ⟨[piece], .worked .refl hwork, ?_⟩
      rw [List.flatMap_singleton, hpiece, hrequest]
      simpa [Request.line?] using hnumber given

/-! ## All lines -/

theorem Coherent.feedAll (hsh : sh.Coherent) (hlines : ∀ line ∈ lines, '\n' ∉ line.toList) :
    (sh.feedAll lines).Coherent := by
  induction lines generalizing sh with
  | nil => exact hsh
  | cons line lines ih =>
      obtain ⟨hline, hlines⟩ := List.forall_mem_cons.1 hlines
      exact ih (hsh.feed hline) hlines

/-- Over some lines the session is served pieces, the lines of which are those kept at first and those given to the
interpreter, except for those that are still kept. -/
theorem Coherent.served_feedAll (hsh : sh.Coherent) (hlines : ∀ line ∈ lines, '\n' ∉ line.toList) :
    ∃ pieces, sh.session.Served pieces (sh.feedAll lines).session ∧
      pieces.flatMap Session.Piece.numbered ++ (sh.feedAll lines).pending.zipIdx (sh.feedAll lines).firstLine =
        sh.pending.zipIdx sh.firstLine ++ sh.numberedLines lines := by
  induction lines generalizing sh with
  | nil => exact ⟨[], .refl, by simp [numberedLines, Shell.feedAll]⟩
  | cons line lines ih =>
      obtain ⟨hline, hlines⟩ := List.forall_mem_cons.1 hlines
      obtain ⟨first, hfirst, hnumbered⟩ := hsh.served_feed hline
      obtain ⟨others, hothers, hrest⟩ := ih (hsh.feed hline) hlines
      refine ⟨first ++ others, hfirst.trans hothers, ?_⟩
      rw [List.flatMap_append, List.append_assoc]
      show first.flatMap Session.Piece.numbered ++ (others.flatMap Session.Piece.numbered ++
        ((sh.feed line).1.feedAll lines).pending.zipIdx ((sh.feed line).1.feedAll lines).firstLine) = _
      rw [hrest, ← List.append_assoc, hnumbered, List.append_assoc]
      rfl

/-- Without their numbers, the lines that were numbered are those that were given. -/
theorem numberedLines_fst (sh : Shell) (lines : List String) :
    (sh.numberedLines lines).map Prod.fst = sh.givenLines lines := by
  induction lines generalizing sh with
  | nil => rfl
  | cons line lines ih =>
      rw [numberedLines, givenLines, List.map_append, ih]
      cases (sh.request line).line? <;> rfl

/-- Whatever lines a fresh shell has taken, and however the work on each of them ended: lines are kept exactly while
braces are open, that is while the prompt asks for more; the depth is that of the braces in the lines kept; no
program waits in the session; and the lines of the pieces of source that the session was served, with the lines kept
behind them, are the lines given to the interpreter. The next line is no line for the interpreter and changes nothing
but what is written, or it is kept, or the session works on it and on all lines kept before it. -/
theorem lines_kept_or_handed {session : Session} (hqueue : session.queue = []) {lines : List String}
    (hlines : ∀ line ∈ lines, '\n' ∉ line.toList) :
    let sh := (start session).feedAll lines
    (sh.pending ≠ [] ↔ 0 < sh.depth) ∧ (sh.prompt.text = "... " ↔ 0 < sh.depth) ∧
    sh.depth = braceBalance sh.pending ∧ sh.session.queue = [] ∧
    (∃ pieces, session.Served pieces sh.session ∧
      pieces.flatMap (fun piece => pieceLines piece.source) ++ sh.pending = (start session).givenLines lines) ∧
    ∀ line, sh.Takes line (sh.feed line).1 := by
  intro sh
  have hstart : (start session).Coherent := coherent_start hqueue
  have hsh : sh.Coherent := hstart.feedAll hlines
  have hprompt : sh.prompt.text = "... " ↔ sh.prompt = .continuation := by
    cases sh.prompt <;> decide
  obtain ⟨pieces, hserved, hnumbered⟩ := hstart.served_feedAll hlines
  refine ⟨hsh.pending_iff, hprompt.trans hsh.prompt_iff, hsh.depth_eq, hsh.queue_eq, ⟨pieces, hserved, ?_⟩,
    hsh.takes_feed⟩
  have htexts := congrArg (List.map Prod.fst) hnumbered
  have hnone : (start session).pending = [] := rfl
  rw [hnone, List.zipIdx_nil, List.nil_append, numberedLines_fst, List.map_append, List.map_flatMap,
    List.zipIdx_map_fst] at htexts
  simpa only [Session.Piece.numbered, List.zipIdx_map_fst] using htexts

/-- A command, a line that fails, and a block in which the name of the command is a line like any other. -/
theorem lines_kept_or_handed_mixed :
    let session : Session :=
      ⟨Session.typedPath, true, { fatal := false, color := false }, .initial (.ofScript []) (.uniform 50) [], []⟩
    let lines := ["help", "  print(1 / 0)", "if (true) \x7b", "help", "\x7b \x7d"]
    let sh := (start session).feedAll lines
    session.queue = [] ∧ (∀ line ∈ lines, '\n' ∉ line.toList) ∧
      (start session).givenLines lines = ["print(1 / 0)", "if (true) \x7b", "help", "\x7b \x7d"] ∧
      sh.pending = ["if (true) \x7b", "help", "\x7b \x7d"] ∧ 0 < sh.depth ∧
      ∃ pieces, session.Served pieces sh.session ∧
        pieces.flatMap (fun piece => pieceLines piece.source) = ["print(1 / 0)"] := by
  intro session lines sh
  have hlines : ∀ line ∈ lines, '\n' ∉ line.toList := by decide
  obtain ⟨hopen, -, -, -, ⟨pieces, hserved, hgiven⟩, -⟩ := @lines_kept_or_handed session rfl lines hlines
  have hpending : sh.pending = ["if (true) \x7b", "help", "\x7b \x7d"] := by decide +kernel
  have hall : (start session).givenLines lines = ["print(1 / 0)", "if (true) \x7b", "help", "\x7b \x7d"] := by
    decide +kernel
  refine ⟨rfl, hlines, hall, hpending, hopen.1 (by rw [hpending]; exact List.cons_ne_nil _ _), pieces, hserved, ?_⟩
  rw [hpending, hall] at hgiven
  exact List.append_cancel_right (show _ = ["print(1 / 0)"] ++ _ from hgiven)

end Shell
end SafariScript
