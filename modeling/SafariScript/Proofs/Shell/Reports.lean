import SafariScript.Proofs.Eval.Places
import SafariScript.Proofs.Parser.Notes
import SafariScript.Proofs.Queue
import SafariScript.Proofs.Shell.Pieces

/-!
# Where the problems of a piece of source are found

Whatever a session reports of a piece of source is found in the tokens of one scan: by the scanner itself, or by the
parser at a token or at the end. A run fails at a token too, but it may be one of an earlier piece, from which there is
a function (`Session.Piece.Reported`). The scan is that of the piece with the number of its first line, so this is how
the lines in reports depend on the pieces that a session is given. The functions of the world carry the words of the
earlier pieces along: the work on one piece keeps this (`Session.Works.reported`), so it holds behind any pieces
(`Session.Served.world_known`), and there the work on the next one reports what is found in it or in those before
(`Session.Served.reported`).
-/

namespace SafariScript

open Eval

/-- The problems that a failure reports. A failure that is none of the script's own reports none of them. -/
def Failure.problems : Failure → Diagnostics
  | .single problem _ => [problem]
  | .phase _ problems => problems
  | _ => []

/-- The fault of a program that runs out of room outside all calls. -/
def Fault.ofRoom : Fault :=
  ⟨.recursionLimit, none⟩

namespace Session

/-- What is found in a piece of source by scanning it with the number of its first line. -/
def Piece.Scanned (piece : Piece) (scan : Scan) : Prop :=
  Scan.ofSource piece.firstLine piece.source.toList = .ok scan

/-- The word is that of a token of the piece. -/
def Piece.Spells (piece : Piece) (word : Word) : Prop :=
  ∃ scan, piece.Scanned scan ∧ word ∈ scan.tokens.map Token.word

/-- The word is that of a token of one of the pieces. -/
def Spelled (pieces : List Piece) (word : Word) : Prop :=
  ∃ piece ∈ pieces, piece.Spells word

/-- Where a problem that is reported of a piece of source, behind earlier ones, was found. -/
inductive Piece.Reported (earlier : List Piece) (piece : Piece) (d : Diagnostic) : Prop where
  | scanned {scan : Scan} (hscan : piece.Scanned scan) (hd : d ∈ scan.problems)
  /-- The parser found it at a token. -/
  | parsed {scan : Scan} {t : Token} (hscan : piece.Scanned scan) (ht : t ∈ scan.tokens)
      (hlexeme : d.lexeme = some t.lexeme) (hline : d.line = t.line)
  /-- The parser found it at the end of the piece. -/
  | ending {scan : Scan} (hscan : piece.Scanned scan) (hlexeme : d.lexeme = some "") (hline : d.line = scan.endLine)
  /-- A run failed at a token of the piece, or of a function of an earlier one. -/
  | ran {other : Piece} {scan : Scan} {t : Token} (hother : other ∈ earlier ++ [piece]) (hscan : other.Scanned scan)
      (ht : t ∈ scan.tokens) (hlexeme : d.lexeme = some t.lexeme) (hline : d.line = t.line)
  | placeless (h : d = Fault.ofRoom.diagnostic)

variable {s s' : Session} {earlier : List Piece} {piece : Piece} {known : Word → Prop}

/-! ## Adding -/

/-- A piece that is refused has problems that the scanner or the parser found in it. -/
theorem reported_of_refused {failure : Failure}
    (h : (parseSource piece.firstLine s.interactive piece.source).result = .error failure) {d : Diagnostic}
    (hd : d ∈ failure.problems) : piece.Reported earlier d := by
  unfold parseSource at h
  split at h
  · obtain rfl := Except.error.inj h
    cases hd
  · next scan hscan =>
    split at h
    · split at h
      · obtain rfl := Except.error.inj h
        cases hd
      · next parsed hparsed =>
        dsimp only at h
        split at h
        · cases h
        · obtain rfl := Except.error.inj h
          obtain ⟨added, hadded, hplaces⟩ := exists_problems_at hparsed
          rw [List.nil_append] at hadded
          rw [Failure.problems, hadded] at hd
          obtain ⟨-, word, hplace, hline, hlexeme⟩ := hplaces d hd
          rcases hplace with hword | rfl
          · obtain ⟨t, ht, rfl⟩ := List.mem_map.1 hword
            exact .parsed hscan ht hlexeme hline
          · exact .ending hscan hlexeme hline
    · obtain rfl := Except.error.inj h
      exact .scanned hscan hd

/-- All words of the program of a piece are spelled by the piece. -/
theorem spells_of_accepted {program : Program}
    (h : (parseSource piece.firstLine s.interactive piece.source).result = .ok program) :
    ∀ word ∈ program.words, piece.Spells word := by
  obtain ⟨scan, hscan, hscript⟩ := script_of_parseSource h
  exact fun word hword => ⟨scan, hscan, hscript.words word hword⟩

/-! ## Running -/

/-- A program of known words leaves functions of known words behind, and what it fails with is reported at a known
word. -/
theorem reported_of_run {program : Program} (hqueue : s.queue = [program])
    (hprogram : ∀ word ∈ program.words, known word) (hs : s.world.Holds (Closure.Known known)) :
    s.run.1.world.Holds (Closure.Known known) ∧
      ∀ failure, s.run.2 = .error failure → ∀ d ∈ failure.problems, d.StandsAt known ∨ d = Fault.ofRoom.diagnostic := by
  have hobeys := obeys_interpretWithin turnBudget stackRoom s.interactive hprogram
  rw [← interpret] at hobeys
  rw [run, hqueue, runAll]
  split
  · next w' hok => exact ⟨hobeys.ok hs hok, fun failure hfailure => by cases hfailure⟩
  · next e w' herror =>
    obtain ⟨hw', hallowed⟩ := hobeys.error hs herror
    refine ⟨hw', fun failure hfailure d hd => ?_⟩
    obtain rfl := Except.error.inj hfailure
    rcases hallowed with rfl | hlocated
    · exact .inr (List.mem_singleton.1 hd)
    · cases e with
      | fault f =>
          obtain ⟨word, hplace, hword⟩ := hlocated
          obtain ⟨cause, place⟩ := f
          obtain rfl : place = some word := hplace
          rw [List.mem_singleton.1 hd]
          exact .inl ⟨word, hword, rfl, rfl⟩
      | _ => cases hd

/-- What is accepted of a piece is all that is queued then, and its run leaves functions with words of the pieces behind
and fails at such a word. -/
theorem reported_of_accepted {s₁ : Session} {program : Program} (hqueue : s.queue = [])
    (hs : s.world.Holds (Closure.Known (Spelled (earlier ++ [piece]))))
    (hadd : s.add piece.source piece.firstLine = (s₁, .ok program)) :
    s₁.run.1.world.Holds (Closure.Known (Spelled (earlier ++ [piece]))) ∧
      ∀ failure, s₁.run.2 = .error failure → ∀ d ∈ failure.problems, piece.Reported earlier d := by
  have hresult := s.add_snd piece.source piece.firstLine
  rw [hadd] at hresult
  have hwords : ∀ word ∈ program.words, Spelled (earlier ++ [piece]) word := fun word hword =>
    ⟨piece, by simp, spells_of_accepted hresult.symm word hword⟩
  -- nothing but the queue and the log has changed
  obtain ⟨log, hs₁⟩ := (s.adds_spec piece.source piece.firstLine).accepted program (by rw [hadd])
  rw [hadd, hqueue] at hs₁
  change s₁ = _ at hs₁
  have hqueue₁ : s₁.queue = [program] := by rw [hs₁]; rfl
  have hworld₁ : s₁.world.Holds (Closure.Known (Spelled (earlier ++ [piece]))) := by
    rw [hs₁]
    exact hs
  obtain ⟨hworld, hproblems⟩ := reported_of_run hqueue₁ hwords hworld₁
  refine ⟨hworld, fun failure hfailure d hd => ?_⟩
  rcases hproblems failure hfailure d hd with ⟨word, ⟨other, hother, scan, hscan, hword⟩, hline, hlexeme⟩ | hroom
  · obtain ⟨t, ht, rfl⟩ := List.mem_map.1 hword
    exact .ran hother hscan ht hlexeme hline
  · exact .placeless hroom

/-- The work on a piece keeps the functions to the words of pieces, and all that it reports is found in one. -/
theorem Works.reported (hwork : s.Works piece.source piece.firstLine piece.failure s') (hqueue : s.queue = [])
    (hs : s.world.Holds (Closure.Known (Spelled earlier))) :
    s'.world.Holds (Closure.Known (Spelled (earlier ++ [piece]))) ∧
      ∀ failure ∈ piece.failure, ∀ d ∈ failure.problems, piece.Reported earlier d := by
  have hs : s.world.Holds (Closure.Known (Spelled (earlier ++ [piece]))) := by
    intro closure hclosure word hword
    obtain ⟨other, hother, hspells⟩ := hs closure hclosure word hword
    exact ⟨other, List.mem_append_left _ hother, hspells⟩
  generalize piece.failure = ending at hwork ⊢
  cases hwork with
  | @refused s₁ failure hadd =>
      have hresult := s.add_snd piece.source piece.firstLine
      obtain ⟨log, hs₁⟩ := (s.adds_spec piece.source piece.firstLine).refused failure (by rw [hadd])
      rw [hadd] at hs₁ hresult
      change s₁ = _ at hs₁
      refine ⟨?_, fun failure' hfailure' d hd => ?_⟩
      · rw [hs₁]
        exact hs
      · obtain rfl := Option.mem_some.1 hfailure'
        exact reported_of_refused hresult.symm hd
  | failed hadd hrun =>
      obtain ⟨hworld, hproblems⟩ := reported_of_accepted hqueue hs hadd
      rw [hrun] at hworld hproblems
      refine ⟨hworld, fun failure' hfailure' d hd => ?_⟩
      obtain rfl := Option.mem_some.1 hfailure'
      exact hproblems _ rfl d hd
  | finished hadd hrun =>
      obtain ⟨hworld, -⟩ := reported_of_accepted hqueue hs hadd
      rw [hrun] at hworld
      exact ⟨hworld, fun failure hfailure => by cases hfailure⟩

/-- Whatever came of the pieces before, no program is queued behind them, and the functions have words of these pieces
only, if the session started without programs and functions. -/
theorem Served.world_known {pieces : List Piece} (h : s.Served pieces s') (hqueue : s.queue = [])
    (hfunctions : s.world.functions = #[]) :
    s'.queue = [] ∧ s'.world.Holds (Closure.Known (Spelled pieces)) := by
  induction h with
  | refl =>
      refine ⟨hqueue, fun closure hclosure => ?_⟩
      rw [hfunctions] at hclosure
      exact absurd hclosure (Array.not_mem_empty closure)
  | wrote _ text ih => exact ih
  | worked _ hwork ih =>
      obtain ⟨hnone, hknown⟩ := ih
      exact ⟨hwork.queue_eq hnone, (hwork.reported hnone hknown).1⟩

/-- All that is reported of a piece of source is found in it or in one of those before it. -/
theorem Served.reported {pieces earlier later : List Piece} (h : s.Served pieces s') (hqueue : s.queue = [])
    (hfunctions : s.world.functions = #[]) (hsplit : pieces = earlier ++ piece :: later) :
    ∀ failure ∈ piece.failure, ∀ d ∈ failure.problems, piece.Reported earlier d := by
  obtain ⟨s₁, s₂, hbefore, hwork⟩ := h.exists_works hsplit
  obtain ⟨hnone, hknown⟩ := hbefore.world_known hqueue hfunctions
  exact (hwork.reported hnone hknown).2

end Session
end SafariScript
