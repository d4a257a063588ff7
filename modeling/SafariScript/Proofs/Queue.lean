import SafariScript.Proofs.Chunking
import SafariScript.Session

/-!
# The queue of a session

A session is asked to add pieces of source and to run what is queued, in any order. A piece with problems is refused
and leaves nothing behind but notes in the log. A run takes the programs from the queue one by one, and the one that
fails is the last that it takes. Over any number of calls, whatever comes out of them, the programs that were added
are those that were started and, behind them, those still queued: none is lost, repeated or overtaken
(`session_disciplined`). One call keeps this (`Session.exists_perform`), and the rest is induction over the calls.
-/

namespace SafariScript

namespace Session

/-! ## Calls -/

/-- What can be asked of a session. -/
inductive Call where
  | add (source : String) (line : Int)
  | run

/-- Run programs one after the other, up to the first failure, and keep a list of those that are started. -/
def runListed (s : Session) : List Program → List Program × Session × Except Failure Unit
  | [] => ([], { s with queue := [] }, .ok ())
  | program :: rest =>
    match Eval.interpret s.interactive program s.world with
    | .ok _ world =>
      let listed := runListed { s with world } rest
      (program :: listed.1, listed.2)
    | .error e world => ([program], { s with world, queue := rest }, .error (.ofInterrupt e))

/-- The session after a call, whatever comes out of it. -/
def perform (s : Session) : Call → Session
  | .add source line => (s.add source line).1
  | .run => s.run.1

/-- The program that a call adds, if it does. -/
def adds (s : Session) : Call → List Program
  | .add source line => (s.add source line).2.toOption.toList
  | .run => []

/-- The programs that a call starts, in order. -/
def starts (s : Session) : Call → List Program
  | .add .. => []
  | .run => (s.runListed s.queue).1

/-- The session after some calls. -/
def after (s : Session) (calls : List Call) : Session :=
  calls.foldl perform s

/-- The programs that some calls add, in order. -/
def added (s : Session) : List Call → List Program
  | [] => []
  | call :: calls => s.adds call ++ added (s.perform call) calls

/-- The programs that some calls start, in order. -/
def started (s : Session) : List Call → List Program
  | [] => []
  | call :: calls => s.starts call ++ started (s.perform call) calls

/-! ## Adding -/

/-- A piece of source in which neither the scanner nor the parser finds a problem, and its program. -/
def Accepted (interactive : Bool) (source : String) (line : Int) (program : Program) : Prop :=
  ∃ scan, Scan.ofSource line source.toList = .ok scan ∧ scan.problems = [] ∧
    parse? interactive scan.tokens scan.endLine [] = some ⟨program, []⟩

variable {s : Session} {source : String} {line : Int}

/-- Notes change nothing but the log. -/
theorem noteAll_eq (s : Session) (events : List Event) :
    s.noteAll events = { s with world := { s.world with log := s.world.log ++ events } } := by
  have hworld (w : World) : events.foldl World.note w = { w with log := w.log ++ events } := by
    induction events generalizing w with
    | nil => simp
    | cons event events ih =>
        rw [List.foldl_cons, ih]
        simp [World.note]
  rw [noteAll, hworld]

theorem parseSource_of_scan_problems (interactive : Bool) {scan : Scan}
    (hscan : Scan.ofSource line source.toList = .ok scan) (hproblems : scan.problems ≠ []) :
    parseSource line interactive source = ⟨scan.events line, .error (.phase .scan scan.problems)⟩ := by
  have hempty : scan.problems.isEmpty = false := by simpa using hproblems
  simp only [parseSource, hscan, hempty, Bool.false_eq_true, if_false]

theorem parseSource_of_parse_problems {interactive : Bool} {scan : Scan} {parsed : Parsed}
    (hscan : Scan.ofSource line source.toList = .ok scan) (hnone : scan.problems = [])
    (hparse : parse? interactive scan.tokens scan.endLine [] = some parsed) (hproblems : parsed.problems ≠ []) :
    (parseSource line interactive source).result = .error (.phase .parse parsed.problems) := by
  have hempty : parsed.problems.isEmpty = false := by simpa using hproblems
  simp only [parseSource, hscan, hnone, List.isEmpty_nil, if_true, hparse, hempty, Bool.false_eq_true, if_false]

/-- A piece of source is added or refused by what parsing it gives. -/
theorem add_snd (s : Session) (source : String) (line : Int) :
    (s.add source line).2 = (parseSource line s.interactive source).result := by
  unfold add
  dsimp only
  split
  · next hok => exact hok.symm
  · next herror => exact herror.symm

/-- What is accepted is queued behind the others. -/
theorem add_of_ok {program : Program} (h : (parseSource line s.interactive source).result = .ok program) :
    ∃ log, s.add source line =
      ({ s with queue := s.queue ++ [program], world := { s.world with log } }, .ok program) := by
  unfold add
  simp only [h, noteAll_eq]
  exact ⟨_, rfl⟩

/-- What is refused leaves notes. -/
theorem add_of_error {failure : Failure} (h : (parseSource line s.interactive source).result = .error failure) :
    s.add source line = (s.noteAll (parseSource line s.interactive source).events, .error failure) := by
  unfold add
  simp only [h]

/-- How a piece of source is added or refused. -/
structure Adds (s : Session) (source : String) (line : Int) : Prop where
  /-- Exactly what has no problems is accepted. -/
  accepts : ∀ program, (s.add source line).2 = .ok program ↔ Accepted s.interactive source line program
  /-- What is accepted is queued behind the others, and is not run. -/
  accepted : ∀ program, (s.add source line).2 = .ok program →
    ∃ log, (s.add source line).1 = { s with queue := s.queue ++ [program], world := { s.world with log } }
  /-- What is refused changes nothing but the log. -/
  refused : ∀ failure, (s.add source line).2 = .error failure →
    ∃ log, (s.add source line).1 = { s with world := { s.world with log } }
  /-- What is not scanned without problems is refused, and it is not parsed: only the scan is noted down. -/
  unscanned : ∀ scan, Scan.ofSource line source.toList = .ok scan → scan.problems ≠ [] →
    s.add source line = (s.noteAll (scan.events line), .error (.phase .scan scan.problems)) ∧
      ∀ count, .parsed count ∉ scan.events line
  /-- What is not parsed without problems is refused. -/
  unparsed : ∀ scan parsed, Scan.ofSource line source.toList = .ok scan → scan.problems = [] →
    parse? s.interactive scan.tokens scan.endLine [] = some parsed → parsed.problems ≠ [] →
    (s.add source line).2 = .error (.phase .parse parsed.problems)

theorem adds_spec (s : Session) (source : String) (line : Int) : s.Adds source line := by
  have hresult := s.add_snd source line
  constructor
  case accepts =>
    intro program
    rw [hresult]
    exact parseSource_eq_ok
  case accepted =>
    intro program hok
    rw [hresult] at hok
    obtain ⟨log, hadd⟩ := add_of_ok hok
    exact ⟨log, by rw [hadd]⟩
  case refused =>
    intro failure herror
    rw [hresult] at herror
    rw [add_of_error herror, noteAll_eq]
    exact ⟨_, rfl⟩
  case unscanned =>
    intro scan hscan hproblems
    have hparse := parseSource_of_scan_problems s.interactive hscan hproblems
    refine ⟨?_, by simp [Scan.events]⟩
    rw [add_of_error (congrArg Noted.result hparse), hparse]
  case unparsed =>
    intro scan parsed hscan hnone hparse hproblems
    rw [hresult, parseSource_of_parse_problems hscan hnone hparse hproblems]

/-! ## Running -/

theorem runListed_snd (s : Session) (programs : List Program) : (s.runListed programs).2 = s.runAll programs := by
  induction programs generalizing s with
  | nil => rfl
  | cons program rest ih =>
      cases hfirst : Eval.interpret s.interactive program s.world with
      | ok _ world =>
          simp only [runListed, runAll, hfirst]
          exact ih { s with world }
      | error e world => simp only [runListed, runAll, hfirst]

/-- Running comes to the end of the programs, or it stops at the first one that fails. -/
theorem runListed_cases (s : Session) (programs : List Program) :
    (∃ world, programs.forM (Eval.interpret s.interactive) s.world = .ok () world ∧
      s.runListed programs = (programs, { s with world, queue := [] }, .ok ())) ∨
    ∃ ran program rest before after e, programs = ran ++ program :: rest ∧
      ran.forM (Eval.interpret s.interactive) s.world = .ok () before ∧
      Eval.interpret s.interactive program before = .error e after ∧
      s.runListed programs = (ran ++ [program], { s with world := after, queue := rest }, .error (.ofInterrupt e)) := by
  induction programs generalizing s with
  | nil => exact Or.inl ⟨s.world, rfl, rfl⟩
  | cons program rest ih =>
      cases hfirst : Eval.interpret s.interactive program s.world with
      | error e world =>
          refine Or.inr ⟨[], program, rest, s.world, world, e, rfl, rfl, hfirst, ?_⟩
          simp only [runListed, hfirst, List.nil_append]
      | ok _ world =>
          have hforM (others : List Program) : (program :: others).forM (Eval.interpret s.interactive) s.world =
              others.forM (Eval.interpret s.interactive) world := by
            rw [List.forM_eq_forM, List.forM_cons, bind_of_ok hfirst]
          rcases ih { s with world } with ⟨world', hran, hlisted⟩ |
            ⟨ran, failed, rest', before, after, e, rfl, hran, hfailed, hlisted⟩
          · refine Or.inl ⟨world', (hforM rest).trans hran, ?_⟩
            simp only [runListed, hfirst, hlisted]
          · refine Or.inr ⟨program :: ran, failed, rest', before, after, e, rfl, (hforM ran).trans hran, hfailed, ?_⟩
            simp only [runListed, hfirst, hlisted, List.cons_append]

/-- How the programs that are queued are run. -/
structure Runs (s : Session) : Prop where
  /-- Keeping a list of the programs that are started makes no difference. -/
  listed : (s.runListed s.queue).2 = s.run
  /-- Where none fails, all are started, one after the other, and the queue is empty. -/
  completed : s.run.2 = .ok () → s.starts .run = s.queue ∧
    ∃ world, s.queue.forM (Eval.interpret s.interactive) s.world = .ok () world ∧
      s.run.1 = { s with world, queue := [] }
  /-- The one that fails is off the queue like those in front of it, those behind it stay, and the world is left as it
  was when the program failed. -/
  failed : ∀ failure, s.run.2 = .error failure → ∃ ran program rest before after e,
    s.queue = ran ++ program :: rest ∧ s.starts .run = ran ++ [program] ∧
    ran.forM (Eval.interpret s.interactive) s.world = .ok () before ∧
    Eval.interpret s.interactive program before = .error e after ∧ failure = .ofInterrupt e ∧
    s.run.1 = { s with world := after, queue := rest }

theorem runs_spec (s : Session) : s.Runs := by
  have hlisted : (s.runListed s.queue).2 = s.run := s.runListed_snd s.queue
  rcases s.runListed_cases s.queue with ⟨world, hran, hcases⟩ |
    ⟨ran, program, rest, before, after, e, hqueue, hran, hfailed, hcases⟩
  · have hrun : s.run = ({ s with world, queue := [] }, .ok ()) := by rw [← hlisted, hcases]
    refine ⟨hlisted, fun _ => ⟨by rw [starts, hcases], world, hran, by rw [hrun]⟩, fun failure herror => ?_⟩
    rw [hrun] at herror
    cases herror
  · have hrun : s.run = ({ s with world := after, queue := rest }, .error (.ofInterrupt e)) := by
      rw [← hlisted, hcases]
    refine ⟨hlisted, fun hok => ?_, fun failure herror => ⟨ran, program, rest, before, after, e, hqueue,
      by rw [starts, hcases], hran, hfailed, ?_, by rw [hrun]⟩⟩
    · rw [hrun] at hok
      cases hok
    · rw [hrun] at herror
      exact (Except.error.inj herror).symm

/-! ## Any number of calls -/

/-- A call takes programs from the front of the queue and puts them at its end, and changes nothing else but the
world. -/
theorem exists_perform (s : Session) (call : Call) :
    ∃ world queue, s.perform call = { s with world, queue } ∧ s.queue ++ s.adds call = s.starts call ++ queue := by
  cases call with
  | add source line =>
      rw [adds, starts, perform]
      cases hresult : (s.add source line).2 with
      | ok program =>
          obtain ⟨log, hadd⟩ := (s.adds_spec source line).accepted program hresult
          exact ⟨_, _, hadd, rfl⟩
      | error failure =>
          obtain ⟨log, hadd⟩ := (s.adds_spec source line).refused failure hresult
          exact ⟨_, s.queue, hadd, List.append_nil _⟩
  | run =>
      rw [adds, perform, List.append_nil]
      cases hresult : s.run.2 with
      | ok _ =>
          obtain ⟨hstarts, world, -, hrun⟩ := s.runs_spec.completed hresult
          exact ⟨world, [], hrun, by rw [hstarts, List.append_nil]⟩
      | error failure =>
          obtain ⟨ran, program, rest, _, world, _, hqueue, hstarts, -, -, -, hrun⟩ := s.runs_spec.failed failure hresult
          exact ⟨world, rest, hrun, by rw [hstarts, hqueue, List.append_cons]⟩

/-- Over some calls, the programs queued and added are those started and, behind them, those still queued. -/
theorem queue_after (s : Session) (calls : List Call) :
    s.queue ++ s.added calls = s.started calls ++ (s.after calls).queue := by
  induction calls generalizing s with
  | nil => exact List.append_nil _
  | cons call calls ih =>
      obtain ⟨world, queue, hperform, hqueue⟩ := s.exists_perform call
      have hrest := ih (s.perform call)
      calc s.queue ++ (s.adds call ++ (s.perform call).added calls)
          = s.starts call ++ ((s.perform call).queue ++ (s.perform call).added calls) := by
            rw [← List.append_assoc, hqueue, List.append_assoc, hperform]
        _ = s.starts call ++ (s.perform call).started calls ++ ((s.perform call).after calls).queue := by
            rw [hrest, List.append_assoc]

/-- What is added was a piece of source without problems. -/
theorem accepted_of_mem_added {calls : List Call} {program : Program} (h : program ∈ s.added calls) :
    ∃ source line, .add source line ∈ calls ∧ Accepted s.interactive source line program := by
  induction calls generalizing s with
  | nil => cases h
  | cons call calls ih =>
      rcases List.mem_append.1 h with hfirst | hrest
      · cases call with
        | add source line =>
            rw [adds] at hfirst
            cases hresult : (s.add source line).2 with
            | ok first =>
                rw [hresult] at hfirst
                obtain rfl : program = first := List.mem_singleton.1 hfirst
                exact ⟨source, line, List.mem_cons_self, ((s.adds_spec source line).accepts program).1 hresult⟩
            | error failure =>
                rw [hresult] at hfirst
                cases hfirst
        | run => cases hfirst
      · obtain ⟨source, line, hmem, haccepted⟩ := ih hrest
        obtain ⟨world, queue, hperform, -⟩ := s.exists_perform call
        rw [hperform] at haccepted
        exact ⟨source, line, List.mem_cons_of_mem _ hmem, haccepted⟩

/-- What holds of a session after some calls, whatever came out of them. -/
structure Disciplined (start : Session) (calls : List Call) : Prop where
  /-- The programs that were queued at first and those that were added since, in order, are those that were started
  and, behind them, those in the queue. -/
  order : start.queue ++ start.added calls = start.started calls ++ (start.after calls).queue
  /-- A program that was started was queued at first, or it is that of a piece of source without problems. -/
  evaluated : ∀ program ∈ start.started calls, program ∈ start.queue ∨
    ∃ source line, .add source line ∈ calls ∧ Accepted start.interactive source line program
  add : ∀ source line, (start.after calls).Adds source line
  run : (start.after calls).Runs

end Session

/-- Every session keeps the discipline of its queue. -/
theorem session_disciplined (start : Session) (calls : List Session.Call) : start.Disciplined calls where
  order := start.queue_after calls
  evaluated := fun program hstarted => by
    have hmem : program ∈ start.queue ++ start.added calls := by
      rw [start.queue_after calls]
      exact List.mem_append_left _ hstarted
    exact (List.mem_append.1 hmem).imp_right Session.accepted_of_mem_added
  add := (start.after calls).adds_spec
  run := (start.after calls).runs_spec

/-- The first of two programs prints and then fails, and a third piece of source is refused. -/
example :
    let start : Session :=
      ⟨Session.typedPath, false, { fatal := false, color := false }, .initial (.ofScript []) (.uniform 50) [], []⟩
    let calls : List Session.Call := [.add "print(1); print(1 / 0);" 1, .add "print(2);" 2, .add "@" 3, .run]
    (start.added calls).length = 2 ∧ (start.started calls).length = 1 ∧ (start.after calls).queue.length = 1 ∧
      (start.after calls).world.output = "1\n" := by
  decide +kernel

end SafariScript
