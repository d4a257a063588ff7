import SafariScript.Eval.Interpreter
import SafariScript.Reporter
import SafariScript.Source
import SafariScript.Text.NameOrder

/-!
# Sessions

A session keeps one world for all the pieces of source that are added to it. Adding a piece only queues its
program; running takes the programs from the queue in order, up to the first one that fails.
-/

namespace SafariScript

/-- A session. In interactive use, semicolons may be left out at line ends and values are echoed. -/
structure Session where
  path : String
  interactive : Bool
  reporter : Reporter
  world : World
  queue : List Program

namespace Session

/-- The name that stands for the input typed into the interpreter. -/
def typedPath : String := "<in>"

/-- Write to the output of the session. -/
def write (s : Session) (text : String) : Session :=
  { s with world := s.world.write text }

/-- Note events down. -/
def noteAll (s : Session) (events : List Event) : Session :=
  { s with world := events.foldl World.note s.world }

/-- Add a piece of source. If it has problems, nothing is queued. -/
def add (s : Session) (source : String) (line : Int) : Session × Except Failure Program :=
  let parsed := parseSource line s.interactive source
  let s := s.noteAll parsed.events
  match parsed.result with
  | .ok program =>
    ({ s.noteAll [.queued s.path program.statements.length line] with queue := s.queue ++ [program] },
      .ok program)
  | .error failure => (s, .error failure)

/-- Run programs one after the other, up to the first failure; the ones behind it stay in the queue. -/
def runAll (s : Session) : List Program → Session × Except Failure Unit
  | [] => ({ s with queue := [] }, .ok ())
  | program :: rest =>
    match Eval.interpret s.interactive program s.world with
    | .ok _ world => runAll { s with world } rest
    | .error e world => ({ s with world, queue := rest }, .error (.ofInterrupt e))

/-- Run all that is queued. -/
def run (s : Session) : Session × Except Failure Unit :=
  s.runAll s.queue

/-- Report a failure on the output of the session. -/
def handle (s : Session) (failure : Failure) : Session × Aftermath :=
  let (text, reporter, aftermath) := s.reporter.handle failure
  ({ s.write text with reporter }, aftermath)

/-- Add a piece of source and run it, reporting a failure. -/
def chunk (s : Session) (source : String) (line : Int) : Session × Aftermath :=
  match s.add source line with
  | (s, .error failure) => s.handle failure
  | (s, .ok _) =>
    match s.run with
    | (s, .ok _) => (s, .resumed)
    | (s, .error failure) => s.handle failure

/-- The name, type and text of every global variable, by name. The first one that has no text fails. -/
def globals (s : Session) : Except Failure (List (String × Kind × String)) :=
  (Text.sortByName (s.world.scopes.bindings Scopes.global)).mapM fun (name, value) =>
    match Eval.text stackRoom s.world value with
    | .ok text => .ok (name, value.kind, text)
    | .error e => .error (.ofInterrupt e)

end Session

/-- How the depth of open braces changes over a line. -/
def braceDepth (depth : Int) (line : String) : Int :=
  line.toList.foldl
    (fun depth c => if c == '{' then depth + 1 else if c == '}' then depth - 1 else depth) depth

end SafariScript
