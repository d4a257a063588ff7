import SafariScript.Diagnostic

/-!
# Events

What the interpreter notes down about its own work for whoever wants to watch it.
-/

namespace SafariScript

/-- A note of the interpreter. -/
inductive Event where
  | scanned (tokens : Nat) (firstLine lastLine : Int)
  | recorded (problem : Diagnostic)
  | parsed (statements : Nat)
  | queued (path : String) (statements : Nat) (line : Int)
  | encountered (line : Int) (name : String) (turnsLeft : Int)
  | attempted (name : String) (chance : Int) (caught : Bool)
  | ranAtTop
deriving DecidableEq, Inhabited

/-- The line of the log for an event. -/
def Event.text : Event → String
  | .scanned tokens firstLine lastLine =>
    "pukimo.lang.lexical: scanned " ++ toString tokens ++ " token(s) over lines " ++ toString firstLine
      ++ "-" ++ toString lastLine
  | .recorded problem =>
    "pukimo.lang.error: recorded " ++ problem.category.label.toLower ++ " error on line "
      ++ toString problem.line ++ ": " ++ problem.cause
  | .parsed statements =>
    "pukimo.lang.parser: parsed " ++ toString statements ++ " top-level statement(s)"
  | .queued path statements line =>
    "pukimo.lang.session: " ++ path ++ ": queued " ++ toString statements ++ " statement(s) from line "
      ++ toString line
  | .encountered line name turnsLeft =>
    "pukimo.runtime.evaluator: explore turn on line " ++ toString line ++ ": encountered " ++ name ++ ", "
      ++ toString turnsLeft ++ " turn(s) left"
  | .attempted name chance caught =>
    "pukimo.runtime.objects: catch attempt on " ++ name ++ " with " ++ toString chance ++ "% chance: "
      ++ (if caught then "caught" else "escaped")
  | .ranAtTop => "pukimo.runtime.evaluator: 'run' reached top level, rest of program skipped"

end SafariScript
