import SafariScript.Event
import SafariScript.Failure
import SafariScript.Parser.Statement
import SafariScript.Token.Scan

/-!
# From source text to program

A source text is scanned and, if that found no problems, parsed. Either phase fails with all the problems
it found.
-/

namespace SafariScript

/-- A result together with the events on the way to it. -/
structure Noted (α : Type) where
  events : List Event
  result : Except Failure α

/-- The events of a scan. -/
def Scan.events (line : Int) (scan : Scan) : List Event :=
  scan.problems.map Event.recorded ++ [.scanned (scan.tokens.length + 1) line scan.endLine]

/-- The program of a source text whose first line has the given number. -/
def parseSource (line : Int) (interactive : Bool) (source : String) : Noted Program :=
  match Scan.ofSource line source.toList with
  | .error long => ⟨[], .error (.longNumber long.digits)⟩
  | .ok scan =>
    if scan.problems.isEmpty then
      match parse? interactive scan.tokens scan.endLine [] with
      | none => ⟨scan.events line, .error .stackExhausted⟩
      | some parsed =>
        let events := scan.events line ++ parsed.problems.map Event.recorded
          ++ [.parsed parsed.program.statements.length]
        if parsed.problems.isEmpty then ⟨events, .ok parsed.program⟩
        else ⟨events, .error (.phase .parse parsed.problems)⟩
    else ⟨scan.events line, .error (.phase .scan scan.problems)⟩

end SafariScript
