import SafariScript.Word

/-!
# Diagnostics

A problem with a script: its category, its cause, where it was found, and notes on how to mend it. The
scanner and the parser go on after a problem, so they collect a list of them; a note may be attached to a
record afterwards, found by its place.
-/

namespace SafariScript

/-- What kind of problem a diagnostic is about. -/
inductive Category where
  | lexical
  | parse
  | runtime
  | type
  | name
  | argument
  | property
deriving DecidableEq, Inhabited, Repr

/-- The name of a category in a report. -/
def Category.label : Category → String
  | .lexical => "Lexical"
  | .parse => "Parse"
  | .runtime => "Runtime"
  | .type => "Type"
  | .name => "Name"
  | .argument => "Argument"
  | .property => "Property"

/-- A problem. The lexeme, if any, is the spelling of the token it was found at. -/
structure Diagnostic where
  category : Category
  cause : String
  lexeme : Option String := none
  line : Int := 0
  hints : List String := []
deriving DecidableEq, Inhabited

namespace Diagnostic

/-- The message of a problem. Only a parse problem names the token it was found at. -/
def message (d : Diagnostic) : String :=
  match d.category, d.lexeme with
  | .parse, some lexeme =>
    if lexeme = "" then d.cause ++ " at end" else d.cause ++ " at '" ++ lexeme ++ "'"
  | _, _ => d.cause

/-- The line of a problem as a report begins with it; line zero is not shown. -/
def header (d : Diagnostic) : String :=
  if d.line = 0 then "" else "[line " ++ toString d.line ++ "] "

/-- The plain text of a problem, each note on a line of its own. -/
def text (d : Diagnostic) : String :=
  "\n".intercalate
    ((d.header ++ d.category.label ++ " error: " ++ d.message) :: d.hints.map ("  Note: " ++ ·))

/-- A problem was found at a place: same line and same spelling. -/
def isAt (d : Diagnostic) (place : Word) : Bool :=
  d.line == place.line && d.lexeme == some place.text

/-- Add a note behind those a problem has. -/
def addHint (d : Diagnostic) (hint : String) : Diagnostic :=
  { d with hints := d.hints ++ [hint] }

end Diagnostic

/-- The problems of a phase, oldest first. -/
abbrev Diagnostics := List Diagnostic

namespace Diagnostics

/-- Record one more problem. -/
def record (ds : Diagnostics) (d : Diagnostic) : Diagnostics :=
  ds ++ [d]

/-- Add a note to the first problem at a place. -/
def hintFirst (place : Word) (hint : String) : Diagnostics → Diagnostics
  | [] => []
  | d :: ds => if d.isAt place then d.addHint hint :: ds else d :: hintFirst place hint ds

/-- Add a note to the latest problem at a place, or to none if there is no such problem. -/
def attachHint (ds : Diagnostics) (place : Word) (hint : String) : Diagnostics :=
  (hintFirst place hint ds.reverse).reverse

end Diagnostics
end SafariScript
