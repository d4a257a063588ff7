import SafariScript.Diagnostic
import SafariScript.Token.Segment

/-!
# Scanning

The tokens of a source text with their lines, and the problems found on the way. A problem never stops
the scan; only a run of digits too long to be read does.
-/

namespace SafariScript

namespace Segment

/-- The greatest number that can be written in a program. -/
def greatestNumber : Nat := 2147483647

/-- The kind of token that a segment is, if it is one. -/
def tokenKind? : Segment → Option TokenKind
  | .string raw => some (.text (String.ofList raw))
  | .digits ds =>
    if digitsValue ds ≤ greatestNumber then some (.number (String.ofList ds)) else none
  | .word cs =>
    match Keyword.ofSpelling? (String.ofList cs) with
    | some keyword => some (.keyword keyword)
    | none => some (.ident (String.ofList cs))
  | .symbol s => some (.symbol s)
  | _ => none

/-- What is wrong with a segment, if anything is. -/
def cause? : Segment → Option String
  | .stray c => some ("Unexpected character ('" ++ c.toString ++ "')")
  | .digits ds => if digitsValue ds ≤ greatestNumber then none else some ("Number too large: " ++ String.ofList ds)
  | .openString _ => some "Unterminated string"
  | .openComment _ => some "Unterminated multi-line comment"
  | _ => none

/-- The token of a segment that starts on a line. -/
def token? (line : Int) (s : Segment) : Option Token :=
  s.tokenKind?.map fun kind => ⟨kind, s.notedLine line⟩

/-- The problem with a segment that starts on a line. -/
def problem? (line : Int) (s : Segment) : Option Diagnostic :=
  s.cause?.map fun cause => { category := .lexical, cause, line := s.notedLine line }

/-- The number of digits of a segment that is too long to be read as a number. -/
def excess? : Segment → Option Nat
  | .digits ds => if ds.length ≤ Text.digitLimit then none else some ds.length
  | _ => none

end Segment

/-- Segments with the lines they start on, the first one on the given line. -/
def placed (line : Int) : List Segment → List (Int × Segment)
  | [] => []
  | s :: rest => (line, s) :: placed (s.advance line) rest

/-- What scanning finds: the tokens, the line where the source ends, and the problems. -/
structure Scan where
  tokens : List Token
  endLine : Int
  problems : Diagnostics

/-- A number with too many digits to be read. -/
structure LongNumber where
  digits : Nat
deriving DecidableEq, Inhabited, Repr

namespace Scan

/-- What segments give when the first one starts on the given line. -/
def ofSegments (line : Int) (segments : List Segment) : Scan where
  tokens := (placed line segments).filterMap fun (line, s) => s.token? line
  endLine := segments.foldl Segment.advance line
  problems := (placed line segments).filterMap fun (line, s) => s.problem? line

/-- Scan a source text whose first line has the given number. -/
def ofSource (line : Int) (source : List Char) : Except LongNumber Scan :=
  let segments := Segment.split source
  match segments.findSome? Segment.excess? with
  | some digits => .error ⟨digits⟩
  | none => .ok (ofSegments line segments)

/-- A row of the token listing: name of the kind, spelling, constant and line. -/
structure Row where
  typeName : String
  lexeme : String
  literal : Option Literal
  line : Int

/-- The token listing, closed by a row for the end of the source. -/
def rows (s : Scan) : List Row :=
  s.tokens.map (fun t => ⟨t.kind.typeName, t.lexeme, t.kind.literal?, t.line⟩)
    ++ [⟨"EOF", "", none, s.endLine⟩]

/-- One row as text. -/
def Row.text (r : Row) : String :=
  r.typeName ++ " '" ++ r.lexeme ++ "'" ++
    match r.literal with
    | some literal => " " ++ literal.display
    | none => ""

end Scan
end SafariScript
