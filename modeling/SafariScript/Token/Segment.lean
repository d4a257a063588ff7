import SafariScript.Token

/-!
# Segments

A source text splits from left to right into segments: blanks, comments, tokens, and characters or
openings that belong to no token. The segments of a text, written one after the other, give it back.
-/

namespace SafariScript

/-- A piece of a source text. -/
inductive Segment where
  /-- A space, a carriage return, a tab or a line feed. -/
  | blank (char : Char)
  /-- `:>` and the rest of the line. -/
  | lineComment (body : List Char)
  /-- A comment from its opening to the first closing behind it. -/
  | blockComment (body : List Char)
  /-- A comment that is never closed. -/
  | openComment (body : List Char)
  /-- A string with its quotation marks. -/
  | string (raw : List Char)
  /-- A string that is never closed. -/
  | openString (raw : List Char)
  | digits (digits : List Char)
  /-- An identifier or a keyword. -/
  | word (chars : List Char)
  | symbol (symbol : Symbol)
  /-- A character that nothing starts with. -/
  | stray (char : Char)
deriving DecidableEq, Inhabited, Repr

namespace Segment

/-- The characters of a segment. -/
def text : Segment → List Char
  | .blank c => [c]
  | .lineComment body => ':' :: '>' :: body
  | .blockComment body => '/' :: '*' :: (body ++ ['*', '/'])
  | .openComment body => '/' :: '*' :: body
  | .string raw => '"' :: (raw ++ ['"'])
  | .openString raw => '"' :: raw
  | .digits ds => ds
  | .word cs => cs
  | .symbol s => s.spelling.toList
  | .stray c => [c]

/-! ### The line counter -/

/-- The line behind a character. -/
def lineAfter (line : Int) (c : Char) : Int :=
  if c == '\n' then line + 1 else line

/-- The line behind the body of a comment. -/
def commentLine (line : Int) : List Char → Int
  | [] => line
  | c :: rest => commentLine (lineAfter line c) rest

/-- The line behind the body of a string. A backslash takes the character behind it along, and that one may be a
line feed as well. -/
def stringLine (line : Int) : List Char → Int
  | [] => line
  | '\\' :: c :: rest => stringLine (lineAfter line c) rest
  | c :: rest => stringLine (lineAfter line c) rest

/-- The line behind a segment. Only blanks, comments of the closed kind and strings can have line feeds, so nothing
else moves the counter. -/
def advance (line : Int) : Segment → Int
  | .blank c => lineAfter line c
  | .blockComment body => commentLine line body
  | .openComment body => commentLine line body
  | .string raw => stringLine line raw
  | .openString raw => stringLine line raw
  | .lineComment _ => line
  | .digits _ => line
  | .word _ => line
  | .symbol _ => line
  | .stray _ => line

/-- The line that is noted for a segment: a string remembers where it starts, everything else gets the line that the
counter has come to. -/
def notedLine (line : Int) : Segment → Int
  | .string _ => line
  | .openString _ => line
  | s => s.advance line

/-! ### Splitting -/

/-- A blank of the source. -/
def isSpace (c : Char) : Bool :=
  c == ' ' || c == '\r' || c == '\t' || c == '\n'

/-- A digit of a number. -/
def isDigit (c : Char) : Bool :=
  '0' ≤ c && c ≤ '9'

/-- A character that starts an identifier. -/
def isWordStart (c : Char) : Bool :=
  ('a' ≤ c && c ≤ 'z') || ('A' ≤ c && c ≤ 'Z') || c == '_'

/-- A character that goes on an identifier. -/
def isWordChar (c : Char) : Bool :=
  isWordStart c || isDigit c

/-- The body of a comment up to the first closing, and what follows it. -/
def commentBody? : List Char → Option (List Char × List Char)
  | [] => none
  | '*' :: '/' :: rest => some ([], rest)
  | c :: rest => (commentBody? rest).map fun (body, rest) => (c :: body, rest)

/-- The body of a string up to the first quotation mark that no backslash stands before, and what follows
it. -/
def stringBody? : List Char → Option (List Char × List Char)
  | [] => none
  | '"' :: rest => some ([], rest)
  | '\\' :: c :: rest => (stringBody? rest).map fun (body, rest) => ('\\' :: c :: body, rest)
  | c :: rest => (stringBody? rest).map fun (body, rest) => (c :: body, rest)

/-- The comment behind its opening, and what follows it. -/
def comment (rest : List Char) : Segment × List Char :=
  match commentBody? rest with
  | some (body, rest) => (.blockComment body, rest)
  | none => (.openComment rest, [])

/-- The string behind its opening quotation mark, and what follows it. -/
def quotation (rest : List Char) : Segment × List Char :=
  match stringBody? rest with
  | some (raw, rest) => (.string raw, rest)
  | none => (.openString rest, [])

/-- The symbol that starts with a character, the longer one first, and what follows it. -/
def operator (c : Char) (rest : List Char) : Segment × List Char :=
  match rest.head?.bind (Symbol.ofPair? c) with
  | some pair => (.symbol pair, rest.tail)
  | none =>
    match Symbol.ofChar? c with
    | some single => (.symbol single, rest)
    | none => (.stray c, rest)

/-- The segment that a text starts with, and what follows it. -/
def next (c : Char) (rest : List Char) : Segment × List Char :=
  if isSpace c then (.blank c, rest)
  else if c == ':' && rest.head? == some '>' then
    (.lineComment (rest.tail.takeWhile (· != '\n')), rest.tail.dropWhile (· != '\n'))
  else if c == '/' && rest.head? == some '*' then comment rest.tail
  else if c == '"' then quotation rest
  else if isDigit c then (.digits (c :: rest.takeWhile isDigit), rest.dropWhile isDigit)
  else if isWordStart c then (.word (c :: rest.takeWhile isWordChar), rest.dropWhile isWordChar)
  else operator c rest

/-- Split a text with a bound on the number of segments. -/
def splitUpTo : Nat → List Char → List Segment
  | 0, _ => []
  | _ + 1, [] => []
  | fuel + 1, c :: rest => (next c rest).1 :: splitUpTo fuel (next c rest).2

/-- The segments of a text. Each has a character, so there are no more of them than characters. -/
def split (source : List Char) : List Segment :=
  splitUpTo source.length source

end Segment
end SafariScript
