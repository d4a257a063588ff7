/-!
# Line breaks

A text read from a file or from the standard input has one kind of line break, and input is consumed
line by line.
-/

namespace SafariScript
namespace Text

/-- Write every carriage return, alone or before a line feed, as one line feed. -/
def unifyNewlines : List Char → List Char
  | [] => []
  | '\r' :: '\n' :: rest => '\n' :: unifyNewlines rest
  | '\r' :: rest => '\n' :: unifyNewlines rest
  | c :: rest => c :: unifyNewlines rest

/-- The pieces between line feeds; the last piece is what follows the last line feed. -/
def splitNewlines : List Char → List (List Char)
  | [] => [[]]
  | '\n' :: rest => [] :: splitNewlines rest
  | c :: rest =>
    match splitNewlines rest with
    | [] => [[c]]
    | piece :: pieces => (c :: piece) :: pieces

/-- The lines that end in a line feed, and what follows the last line feed unless that is nothing. -/
def inputLines (s : String) : List String :=
  let pieces := splitNewlines s.toList
  let kept := if pieces.getLast? == some [] then pieces.dropLast else pieces
  kept.map fun piece => String.ofList (piece.reverse.dropWhile (· == '\r')).reverse

end Text
end SafariScript
