/-!
# Blank characters

The characters that count as white space at the two ends of a text, and stripping them.
-/

namespace SafariScript
namespace Text

/-- A code point lies in one of the closed ranges. -/
def covered (ranges : List (Nat × Nat)) (c : Char) : Bool :=
  ranges.any fun range => range.1 ≤ c.toNat && c.toNat ≤ range.2

/-- The separators of lines, paragraphs and words, with the information separators `U+001C` to `U+001F`. -/
def blankRanges : List (Nat × Nat) :=
  [ (0x9, 0xd), (0x1c, 0x20), (0x85, 0x85), (0xa0, 0xa0), (0x1680, 0x1680),
    (0x2000, 0x200a), (0x2028, 0x2029), (0x202f, 0x202f), (0x205f, 0x205f), (0x3000, 0x3000) ]

/-- A character that stripping removes. -/
def isBlank (c : Char) : Bool :=
  covered blankRanges c

/-- Remove the characters of a class from both ends of a list. -/
def trimBoth (drop : Char → Bool) (cs : List Char) : List Char :=
  ((cs.dropWhile drop).reverse.dropWhile drop).reverse

/-- Remove the blanks at both ends of a text. -/
def strip (s : String) : String :=
  String.ofList (trimBoth isBlank s.toList)

/-- A text with nothing but blanks in it. -/
def isAllBlank (s : String) : Bool :=
  s.toList.all isBlank

end Text
end SafariScript
