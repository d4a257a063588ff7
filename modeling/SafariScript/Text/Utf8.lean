/-!
# UTF-8

Decoding bytes, with the exact place and reason of the first sequence that is not UTF-8.
-/

namespace SafariScript
namespace Text

/-- Why a byte sequence is not UTF-8. -/
inductive Utf8Reason where
  | badStart
  | badContinuation
  | cutOff

/-- The wording of a reason. -/
def Utf8Reason.text : Utf8Reason → String
  | .badStart => "invalid start byte"
  | .badContinuation => "invalid continuation byte"
  | .cutOff => "unexpected end of data"

/-- A malformed sequence: its first byte, its position, how many bytes belong to it, and the reason. -/
structure Utf8Fault where
  byte : UInt8
  start : Nat
  length : Nat
  reason : Utf8Reason

/-- How many bytes follow a first byte, and between which bounds the second one lies. -/
def followers? (b : UInt8) : Option (Nat × UInt8 × UInt8) :=
  if 0xc2 ≤ b && b ≤ 0xdf then some (1, 0x80, 0xbf)
  else if b == 0xe0 then some (2, 0xa0, 0xbf)
  else if b == 0xed then some (2, 0x80, 0x9f)
  else if 0xe1 ≤ b && b ≤ 0xef then some (2, 0x80, 0xbf)
  else if b == 0xf0 then some (3, 0x90, 0xbf)
  else if 0xf1 ≤ b && b ≤ 0xf3 then some (3, 0x80, 0xbf)
  else if b == 0xf4 then some (3, 0x80, 0x8f)
  else none

/-- Read the bytes that follow a first byte: `seen` bytes are read, `value` is the code point so far. -/
def readFollowers (lo hi : UInt8) (seen value : Nat) :
    Nat → List UInt8 → Except (Nat × Utf8Reason) (Nat × List UInt8)
  | 0, rest => .ok (value, rest)
  | _ + 1, [] => .error (seen, .cutOff)
  | count + 1, b :: rest =>
    if lo ≤ b && b ≤ hi then
      readFollowers 0x80 0xbf (seen + 1) (value * 64 + (b.toNat - 0x80)) count rest
    else .error (seen, .badContinuation)

/-- Decode one character from a first byte and what follows it. -/
def decodeChar (b : UInt8) (rest : List UInt8) : Except (Nat × Utf8Reason) (Char × List UInt8) :=
  if b < 0x80 then .ok (Char.ofNat b.toNat, rest)
  else match followers? b with
    | none => .error (1, .badStart)
    | some (count, lo, hi) => do
      let first := b.toNat % Nat.pow 2 (6 - count)
      let (value, rest) ← readFollowers lo hi 1 first count rest
      return (Char.ofNat value, rest)

/-- Decode bytes from a position on. A step takes at least one byte, so the byte count is fuel enough. -/
def decodeFrom : Nat → Nat → List UInt8 → Except Utf8Fault (List Char)
  | 0, _, _ => .ok []
  | _ + 1, _, [] => .ok []
  | fuel + 1, position, b :: rest =>
    match decodeChar b rest with
    | .error (length, reason) => .error ⟨b, position, length, reason⟩
    | .ok (c, rest') => do
      let cs ← decodeFrom fuel (position + (1 + rest.length - rest'.length)) rest'
      return c :: cs

/-- Decode a whole byte sequence. -/
def decodeUtf8 (bytes : List UInt8) : Except Utf8Fault (List Char) :=
  decodeFrom bytes.length 0 bytes

end Text
end SafariScript
