import SafariScript.Text.Digit

/-!
# Integers as text

Writing and reading integers, both limited to `digitLimit` decimal digits.
-/

namespace SafariScript
namespace Text

/-- The greatest number of decimal digits that may be read or written. -/
def digitLimit : Nat := 4300

/-- The least natural number that is too long to be written. It is irreducible so that no proof computes it. -/
@[irreducible] def writeBound : Nat := Nat.pow 10 digitLimit

/-- The decimal text of an integer, unless it has more than `digitLimit` digits. -/
def showInt? (n : Int) : Option String :=
  if n.natAbs < writeBound then some (toString n) else none

/-- The value of a list of decimal digits, most significant first. -/
def ofDigits (ds : List Nat) : Nat :=
  ds.foldl (fun n d => 10 * n + d) 0

/-- Digits of any script with single underscores between them. -/
def digitGroups? : List Char → Option (List Nat)
  | [] => none
  | [c] => (digitValue? c).map ([·])
  | c :: '_' :: rest => do
    let d ← digitValue? c
    let ds ← digitGroups? rest
    return d :: ds
  | c :: rest => do
    let d ← digitValue? c
    let ds ← digitGroups? rest
    return d :: ds

/-- An unsigned number of at most `digitLimit` digits. -/
def readNat? (cs : List Char) : Option Nat := do
  let ds ← digitGroups? cs
  if ds.length ≤ digitLimit then some (ofDigits ds) else none

/-- The blanks allowed around a number: all but the information separators. -/
def isNumberBlank (c : Char) : Bool :=
  isBlank c && !(0x1c ≤ c.toNat && c.toNat ≤ 0x1f)

/-- Read an integer: blanks around it, at most one sign, then digits. -/
def readInt? (s : String) : Option Int :=
  match trimBoth isNumberBlank s.toList with
  | '-' :: cs => (readNat? cs).map fun n => -(n : Int)
  | '+' :: cs => (readNat? cs).map fun n => (n : Int)
  | cs => (readNat? cs).map fun n => (n : Int)

end Text
end SafariScript
