import SafariScript.Text.Integer
import SafariScript.Text.Lowercase

/-!
# Teams

A trainer's team has room for a limited number of Pokemon.
-/

namespace SafariScript

/-- A team. -/
structure Team where
  trainerName : String
  maxSize : Int
  pokemon : List String
deriving DecidableEq, Inhabited

namespace Team

/-- A fresh team without Pokemon. -/
def create (trainerName : String) (maxSize : Int) : Team :=
  ⟨trainerName, maxSize, []⟩

/-- No room is left. -/
def isFull (t : Team) : Bool :=
  t.maxSize ≤ t.pokemon.length

/-- A team as text, unless its size is too long to be written. -/
def text? (t : Team) : Option String := do
  let maxSize ← Text.showInt? t.maxSize
  return "Team(" ++ t.trainerName ++ ", " ++ toString t.pokemon.length ++ "/" ++ maxSize ++ " Pokemon)"

end Team

/-- Two names that differ in case only. -/
def sameName (left right : String) : Bool :=
  Text.lower left == Text.lower right

end SafariScript
