import SafariScript.Eval.Basic
import SafariScript.Objects.Arguments

/-!
# Constructing objects
-/

namespace SafariScript
namespace Objects

open Eval

/-- The argument bound to a parameter. -/
def bound (given : List (String × Value)) (param : String) : Value :=
  (given.lookup param).getD .null

/-- An integer that is not negative. -/
def natural (place : Word) (param : String) : Value → Eval Int :=
  atLeast 0 place (.negativeParameter param) (.parameterKind param .int)

/-- A zone with so many balls and turns, ten of each unless given. -/
def createZone (place : Word) (positional : List Value) (named : List (Word × Value)) : Eval Value := do
  let given ← ofFault (Arguments.resolve place ["balls", "turns"] positional named
    [("balls", .int 10), ("turns", .int 10)])
  let balls ← natural place "balls" (bound given "balls")
  let turns ← natural place "turns" (bound given "turns")
  newZone (.create balls turns)

/-- A trainer's name. -/
def trainer (place : Word) : Value → Eval String
  | .text s => pure s
  | v => raise place (.parameterKind "trainerName" .string v.kind)

/-- The size of a team. -/
def teamSize (place : Word) : Value → Eval Int :=
  atLeast 1 place .smallTeam (.parameterKind "maxSize" .int)

/-- A team of a trainer with room for so many Pokemon, six unless given. -/
def createTeam (place : Word) (positional : List Value) (named : List (Word × Value)) : Eval Value := do
  let given ← ofFault (Arguments.resolve place ["trainerName", "maxSize"] positional named
    [("maxSize", .int 6)])
  let name ← trainer place (bound given "trainerName")
  let size ← teamSize place (bound given "maxSize")
  newTeam (.create name size)

/-- Construct an object. -/
def construct (maker : Maker) (line : Int) (positional : List Value) (named : List (Word × Value)) :
    Eval Value :=
  let place : Word := ⟨maker.spelling, line⟩
  match maker with
  | .safariZone => createZone place positional named
  | .team => createTeam place positional named

end Objects
end SafariScript
