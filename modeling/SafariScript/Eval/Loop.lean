import SafariScript.Eval.Basic

/-!
# Loops

Loops over an arbitrary body. A pass of the body may leave the loop by `break` or `run` and may end early by
`continue`; every other interruption leaves the loop as it is.
-/

namespace SafariScript
namespace Eval

/-- How the passes of a loop end. -/
inductive Outcome where
  /-- There is nothing left to go through, or `break`. -/
  | over
  /-- No Pokemon are left to meet. -/
  | deserted
  /-- `run`. -/
  | left
deriving DecidableEq, Inhabited, Repr

/-- Run the body of a loop once: `none` if there may be another pass. -/
def once (body : Eval Unit) : Eval (Option Outcome) := fun w =>
  match body w with
  | .ok _ w' => .ok none w'
  | .error .continueLoop w' => .ok none w'
  | .error .breakLoop w' => .ok (some .over) w'
  | .error .run w' => .ok (some .left) w'
  | .error e w' => .error e w'

/-- Run the body of a loop once. Gives whether the loop goes on. -/
def pass (body : Eval Unit) : Eval Bool :=
  return (← once body).isNone

/-- Repeat a body while a condition holds, so many times at most. -/
def whileLoop (condition : Eval Value) (body : Eval Unit) : Nat → Eval Unit
  | 0 => throw .endless
  | turns + 1 => do
    if (← condition).truthy then
      if ← pass body then whileLoop condition body turns

/-- What a `for` loop goes through. -/
inductive Items where
  /-- So many integers from `next` on. -/
  | range (next : Int) (count : Nat)
  | values (values : List Value)

/-- The items in order. -/
def Items.toList : Items → List Value
  | .range next count => (List.range count).map fun i : Nat => .int (next + i)
  | .values vs => vs

/-- The integers from `start` to `stop`, both included. -/
def Items.between (start stop : Int) : Items :=
  .range start (stop + 1 - start).toNat

/-- Go through so many integers, running a step with each until one says to leave. -/
def forRange (step : Value → Eval Bool) : Int → Nat → Eval Unit
  | _, 0 => pure ()
  | next, count + 1 => do
    if ← step (.int next) then forRange step (next + 1) count

/-- Go through values, running a step with each until one says to leave. -/
def forValues (step : Value → Eval Bool) : List Value → Eval Unit
  | [] => pure ()
  | v :: vs => do
    if ← step v then forValues step vs

/-- Go through items, running a step with each until one says to leave. -/
def forItems (step : Value → Eval Bool) : Items → Eval Unit
  | .range next count => forRange step next count
  | .values vs => forValues step vs

/-- A `for` loop: its variable lives in a scope of its own and takes each item in turn. -/
def forLoop (name : Word) (items : Items) (body : Eval Unit) : Eval Unit := do
  let scope ← enterHere
  inScope scope do
    declare name .null
    forItems (fun item => do assign name item; pass body) items

/-- The variable that holds the Pokemon met last. Its word is made up and has no line. -/
def encounterName : String := "encounter"

/-- Take turns in a zone while there are some, so many at most: each meets one of its Pokemon and runs the
body. -/
def explorePasses (line : Int) (zone : Nat) (body : Eval Unit) : Nat → Eval Outcome
  | 0 => throw .endless
  | budget + 1 => do
    let turns := ((← get).zone zone).turns
    if turns ≤ 0 then return .over
    modify (·.modifyZone zone fun z => { z with turns := z.turns - 1 })
    let names := ((← get).zone zone).pokemon
    if names.isEmpty then return .deserted
    let met ← choose names
    note (.encountered line met (turns - 1))
    assign ⟨encounterName, 0⟩ (.text met)
    match ← once body with
    | some outcome => return outcome
    | none => explorePasses line zone body budget

/-- Explore a zone and tell how it ended. -/
def exploreLoop (line : Int) (zone : Nat) (body : Eval Unit) (budget : Nat) : Eval Unit := do
  let scope ← enterHere
  inScope scope do
    declare ⟨encounterName, 0⟩ .null
    match ← explorePasses line zone body budget with
    | .deserted => say "No Pokemon left to encounter!"
    | .left => pure ()
    | .over =>
      if ((← get).zone zone).turns = 0 then say "Explore: Out of turns!"

end Eval
end SafariScript
