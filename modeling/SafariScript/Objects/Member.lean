import SafariScript.Eval.Basic

/-!
# Properties and methods

Reading and writing the properties of an object and calling its methods. The word is the one at which a
fault is reported. A call that faults changes nothing, except that an attempt to catch a Pokemon that is
not there costs a ball.
-/

namespace SafariScript
namespace Objects

open Eval

/-- Read a property. -/
def getProperty (object : Object) (name : String) (place : Word) : Eval Value := do
  let w ← get
  match object with
  | .zone id =>
    match name with
    | "initialBalls" => return .int (w.zone id).initialBalls
    | "initialTurns" => return .int (w.zone id).initialTurns
    | "balls" => return .int (w.zone id).balls
    | "turns" => return .int (w.zone id).turns
    | "pokemonCount" => return .int (w.zone id).pokemon.length
    | "pokemon" => return .object (.collection (.zone id))
    | _ => raise place (.unknownProperty .zone name)
  | .team id =>
    match name with
    | "trainerName" => return .text (w.team id).trainerName
    | "maxSize" => return .int (w.team id).maxSize
    | "pokemonCount" => return .int (w.team id).pokemon.length
    | "pokemon" => return .object (.collection (.team id))
    | _ => raise place (.unknownProperty .team name)
  | .collection _ => raise place .collectionProperty

/-- An integer that a property can be set to. -/
def quantity (name : String) (place : Word) : Value → Eval Int :=
  atLeast 0 place (.negativeProperty name) fun _ => .propertyNotInt name

/-- Write a property; only the balls and turns of a zone can be written. -/
def setProperty (object : Object) (name : String) (value : Value) (place : Word) : Eval Unit :=
  match object with
  | .zone id =>
    match name with
    | "balls" => do
      let n ← quantity "balls" place value
      modify (·.modifyZone id fun z => { z with balls := n })
    | "turns" => do
      let n ← quantity "turns" place value
      modify (·.modifyZone id fun z => { z with turns := n })
    | "initialBalls" | "initialTurns" | "pokemonCount" | "pokemon" => raise place (.fixedProperty name)
    | _ => raise place (.unknownProperty .zone name)
  | .team _ => raise place .teamProperty
  | .collection _ => raise place .setCollectionProperty

/-- A method was called with the wrong number of arguments. -/
def wrongArity {α : Type} (method expected : String) (args : List Value) (place : Word) : Eval α :=
  raise place (.methodArity method expected args.length)

/-- A method without arguments. -/
def noArgs (method : String) (args : List Value) (place : Word) : Eval Unit :=
  match args with
  | [] => pure ()
  | _ => wrongArity method "0" args place

/-- The argument of a method with one. -/
def oneArg (method : String) (args : List Value) (place : Word) : Eval Value :=
  match args with
  | [a] => pure a
  | _ => wrongArity method "1" args place

/-- A string argument. -/
def stringArg (method : String) (place : Word) : Value → Eval String
  | .text s => pure s
  | _ => raise place (.stringArgument method)

/-- A percentage. -/
def percentArg (method : String) (place : Word) : Value → Eval Int
  | .int n =>
    if 0 ≤ n ∧ n ≤ 100 then pure n
    else do raise place (.rateOutOfRange (← showInt n))
  | v => raise place (.rateNotInt method v.kind)

/-- An array of strings. -/
def namesArg (method : String) (place : Word) : Value → Eval (List String)
  | .array id => do
    let elements := ((← get).array id).toList
    elements.mapM (stringArg method place)
  | v => raise place (.arrayArgument method v.kind)

/-- Spend a ball of a zone. -/
def spendBall (id : Nat) (place : Word) : Eval Unit := do
  match ((← get).zone id).spendBall? with
  | some zone => modify (·.modifyZone id fun _ => zone)
  | none => raise place .noBalls

/-- Spend a turn of a zone. -/
def spendTurn (id : Nat) (place : Word) : Eval Unit := do
  match ((← get).zone id).spendTurn? with
  | some zone => modify (·.modifyZone id fun _ => zone)
  | none => raise place .noTurns

/-- Call a method of a zone. -/
def callZone (id : Nat) (name : String) (args : List Value) (place : Word) : Eval Value := do
  match name with
  | "useBall" =>
    noArgs name args place
    spendBall id place
    return .null
  | "useTurn" =>
    noArgs name args place
    spendTurn id place
    return .null
  | "reset" =>
    noArgs name args place
    modify (·.modifyZone id Zone.reset)
    return .null
  | "isGameOver" =>
    noArgs name args place
    return .bool ((← get).zone id).isGameOver
  | _ => raise place (.unknownMethod .zone name)

/-- Call a method of a team. -/
def callTeam (id : Nat) (name : String) (args : List Value) (place : Word) : Eval Value := do
  match name with
  | "isFull" =>
    noArgs name args place
    return .bool ((← get).team id).isFull
  | "isEmpty" =>
    noArgs name args place
    return .bool ((← get).team id).pokemon.isEmpty
  | "has" =>
    let wanted ← stringArg name place (← oneArg name args place)
    return .bool (((← get).team id).pokemon.any (sameName · wanted))
  | _ => raise place (.unknownMethod .team name)

/-- Fail unless an owner has room for so many more Pokemon. -/
def makeRoom (owner : Owner) (count : Nat) (place : Word) : Eval Unit := do
  let w ← get
  match w.capacity? owner with
  | some capacity =>
    if capacity < (w.pokemon owner).length + count then raise place (.teamFull capacity)
  | none => pure ()

/-- Remove names one after the other, each where it first occurs; gives how many were there, and the names
left. -/
def removeEach : List String → List String → Nat × List String
  | [], names => (0, names)
  | wanted :: rest, names =>
    if names.contains wanted then
      let (removed, left) := removeEach rest (names.erase wanted)
      (removed + 1, left)
    else removeEach rest names

/-- The chance and the paying zone that the second argument of a catch attempt gives. -/
def catchTerms (place : Word) : List Value → Eval (Option Int × Option Nat)
  | [] => pure (none, none)
  | .object (.zone id) :: _ => pure (none, some id)
  | .int n :: _ => do return (some (← percentArg "attemptCatch" place (.int n)), none)
  | v :: _ => raise place (.catchArgument v.kind)

/-- The zone that pays for a catch attempt: the one given, or else the owner if it is a zone. -/
def payer? (owner : Owner) (given : Option Nat) : Option Nat :=
  match given, owner with
  | some id, _ => some id
  | none, .zone id => some id
  | none, .team _ => none

/-- A chance, which must be known. -/
def known : Option Int → Eval Int
  | some chance => pure chance
  | none => throw .unknownChance

/-- Pay for a catch attempt with a ball, if a zone pays for it. -/
def pay (payer : Option Nat) (place : Word) : Eval Unit :=
  match payer with
  | some id => spendBall id place
  | none => pure ()

/-- A Pokemon is caught, or it escapes. -/
def endCatch (owner : Owner) (name : String) (caught : Bool) : Eval Unit := do
  if caught then
    modify (·.modifyPokemon owner (·.erase name))
    say ("Caught a " ++ name ++ "!")
  else
    say (name ++ " escaped!")

/-- Throw a ball at a Pokemon that must be there: a number below 100 is drawn, and the Pokemon is caught if it
is below the chance. -/
def throwAt (owner : Owner) (name : String) (given : Option Int) (place : Word) : Eval Value := do
  let w ← get
  if !(w.pokemon owner).contains name then raise place (.notPresent name owner.kind)
  let drawn ← draw 100
  let chance ← known (given.or (w.rates.chanceFor? name))
  let caught : Bool := (drawn : Int) < chance
  note (.attempted name chance caught)
  endCatch owner name caught
  return .bool caught

/-- Try to catch a Pokemon: the paying zone spends a ball, which is then thrown. -/
def attemptCatch (owner : Owner) (args : List Value) (place : Word) : Eval Value := do
  match args with
  | first :: rest =>
    if 1 < rest.length then wrongArity "attemptCatch" "1 to 2" args place
    let name ← stringArg "attemptCatch" place first
    let (given, zone) ← catchTerms place rest
    pay (payer? owner zone) place
    throwAt owner name given place
  | [] => wrongArity "attemptCatch" "1 to 2" args place

/-- Set the rate of a species. -/
def setSpeciesRate (args : List Value) (place : Word) : Eval Value := do
  match args with
  | [first, second] =>
    let name ← stringArg "setSpeciesCatchRate" place first
    let rate ← percentArg "setSpeciesCatchRate" place second
    modify fun w => { w with rates := w.rates.setSpecies name rate }
    return .null
  | _ => wrongArity "setSpeciesCatchRate" "2" args place

/-- Call a method of a collection. -/
def callCollection (owner : Owner) (name : String) (args : List Value) (place : Word) : Eval Value := do
  match name with
  | "add" =>
    let added ← stringArg name place (← oneArg name args place)
    makeRoom owner 1 place
    modify (·.modifyPokemon owner (· ++ [added]))
    return .null
  | "remove" =>
    let wanted ← stringArg name place (← oneArg name args place)
    let present := ((← get).pokemon owner).contains wanted
    if present then modify (·.modifyPokemon owner (·.erase wanted))
    return .bool present
  | "list" =>
    noArgs name args place
    return .text (", ".intercalate ((← get).pokemon owner))
  | "find" =>
    let wanted ← stringArg name place (← oneArg name args place)
    match ((← get).pokemon owner).find? (sameName · wanted) with
    | some found => return .text found
    | none => return .null
  | "random" =>
    noArgs name args place
    let names := (← get).pokemon owner
    if names.isEmpty then raise place (.noPokemon owner.kind)
    return .text (← choose names)
  | "count" =>
    noArgs name args place
    return .int ((← get).pokemon owner).length
  | "clear" =>
    noArgs name args place
    modify (·.modifyPokemon owner fun _ => [])
    return .null
  | "isEmpty" =>
    noArgs name args place
    return .bool ((← get).pokemon owner).isEmpty
  | "addAll" =>
    let names ← namesArg name place (← oneArg name args place)
    makeRoom owner names.length place
    modify (·.modifyPokemon owner (· ++ names))
    return .null
  | "removeAll" =>
    let names ← namesArg name place (← oneArg name args place)
    let (removed, left) := removeEach names ((← get).pokemon owner)
    modify (·.modifyPokemon owner fun _ => left)
    return .int removed
  | "attemptCatch" => attemptCatch owner args place
  | "setCatchRate" =>
    let rate ← percentArg name place (← oneArg name args place)
    modify fun w => { w with rates := w.rates.setOverall rate }
    return .null
  | "setSpeciesCatchRate" => setSpeciesRate args place
  | _ => raise place (.unknownMethod .collection name)

/-- Call a method of an object. -/
def callMethod (object : Object) (name : String) (args : List Value) (place : Word) : Eval Value :=
  match object with
  | .zone id => callZone id name args place
  | .team id => callTeam id name args place
  | .collection owner => callCollection owner name args place

end Objects
end SafariScript
