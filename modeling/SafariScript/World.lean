import SafariScript.Event
import SafariScript.Objects.CatchRates
import SafariScript.Objects.Team
import SafariScript.Objects.Zone
import SafariScript.Program
import SafariScript.Random.Source
import SafariScript.Scopes

/-!
# The world of a script

All that a running script can read or change: its variables, the arrays, functions and objects it made,
the catch rates, the source of chance, what it can still read and what it has written. Two registers say
which scope is current and how many functions are running.
-/

namespace SafariScript

/-- A function with the scope it was defined in. -/
structure Closure where
  name : String
  params : List Word
  body : List Stmt
  scope : Nat

instance : Inhabited Closure := ⟨⟨"", [], [], 0⟩⟩

/-- The state of the interpreter. -/
structure World where
  scopes : Scopes Value
  scope : Nat
  running : Nat
  arrays : Array (Array Value)
  functions : Array Closure
  zones : Array Zone
  teams : Array Team
  rates : CatchRates
  chance : Random.Source
  input : List String
  output : String
  log : Array Event

namespace World

/-- Before the first statement. -/
def initial (chance : Random.Source) (rates : CatchRates) (input : List String) : World where
  scopes := .initial
  scope := Scopes.global
  running := 0
  arrays := Array.empty
  functions := Array.empty
  zones := Array.empty
  teams := Array.empty
  rates := rates
  chance := chance
  input := input
  output := ""
  log := Array.empty

/-- The elements of an array. -/
def array (w : World) (id : Nat) : Array Value :=
  w.arrays.getD id Array.empty

/-- A function. -/
def function (w : World) (id : Nat) : Closure :=
  w.functions.getD id default

/-- A zone. -/
def zone (w : World) (id : Nat) : Zone :=
  w.zones.getD id default

/-- A team. -/
def team (w : World) (id : Nat) : Team :=
  w.teams.getD id default

/-- Change an array. -/
def modifyArray (w : World) (id : Nat) (change : Array Value → Array Value) : World :=
  { w with arrays := w.arrays.modify id change }

/-- Change a zone. -/
def modifyZone (w : World) (id : Nat) (change : Zone → Zone) : World :=
  { w with zones := w.zones.modify id change }

/-- Change a team. -/
def modifyTeam (w : World) (id : Nat) (change : Team → Team) : World :=
  { w with teams := w.teams.modify id change }

/-- The Pokemon of an owner. -/
def pokemon (w : World) : Owner → List String
  | .zone id => (w.zone id).pokemon
  | .team id => (w.team id).pokemon

/-- Change the Pokemon of an owner. -/
def modifyPokemon (w : World) (owner : Owner) (change : List String → List String) : World :=
  match owner with
  | .zone id => w.modifyZone id fun z => { z with pokemon := change z.pokemon }
  | .team id => w.modifyTeam id fun t => { t with pokemon := change t.pokemon }

/-- How many Pokemon an owner has room for; a zone has no limit. -/
def capacity? (w : World) : Owner → Option Int
  | .zone _ => none
  | .team id => some (w.team id).maxSize

/-- Write a text. -/
def write (w : World) (text : String) : World :=
  { w with output := w.output ++ text }

/-- Write a text and end the line. -/
def writeLine (w : World) (text : String) : World :=
  w.write (text ++ "\n")

/-- Note an event down. -/
def note (w : World) (event : Event) : World :=
  { w with log := w.log.push event }

end World
end SafariScript
