import SafariScript.World

/-!
# Evaluation steps

A step of evaluation changes the world and gives a result, or is interrupted: by a statement that leaves a
loop or a function, by a fault of the script, or because the machine cannot go on.
-/

namespace SafariScript

/-- What can interrupt a step. -/
inductive Interrupt where
  | breakLoop
  | continueLoop
  | run
  | ret (value : Value)
  | fault (fault : Fault)
  /-- The stack has no room left. -/
  | overflow
  /-- An integer is too long to be written. -/
  | longInteger
  /-- A catch attempt needs a chance and none is known. -/
  | unknownChance
  /-- A loop takes more turns than it may. -/
  | endless
deriving DecidableEq, Inhabited

/-- A step of evaluation. An interrupted step keeps the changes made so far. -/
abbrev Eval := EStateM Interrupt World

namespace Eval

variable {α : Type}

/-- Fail at a word of the script. -/
def raise (place : Word) (cause : Cause) : Eval α :=
  throw (.fault ⟨cause, some place⟩)

/-- Take over a result that may be a fault. -/
def ofFault : Except Fault α → Eval α
  | .ok a => pure a
  | .error f => throw (.fault f)

/-- An integer that is not less than a bound, or a fault: one for those that are less, and one for values of
another kind. -/
def atLeast (least : Int) (place : Word) (less : Cause) (other : Kind → Cause) : Value → Eval Int
  | .int n => if n < least then raise place less else pure n
  | v => raise place (other v.kind)

/-- Write a line. -/
def say (text : String) : Eval Unit :=
  modify (·.writeLine text)

/-- Note an event down. -/
def note (event : Event) : Eval Unit :=
  modify (·.note event)

/-- Draw a random number below a bound. -/
def draw (bound : Nat) : Eval Nat :=
  modifyGet fun w =>
    let (value, chance) := w.chance.draw bound
    (value, { w with chance })

/-- Choose one of the names at random; of none, the empty name. -/
def choose (names : List String) : Eval String :=
  return names.getD (← draw names.length) ""

/-- The next line of the input, if there is one. -/
def readLine? : Eval (Option String) :=
  modifyGet fun w =>
    match w.input with
    | [] => (none, w)
    | line :: rest => (some line, { w with input := rest })

/-- Make an array. -/
def newArray (elements : Array Value) : Eval Value :=
  modifyGet fun w => (.array w.arrays.size, { w with arrays := w.arrays.push elements })

/-- Make a function of the current scope. -/
def newFunction (name : String) (params : List Word) (body : List Stmt) : Eval Value :=
  modifyGet fun w =>
    (.function w.functions.size,
      { w with functions := w.functions.push ⟨name, params, body, w.scope⟩ })

/-- Make a zone. -/
def newZone (zone : Zone) : Eval Value :=
  modifyGet fun w => (.object (.zone w.zones.size), { w with zones := w.zones.push zone })

/-- Make a team. -/
def newTeam (team : Team) : Eval Value :=
  modifyGet fun w => (.object (.team w.teams.size), { w with teams := w.teams.push team })

/-- The decimal text of an integer. -/
def showInt (n : Int) : Eval String :=
  match Text.showInt? n with
  | some text => pure text
  | none => throw .longInteger

/-- The value of a variable. -/
def lookup (name : Word) : Eval Value := do
  let w ← get
  ofFault (w.scopes.get w.scope name)

/-- Declare a variable in the current scope. -/
def declare (name : Word) (value : Value) : Eval Unit := do
  let w ← get
  ofFault (w.scopes.vacant w.scope name)
  modify fun w => { w with scopes := w.scopes.insert w.scope name.text value }

/-- Give a variable another value. -/
def assign (name : Word) (value : Value) : Eval Unit := do
  let w ← get
  let owner ← ofFault (w.scopes.owner w.scope name)
  modify fun w => { w with scopes := w.scopes.replace owner name.text value }

/-- Make a scope inside another one. -/
def enter (parent : Nat) : Eval Nat :=
  modifyGet fun w =>
    let (scope, scopes) := w.scopes.enter parent
    (scope, { w with scopes })

/-- Make a scope inside the current one. -/
def enterHere : Eval Nat := do
  enter (← get).scope

/-- Run a step in a scope; however it ends, the scope before it is current again afterwards. -/
def inScope (scope : Nat) (step : Eval α) : Eval α := fun w =>
  let outer := w.scope
  match step { w with scope } with
  | .ok a w' => .ok a { w' with scope := outer }
  | .error e w' => .error e { w' with scope := outer }

end Eval
end SafariScript
