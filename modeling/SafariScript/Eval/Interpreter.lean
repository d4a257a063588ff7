import SafariScript.Eval.Builtin
import SafariScript.Eval.Loop
import SafariScript.Eval.Operator
import SafariScript.Objects.Construct
import SafariScript.Objects.Member
import SafariScript.Stack

/-!
# The interpreter

Expressions and statements are evaluated on a stack with so much room. Every step into a subtree takes some
frames of it, and a step for which there is no room left overflows; this alone makes evaluation end, apart
from loops without a given number of turns, which have a budget of turns.

What is done with a tree depends on its kind. All kinds have a case: the fourteen of statements, the ten of
expressions (an assignment to a variable or to a property is one kind, and so is a call of a function, a method or a
maker), the eight operators on integers and the two makers of objects.
-/

namespace SafariScript
namespace Eval

/-- Fail if there are named arguments, which only constructors take. -/
def positionalOnly (named : List NamedArg) (callee : Callee) : Eval Unit :=
  match named with
  | [] => pure ()
  | first :: _ => raise first.name (.namedArguments callee)

/-- Bind parameters to arguments in the current scope. -/
def bindParams : List Word → List Value → Eval Unit
  | param :: params, arg :: args => do
    declare param arg
    bindParams params args
  | _, _ => pure ()

/-- Run the body of a function in its scope, one function more running meanwhile. -/
def running (scope : Nat) (body : Eval Unit) : Eval Unit := fun w =>
  match inScope scope body { w with running := w.running + 1 } with
  | .ok a w' => .ok a { w' with running := w'.running - 1 }
  | .error e w' => .error e { w' with running := w'.running - 1 }

/-- The result of a call by the way its body ended; overflowing is reported at the call's own word. -/
def callResult (place : Word) (body : Eval Unit) : Eval Value := fun w =>
  match body w with
  | .ok _ w' => .ok .null w'
  | .error (.ret value) w' => .ok value w'
  | .error .run w' => .ok .null w'
  | .error .overflow w' => .error (.fault ⟨.recursionLimit, some place⟩) w'
  | .error e w' => .error e w'

/-- Call a function of the script in a new scope inside the one it was defined in. -/
def callFunction (exec : List Stmt → Eval Unit) (id : Nat) (args : List Value) (place : Word) :
    Eval Value := do
  let closure := (← get).function id
  if args.length != closure.params.length then
    raise place (.callArity closure.params.length args.length)
  let scope ← enter closure.scope
  inScope scope (bindParams closure.params args)
  callResult place (running scope (exec closure.body))

/-- The function that a value is, or a fault. -/
def functionOf (value : Value) (place : Word) (cause : Cause) : Eval Nat :=
  match value with
  | .function id => pure id
  | _ => raise place cause

/-- The object that a value is, or a fault. -/
def objectOf (value : Value) (place : Word) (cause : Cause) : Eval Object :=
  match value with
  | .object object => pure object
  | _ => raise place cause

/-- The zone that a value is, or a fault. -/
def zoneOf (value : Value) (place : Word) (cause : Cause) : Eval Nat :=
  match value with
  | .object (.zone id) => pure id
  | _ => raise place cause

/-- A position in an array or string of a given size. -/
def position (indexed : Indexed) (size : Nat) (index : Value) (place : Word) : Eval Nat := do
  match index with
  | .int i =>
    if 0 ≤ i ∧ i < size then return i.toNat
    else raise place (.indexOutOfBounds indexed (← showInt i) size)
  | _ => raise place (.indexNotInt indexed)

/-- The word of a closing bracket. -/
def bracket (line : Int) : Word :=
  ⟨"]", line⟩

/-- Read an element of an array or a character of a string. -/
def elementAt (container index : Value) (line : Int) : Eval Value := do
  match container with
  | .array id =>
    let elements := (← get).array id
    let i ← position .array elements.size index (bracket line)
    return elements.getD i .null
  | .text s =>
    let i ← position .string s.length index (bracket line)
    return .text (String.ofList (s.toList.drop i |>.take 1))
  | v => raise (bracket line) (.notIndexable v.kind)

/-- Write an element of an array. -/
def setElementAt (container index value : Value) (line : Int) : Eval Unit := do
  match container with
  | .array id =>
    let i ← position .array ((← get).array id).size index (bracket line)
    modify (·.modifyArray id (·.setIfInBounds i value))
  | .text _ => raise (bracket line) .immutableString
  | v => raise (bracket line) (.notIndexable v.kind)

/-- What a `for` loop goes through; an array is taken as it is now. -/
def itemsOf (line : Int) (start : Value) (stop : Option Value) : Eval Items := do
  let place : Word := ⟨"for", line⟩
  match start, stop with
  | .int a, some (.int b) => return .between a b
  | .int _, some v => raise place (.rangeEnd v.kind)
  | v, some _ => raise place (.rangeStart v.kind)
  | .text s, none => return .values (s.toList.map fun c => .text c.toString)
  | .array id, none => return .values ((← get).array id).toList
  | v, none => raise place (.notIterable v.kind)

/-- The zone of an explore statement. -/
def exploredZone (name : Word) : Eval Nat := do
  zoneOf (← lookup name) name (.exploreTarget name.text)

/-- Throw a ball that never misses at a random Pokemon of a zone. -/
def throwBall (line : Int) (target : Value) : Eval Unit := do
  let place : Word := ⟨"throwBall", line⟩
  let zone ← zoneOf target place .throwTarget
  let names := ((← get).zone zone).pokemon
  if names.isEmpty then raise place .emptyZone
  let caught ← choose names
  modify (·.modifyPokemon (.zone zone) (·.erase caught))
  say ("Caught a " ++ caught ++ "!")

/-- The value of a constant. -/
def constant : Literal → Value
  | .null => .null
  | .bool b => .bool b
  | .int n => .int n
  | .text s => .text s

/-- Run the statements of a block in a scope of their own. -/
def inBlock (body : Eval Unit) : Eval Unit := do
  inScope (← enterHere) body

mutual

/-- Evaluate an expression. A part of it takes two frames, what stands behind a dot or in an array three, and
an argument or a function's body four. -/
def eval (budget : Nat) : Nat → Expr → Eval Value
  | room + 4, e =>
    match e with
    | .literal value => pure (constant value)
    | .ident name => lookup name
    | .unary op line operand => do applyUnary op line (← eval budget (room + 2) operand)
    | .binary left .and _ right => do
      if (← eval budget (room + 2) left).truthy then
        return .bool (← eval budget (room + 2) right).truthy
      else return .bool false
    | .binary left .or _ right => do
      if (← eval budget (room + 2) left).truthy then return .bool true
      else return .bool (← eval budget (room + 2) right).truthy
    | .binary left op line right => do
      let a ← eval budget (room + 2) left
      let b ← eval budget (room + 2) right
      applyBinary (room + 2) op line a b
    | .assign name value => do
      let v ← eval budget (room + 2) value
      assign name v
      return v
    | .property object name => do
      let target ← eval budget (room + 1) object
      Objects.getProperty (← objectOf target name (.noProperties target.kind)) name.text name
    | .setProperty object name value => do
      let v ← eval budget (room + 2) value
      let target ← eval budget (room + 1) object
      Objects.setProperty (← objectOf target name (.noProperties target.kind)) name.text v name
      return v
    | .array elements => do newArray (← elements.mapM (eval budget (room + 1))).toArray
    | .element array line index => do
      let container ← eval budget (room + 2) array
      let i ← eval budget (room + 2) index
      elementAt container i line
    | .setElement array line index value => do
      let container ← eval budget (room + 2) array
      let i ← eval budget (room + 2) index
      let v ← eval budget (room + 2) value
      setElementAt container i v line
      return v
    | .method object name arguments named => do
      let target ← eval budget (room + 2) object
      let receiver ← objectOf target name (.noMethods name.text target.kind)
      positionalOnly named .methods
      Objects.callMethod receiver name.text (← arguments.mapM (eval budget room)) name
    | .construct maker line arguments named => do
      let positional ← arguments.mapM (eval budget (room + 1))
      let given ← named.mapM fun a => do return (a.name, ← eval budget (room + 1) a.value)
      Objects.construct maker line positional given
    | .call (.ident name) _ arguments named =>
      match Builtin.ofName? name.text with
      | some builtin => do
        positionalOnly named .builtins
        Builtin.call room builtin (← arguments.mapM (eval budget room)) name
      | none => do
        let w ← get
        match w.scopes.get? w.scope name.text with
        | none => raise name (.undefinedFunction name.text)
        | some value =>
          let id ← functionOf value name (.notFunction name.text)
          positionalOnly named .functions
          let args ← arguments.mapM (eval budget room)
          callFunction (fun body => body.forM (exec budget room)) id args name
    | .call callee line arguments named => do
      let value ← eval budget (room + 2) callee
      let place : Word := ⟨")", line⟩
      let id ← functionOf value place (.notCallable value.kind)
      positionalOnly named .functions
      let args ← arguments.mapM (eval budget room)
      callFunction (fun body => body.forM (exec budget room)) id args place
  | _, _ => throw .overflow

/-- Execute a statement. An expression in it takes two frames and a statement in a block three more; a pass of
a loop takes one more again. -/
def exec (budget : Nat) : Nat → Stmt → Eval Unit
  | room + 6, s =>
    match s with
    | .expr value => do let _ ← eval budget (room + 4) value
    | .print value => do say (← render (room + 4) (← eval budget (room + 4) value))
    | .var name initial => do
      let v ← match initial with
        | some e => eval budget (room + 4) e
        | none => pure .null
      declare name v
    | .block body => inBlock (body.forM (exec budget (room + 3)))
    | .cond condition body otherwise => do
      if (← eval budget (room + 4) condition).truthy then inBlock (body.forM (exec budget (room + 1)))
      else match otherwise with
        | .nothing => pure ()
        | .block body => inBlock (body.forM (exec budget (room + 1)))
        | .elseIf condition body otherwise => exec budget (room + 4) (.cond condition body otherwise)
    | .loop condition body =>
      whileLoop (eval budget (room + 4) condition) (inBlock (body.forM (exec budget room))) budget
    | .forIn line name start stop body => do
      let first ← eval budget (room + 4) start
      let last ← stop.mapM (eval budget (room + 4))
      forLoop name (← itemsOf line first last) (inBlock (body.forM (exec budget room)))
    | .breakLoop => throw .breakLoop
    | .continueLoop => throw .continueLoop
    | .run => throw .run
    | .define name params body => do declare name (← newFunction name.text params body)
    | .ret line value => do
      if (← get).running = 0 then raise ⟨"return", line⟩ .returnOutsideFunction
      let v ← match value with
        | some e => eval budget (room + 4) e
        | none => pure .null
      throw (.ret v)
    | .explore line zone body => do
      exploreLoop line (← exploredZone zone) (inBlock (body.forM (exec budget (room + 1)))) budget
    | .throwBall line target => do throwBall line (← eval budget (room + 4) target)
  | _, _ => throw .overflow

end

/-- Execute a statement at the top of a program. With `echo`, the value of an expression is printed unless
it is null. -/
def execTop (budget room : Nat) (echo : Bool) (s : Stmt) : Eval Unit := do
  match echo, s with
  | true, .expr value =>
    let v ← eval budget room value
    if v != .null then say (← render room v)
  | _, _ => exec budget room s

/-- Run a program on a stack with so much room, its loops taking at most so many turns. `run` outside all
loops and functions ends it; overflowing there is a fault without a place. -/
def interpretWithin (budget room : Nat) (echo : Bool) (program : Program) : Eval Unit := fun w =>
  match program.statements.forM (execTop budget room echo) w with
  | .error .run w' => .ok () (w'.note .ranAtTop)
  | .error .overflow w' => .error (.fault ⟨.recursionLimit, none⟩) w'
  | result => result

/-- The turns that a loop may take. -/
def turnBudget : Nat := Nat.pow 2 62

/-- Run a program. -/
def interpret (echo : Bool) (program : Program) : Eval Unit :=
  interpretWithin turnBudget stackRoom echo program

end Eval
end SafariScript
