import SafariScript.Eval.Comparison

/-!
# Built-in functions

A call by one of these names never looks for a function of the script.
-/

namespace SafariScript

/-- The built-in functions. -/
inductive Builtin where
  | readString
  | readInt
  | length
  | push
  | contains
  | concat
deriving DecidableEq, Inhabited, Repr

namespace Builtin

/-- The name that a built-in function is called by. -/
def name : Builtin → String
  | .readString => "readString"
  | .readInt => "readInt"
  | .length => "length"
  | .push => "push"
  | .contains => "contains"
  | .concat => "concat"

/-- How many arguments a built-in function takes. -/
def arity : Builtin → Nat
  | .readString | .readInt => 0
  | .length => 1
  | .push | .contains | .concat => 2

/-- Every built-in function. -/
def all : List Builtin :=
  [.readString, .readInt, .length, .push, .contains, .concat]

/-- The built-in function of a name. -/
def ofName? (name : String) : Option Builtin :=
  all.find? (·.name == name)

open Eval

/-- Ask for a line of input, which must not be empty. -/
def ask (builtin : Builtin) (place : Word) : Eval String := do
  modify (·.write "> ")
  match ← readLine? with
  | some line => if line == "" then raise place (.emptyInput builtin.name) else return line
  | none => raise place (.emptyInput builtin.name)

/-- The length of a string, an array, or the Pokemon of an object. -/
def lengthOf (place : Word) (value : Value) : Eval Value := do
  let w ← get
  match value with
  | .text s => return .int s.length
  | .array id => return .int (w.array id).size
  | .object (.zone id) => return .int (w.zone id).pokemon.length
  | .object (.team id) => return .int (w.team id).pokemon.length
  | .object (.collection owner) => return .int (w.pokemon owner).length
  | v => raise place (.noLength v.kind)

/-- Call a built-in function with the right number of arguments. -/
def apply (room : Nat) (builtin : Builtin) (args : List Value) (place : Word) : Eval Value := do
  match builtin, args with
  | .readString, [] => return .text (← ask .readString place)
  | .readInt, [] =>
    let line ← ask .readInt place
    match Text.readInt? (Text.strip line) with
    | some n => return .int n
    | none => raise place (.notInteger line)
  | .length, [value] => lengthOf place value
  | .push, [.array id, item] =>
    modify (·.modifyArray id (·.push item))
    return .null
  | .contains, [.array id, item] =>
    let w ← get
    return .bool (← ofResult (anyEqual room w item (w.array id).toList))
  | .concat, [.array first, .array second] =>
    let w ← get
    newArray (w.array first ++ w.array second)
  | .concat, [_, _] => raise place .arraysExpected
  | _, [_, _] => raise place (.arrayExpected builtin.name)
  | _, _ => raise place (.builtinArity builtin.name builtin.arity args.length)

/-- Call a built-in function. -/
def call (room : Nat) (builtin : Builtin) (args : List Value) (place : Word) : Eval Value :=
  if args.length == builtin.arity then apply room builtin args place
  else raise place (.builtinArity builtin.name builtin.arity args.length)

end Builtin
end SafariScript
