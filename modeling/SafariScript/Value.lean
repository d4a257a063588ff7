/-!
# Values

What a script computes with. Arrays, functions and objects are shared, so a value only says which one it
is; their contents are kept by the interpreter.
-/

namespace SafariScript

/-- Whose Pokemon a collection is about. -/
inductive Owner where
  | zone (id : Nat)
  | team (id : Nat)
deriving DecidableEq, Inhabited, Repr

/-- The built-in objects. A collection is a view of the Pokemon of its owner. -/
inductive Object where
  | zone (id : Nat)
  | team (id : Nat)
  | collection (owner : Owner)
deriving DecidableEq, Inhabited, Repr

/-- A value. -/
inductive Value where
  | null
  | bool (value : Bool)
  | int (value : Int)
  | text (value : String)
  | array (id : Nat)
  | function (id : Nat)
  | object (object : Object)
deriving DecidableEq, Inhabited, Repr

/-- The types of values. -/
inductive Kind where
  | null
  | boolean
  | int
  | string
  | array
  | function
  | zone
  | team
  | collection
deriving DecidableEq, Inhabited, Repr

/-- The name of a type in messages. -/
def Kind.label : Kind → String
  | .null => "null"
  | .boolean => "Boolean"
  | .int => "Int"
  | .string => "String"
  | .array => "Array"
  | .function => "Function"
  | .zone => "SafariZone"
  | .team => "Team"
  | .collection => "PokemonCollection"

/-- The type of an owner. -/
def Owner.kind : Owner → Kind
  | .zone _ => .zone
  | .team _ => .team

/-- The type of an object. -/
def Object.kind : Object → Kind
  | .zone _ => .zone
  | .team _ => .team
  | .collection _ => .collection

namespace Value

/-- The type of a value. -/
def kind : Value → Kind
  | .null => .null
  | .bool _ => .boolean
  | .int _ => .int
  | .text _ => .string
  | .array _ => .array
  | .function _ => .function
  | .object o => o.kind

/-- Null and false count as false, everything else as true. -/
def truthy : Value → Bool
  | .null => false
  | .bool value => value
  | _ => true

/-- An integer. -/
def isInt : Value → Bool
  | .int _ => true
  | _ => false

end Value
end SafariScript
