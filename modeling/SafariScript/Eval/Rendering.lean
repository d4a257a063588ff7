import SafariScript.Eval.Basic

/-!
# Values as text

How a value is printed and joined to strings.
-/

namespace SafariScript
namespace Eval

/-- A text, or the interruption for an integer too long to be written. -/
def written : Option String → Except Interrupt String
  | some text => .ok text
  | none => .error .longInteger

/-- The text of an object. -/
def objectText (w : World) : Object → Except Interrupt String
  | .zone id => written (w.zone id).text?
  | .team id => written (w.team id).text?
  | .collection owner => .ok (", ".intercalate (w.pokemon owner))

/-- The texts of the values of a list. -/
def texts (text : Value → Except Interrupt String) : List Value → Except Interrupt (List String)
  | [] => .ok []
  | v :: vs => do
    let first ← text v
    let others ← texts text vs
    return first :: others

/-- The text of a value with a bound on how deep arrays are nested. -/
def textWithin (w : World) : Nat → Value → Except Interrupt String
  | _, .null => .ok "null"
  | _, .bool true => .ok "true"
  | _, .bool false => .ok "false"
  | _, .int n => written (Text.showInt? n)
  | _, .text s => .ok s
  | _, .function id => .ok ("<fn " ++ (w.function id).name ++ ">")
  | _, .object object => objectText w object
  | 0, .array _ => .error .overflow
  | depth + 1, .array id => do
    let items ← texts (textWithin w depth) (w.array id).toList
    return "[" ++ ", ".intercalate items ++ "]"

/-- The text of a value on a stack with so much room: an array inside an array takes two frames of it. So
cyclic arrays overflow. -/
def text (room : Nat) (w : World) (v : Value) : Except Interrupt String :=
  textWithin w (room / 2) v

/-- The text of a value in the world as it is now. -/
def render (room : Nat) (v : Value) : Eval String := fun w =>
  match text room w v with
  | .ok s => .ok s w
  | .error e => .error e w

end Eval
end SafariScript
