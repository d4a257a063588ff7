import SafariScript.Eval.Basic

/-!
# Equality

Plain values are equal if they are the same, arrays if their elements are equal in turn, functions and
objects only to themselves; collections are equal if they have the same owner. Values of different types
are never equal.
-/

namespace SafariScript
namespace Eval

/-- Compare two lists element by element up to the first difference. -/
def allEqual (equal : Value → Value → Except Interrupt Bool) :
    List Value → List Value → Except Interrupt Bool
  | a :: as, b :: bs => do
    if ← equal a b then allEqual equal as bs else return false
  | [], [] => return true
  | _, _ => return false

/-- Whether a value is what an object stands for: for a collection another one of the same owner, for any other object
only itself. -/
def sameAs : Object → Value → Bool
  | .collection owner, .object (.collection other) => other == owner
  | .collection _, _ => false
  | object, other => other == .object object

/-- Compare two values that are not both arrays. An object on the left decides by itself; a function, or an object on
the right, must be the very same value; all others must be of one type and equal. -/
def plainEqual : Value → Value → Bool
  | .object object, b => sameAs object b
  | .function id, b => b == .function id
  | a, .function id => a == .function id
  | a, .object object => a == .object object
  | a, b => a.kind == b.kind && a == b

/-- Compare two values with a bound on how deep arrays are nested. -/
def equalWithin (w : World) : Nat → Value → Value → Except Interrupt Bool
  | 0, .array _, .array _ => .error .overflow
  | depth + 1, .array a, .array b =>
    if (w.array a).size == (w.array b).size then
      allEqual (equalWithin w depth) (w.array a).toList (w.array b).toList
    else
      return false
  | _, a, b => return plainEqual a b

/-- Compare two values on a stack with so much room: an array inside an array takes two frames of it. So
comparing cyclic arrays overflows. -/
def equal (room : Nat) (w : World) (a b : Value) : Except Interrupt Bool :=
  equalWithin w (room / 2) a b

/-- A value is equal to one of a list. -/
def anyEqual (room : Nat) (w : World) (item : Value) : List Value → Except Interrupt Bool
  | [] => return false
  | a :: as => do
    if ← equal room w a item then return true else anyEqual room w item as

/-- Take over a result that may be an interruption. -/
def ofResult {α : Type} : Except Interrupt α → Eval α
  | .ok a => pure a
  | .error e => throw e

end Eval
end SafariScript
