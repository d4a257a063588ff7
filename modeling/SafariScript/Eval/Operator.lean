import SafariScript.Eval.Comparison
import SafariScript.Eval.Rendering

/-!
# Operators

Arithmetic is on integers without bounds; a quotient is rounded toward zero and a remainder has the sign of
the left operand.
-/

namespace SafariScript

/-- The quotient, rounded toward zero: that of the absolute values, with the sign that the operands give it. -/
def truncatedDiv (left right : Int) : Int :=
  let quotient : Int := (left.natAbs / right.natAbs : Nat)
  if 0 ≤ left ↔ 0 < right then quotient else -quotient

/-- What the quotient rounded toward zero leaves of the left operand. -/
def truncatedMod (left right : Int) : Int :=
  left - right * truncatedDiv left right

namespace Eval

/-- Apply an operator before an operand. -/
def applyUnary (op : UnaryOp) (line : Int) (operand : Value) : Eval Value :=
  match op, operand with
  | .not, v => pure (.bool !v.truthy)
  | .negate, .int n => pure (.int (-n))
  | .negate, _ => raise ⟨op.spelling, line⟩ .negatedOperand

/-- Add integers, or join texts if one operand is a string. -/
def add (room : Nat) (left right : Value) (place : Word) : Eval Value := do
  match left, right with
  | .int a, .int b => return .int (a + b)
  | .text a, v => return .text (a ++ (← render room v))
  | v, .text b => return .text ((← render room v) ++ b)
  | _, _ => raise place (.addedOperands left.kind right.kind)

/-- Compute with two integers. -/
def arithmetic (op : IntOp) (a b : Int) (place : Word) : Eval Value :=
  match op with
  | .subtract => pure (.int (a - b))
  | .multiply => pure (.int (a * b))
  | .divide => if b = 0 then raise place .divisionByZero else pure (.int (truncatedDiv a b))
  | .remainder => if b = 0 then raise place .moduloByZero else pure (.int (truncatedMod a b))
  | .less => pure (.bool (a < b))
  | .lessEqual => pure (.bool (a ≤ b))
  | .greater => pure (.bool (a > b))
  | .greaterEqual => pure (.bool (a ≥ b))

/-- Apply an operator between two operands that are both computed. -/
def applyBinary (room : Nat) (op : BinaryOp) (line : Int) (left right : Value) : Eval Value := do
  let place : Word := ⟨op.spelling, line⟩
  match op with
  | .and => return .bool (left.truthy && right.truthy)
  | .or => return .bool (left.truthy || right.truthy)
  | .equal => return .bool (← ofResult (equal room (← get) left right))
  | .notEqual => return .bool !(← ofResult (equal room (← get) left right))
  | .add => add room left right place
  | .int op =>
    match left, right with
    | .int a, .int b => arithmetic op a b place
    | _, _ => raise place (.numericOperands left.kind op.spelling right.kind)

end Eval
end SafariScript
