/-
  Primer/Eval/Operators.lean
  ==========================
  **What operators do to values.**

  Integers have 64 bits: an operation whose exact result does not fit fails.  Division goes
  toward zero.  Any two values can be compared for equality; every other operator on values
  that are not both integers gives `null`.
-/
import Primer.RuntimeError
import Primer.Value

namespace Primer

/-- Does the integer fit into 64 bits with a sign? -/
def fits (n : Int) : Bool := -9223372036854775808 ≤ n && n ≤ 9223372036854775807

/-- The exact result of an operation, if it fits. -/
def checked (left : Int) (op : BinaryOp) (right result : Int) : Except RuntimeError Value :=
  if fits result then .ok (.integer result) else .error (.integerOverflow left op right)

namespace UnaryOp

def apply : UnaryOp → Value → Except RuntimeError Value
  | not, v => .ok (.boolean !v.isTruthy)
  | neg, .integer n => checked 0 .sub n (-n)
  | neg, v => .error (.invalidOperand neg v.kindName)

end UnaryOp

namespace BinaryOp

/-- An operator on two integers. -/
def applyIntegers (op : BinaryOp) (a b : Int) : Except RuntimeError Value :=
  match op with
  | add => checked a op b (a + b)
  | sub => checked a op b (a - b)
  | mul => checked a op b (a * b)
  | div => if b = 0 then .error .divisionByZero else checked a op b (a.tdiv b)
  | lt => .ok (.boolean (a < b))
  | le => .ok (.boolean (a ≤ b))
  | gt => .ok (.boolean (a > b))
  | ge => .ok (.boolean (a ≥ b))
  | eq => .ok (.boolean (a = b))
  | ne => .ok (.boolean (a ≠ b))

def apply (op : BinaryOp) (left right : Value) : Except RuntimeError Value :=
  match left, right with
  | .integer a, .integer b => op.applyIntegers a b
  | _, _ =>
    match op with
    | eq => .ok (.boolean (left.equal right))
    | ne => .ok (.boolean !left.equal right)
    | _ => .ok .null

end BinaryOp

end Primer
