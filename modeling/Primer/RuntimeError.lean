/-
  Primer/RuntimeError.lean
  ========================
  **How a running program can fail.**

  Each failure is a cause with what it needs to be told; `RuntimeError.message` is the only
  place that words it.  Kinds of values and expressions are given by name.
-/
import Primer.Tree

namespace Primer

/-- The cause of a failure. -/
inductive RuntimeError where
  | unresolved (name : String)
  | redeclared (name : String)
  | invalidOperand (op : UnaryOp) (kind : String)
  | notAFunction (kind : String)
  /-- an assignment to an expression that is neither a name nor an index -/
  | invalidTarget (kind : String)
  /-- an assignment to an index of an expression that is not a name -/
  | unsupportedTarget (kind : String)
  | invalidObjectKey (kind : String)
  | invalidArrayIndex (kind : String)
  | negativeArrayIndex (index : Int)
  | arrayIndexOutOfBounds (index : Int) (length : Nat)
  | notIndexable (kind : String)
  | divisionByZero
  | integerOverflow (left : Int) (op : BinaryOp) (right : Int)
  | callDepthExceeded (limit : Nat)
deriving DecidableEq, Repr

def RuntimeError.message : RuntimeError → String
  | unresolved name => "Cannot resolve identifier '" ++ name ++ "'"
  | redeclared name =>
    "Cannot declare variable '" ++ name ++ "', it is already defined in this scope"
  | invalidOperand op kind => "Unknown operator: " ++ op.symbol ++ kind
  | notAFunction kind => "Expected a function to apply, got " ++ kind
  | invalidTarget kind => "Invalid assignment target: " ++ kind
  | unsupportedTarget kind =>
    "Unsupported assignment: cannot assign through a member of a " ++ kind
      ++ "; only `variable[index] = value` is supported"
  | invalidObjectKey kind => "Object keys must be strings, got " ++ kind
  | invalidArrayIndex kind => "Array indexes must be integers, got " ++ kind
  | negativeArrayIndex index => "Array index " ++ toString index ++ " is negative"
  | arrayIndexOutOfBounds index length =>
    "Array index " ++ toString index ++ " is too far past the end of an array of length "
      ++ toString length
  | notIndexable kind => "Cannot index into " ++ kind
  | divisionByZero => "Division by zero"
  | integerOverflow left op right =>
    "Integer overflow in " ++ toString left ++ " " ++ op.symbol ++ " " ++ toString right
  | callDepthExceeded limit => "Maximum call depth of " ++ toString limit ++ " exceeded"

end Primer
