/-
  Primer/Parser/Precedence.lean
  =============================
  **How tightly operators bind.**

  Nine levels, from the loosest to the tightest.  A token that cannot stand between
  operands has the lowest level, which binds nothing.
-/
import Primer.Token
import Primer.Tree

namespace Primer

/-- The levels of binding, the loosest first. -/
inductive Precedence where
  | lowest
  | assign
  | equals
  | comparison
  | sum
  | product
  | unary
  | call
  | index
deriving DecidableEq, Repr

namespace Precedence

/-- The level as a number; a tighter level has a greater one. -/
def rank : Precedence → Nat
  | lowest => 0
  | assign => 1
  | equals => 2
  | comparison => 3
  | sum => 4
  | product => 5
  | unary => 6
  | call => 7
  | index => 8

instance : LT Precedence := ⟨fun a b => a.rank < b.rank⟩

instance : LE Precedence := ⟨fun a b => a.rank ≤ b.rank⟩

instance (a b : Precedence) : Decidable (a < b) := inferInstanceAs (Decidable (a.rank < b.rank))

instance (a b : Precedence) : Decidable (a ≤ b) := inferInstanceAs (Decidable (a.rank ≤ b.rank))

instance : Ord Precedence := ⟨fun a b => compare a.rank b.rank⟩

/-- How tightly a token binds what stands before it. -/
def of : TokenKind → Precedence
  | .assign => assign
  | .eq | .notEq => equals
  | .lt | .lte | .gt | .gte => comparison
  | .plus | .minus => sum
  | .asterisk | .slash => product
  | .lparen => call
  | .lbracket => index
  | _ => lowest

end Precedence

/-- The operator that a token stands for between two operands. -/
def BinaryOp.ofToken? : TokenKind → Option BinaryOp
  | .plus => some .add
  | .minus => some .sub
  | .asterisk => some .mul
  | .slash => some .div
  | .lt => some .lt
  | .lte => some .le
  | .gt => some .gt
  | .gte => some .ge
  | .eq => some .eq
  | .notEq => some .ne
  | _ => none

end Primer
