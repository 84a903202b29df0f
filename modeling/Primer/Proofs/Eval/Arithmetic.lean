/-
  Primer/Proofs/Eval/Arithmetic.lean
  ==================================
  **Integer expressions compute exactly or fail.**

  What an integer expression means is said on integers without bounds: every expression made of
  literals, minus signs and the four operations has an exact value (`Expr.exact`), and its
  operations come in an order, each on exact operands (`Expr.operations`): those of the left
  operand, those of the right one, and then its own.  Only an `Operation` says which results are
  refused.  A division by zero is, and so is a result that does not fit into 64 bits.

  Evaluation goes through the operations in that order and stops at the first one that is refused
  (`eval_exact`); if none is, it gives the exact value, or says whether the comparison at the root
  holds.  Either way it leaves the state as it is.
-/
import Primer.Eval.Run

namespace Primer

variable {ι : Type}

/-! ### Operations on integers without bounds -/

namespace BinaryOp

/-- Does the operator make an integer of two, and not compare them? -/
def isArithmetic : BinaryOp → Bool
  | add | sub | mul | div => true
  | _ => false

/-- The exact result. A quotient is cut off toward zero. -/
def exact : BinaryOp → Int → Int → Int
  | add, a, b => a + b
  | sub, a, b => a - b
  | mul, a, b => a * b
  | div, a, b => a.tdiv b
  | _, _, _ => 0

/-- Does the comparison hold? -/
def holds : BinaryOp → Int → Int → Bool
  | lt, a, b => a < b
  | le, a, b => a ≤ b
  | gt, a, b => b < a
  | ge, a, b => b ≤ a
  | eq, a, b => a = b
  | ne, a, b => a ≠ b
  | _, _, _ => false

end BinaryOp

/-- An operation on two integers. A minus sign before an operand takes it from zero. -/
structure Operation where
  left : Int
  op : BinaryOp
  right : Int
deriving DecidableEq, Repr

namespace Operation

def result (o : Operation) : Int := o.op.exact o.left o.right

/-- Why the operation is refused, if it is. -/
def failure? (o : Operation) : Option RuntimeError :=
  if o.op = .div ∧ o.right = 0 then some .divisionByZero
  else if -9223372036854775808 ≤ o.result ∧ o.result < 9223372036854775808 then none
  else some (.integerOverflow o.left o.op o.right)

end Operation

/-! ### Integer expressions -/

namespace Expr

/-- The expression is made of integer literals, minus signs and the four operations. -/
inductive IsArithmetic : Expr ι → Prop
  | int {span : Span} {n : Nat} : n ≤ Parser.maxInteger → IsArithmetic (.int span n)
  | neg {span : Span} {e : Expr ι} : IsArithmetic e → IsArithmetic (.unary span .neg e)
  | binary {span : Span} {op : BinaryOp} {l r : Expr ι} : op.isArithmetic = true →
      IsArithmetic l → IsArithmetic r → IsArithmetic (.binary span op l r)

/-- The same, or a comparison of two such expressions. -/
inductive IsCalculation : Expr ι → Prop
  | arithmetic {e : Expr ι} : IsArithmetic e → IsCalculation e
  | comparison {span : Span} {op : BinaryOp} {l r : Expr ι} : op.isArithmetic = false →
      IsArithmetic l → IsArithmetic r → IsCalculation (.binary span op l r)

/-- The value of an integer expression, computed without bounds. -/
def exact : Expr ι → Int
  | .int _ n => n
  | .unary _ .neg e => -e.exact
  | .binary _ op l r => op.exact l.exact r.exact
  | _ => 0

/-- The value of a calculation, computed without bounds. -/
def exactValue : Expr ι → Value
  | .binary _ op l r =>
    if op.isArithmetic then .integer (op.exact l.exact r.exact)
    else .boolean (op.holds l.exact r.exact)
  | e => .integer e.exact

/-- The operations of a calculation on exact operands, the left operand first. -/
def operations : Expr ι → List Operation
  | .unary _ .neg e => e.operations ++ [⟨0, .sub, e.exact⟩]
  | .binary _ op l r =>
    l.operations ++ r.operations ++ if op.isArithmetic then [⟨l.exact, op, r.exact⟩] else []
  | _ => []

end Expr

/-! ### One operation -/

/-- The result of going through operations up to the first one that is refused. -/
def verdict (os : List Operation) (v : Value) : Except RuntimeError Value :=
  match os.findSome? Operation.failure? with
  | none => .ok v
  | some cause => .error cause

theorem fits_iff {n : Int} :
    fits n = true ↔ -9223372036854775808 ≤ n ∧ n < 9223372036854775808 := by
  simp only [fits, Bool.and_eq_true, decide_eq_true_eq]
  omega

/-- An operation other than a division by zero is refused if its result does not fit. -/
theorem Operation.failure?_eq {o : Operation} (h : ¬(o.op = .div ∧ o.right = 0)) :
    o.failure? = if fits o.result then none else some (.integerOverflow o.left o.op o.right) := by
  simp only [failure?, if_neg h, fits_iff]

theorem checked_exact (op : BinaryOp) (a b : Int) (h : ¬(op = .div ∧ b = 0)) :
    checked a op b (op.exact a b) = verdict [⟨a, op, b⟩] (.integer (op.exact a b)) := by
  unfold checked verdict
  rw [List.findSome?_singleton, Operation.failure?_eq h]
  cases hfits : fits (op.exact a b) <;> simp [Operation.result, hfits]

theorem BinaryOp.apply_exact {op : BinaryOp} (hop : op.isArithmetic = true) (a b : Int) :
    op.apply (.integer a) (.integer b) = verdict [⟨a, op, b⟩] (.integer (op.exact a b)) := by
  cases op with
  | add => exact checked_exact add a b nofun
  | sub => exact checked_exact sub a b nofun
  | mul => exact checked_exact mul a b nofun
  | div =>
    by_cases hb : b = 0
    · subst hb
      rfl
    · rw [← checked_exact div a b fun h => hb h.2]
      exact if_neg hb
  | _ => cases hop

theorem UnaryOp.neg_exact (n : Int) :
    UnaryOp.neg.apply (.integer n) = verdict [⟨0, .sub, n⟩] (.integer (-n)) := by
  have hchecked : checked 0 .sub n (0 - n) = verdict [⟨0, .sub, n⟩] (.integer (0 - n)) :=
    checked_exact .sub 0 n nofun
  rw [Int.zero_sub] at hchecked
  exact hchecked

theorem BinaryOp.apply_holds {op : BinaryOp} (hop : op.isArithmetic = false) (a b : Int) :
    op.apply (.integer a) (.integer b) = .ok (.boolean (op.holds a b)) := by
  cases op with
  | add | sub | mul | div => cases hop
  | _ => rfl

/-! ### Going through operations -/

theorem verdict_bind_append (os ps : List Operation) (v w : Value) :
    (verdict os v >>= fun _ => verdict ps w) = verdict (os ++ ps) w := by
  unfold verdict
  rw [List.findSome?_append]
  cases os.findSome? Operation.failure? <;> rfl

namespace Eval

theorem ofExcept_bind {α β : Type} (r : Except RuntimeError α) (f : α → Except RuntimeError β) :
    (ofExcept r >>= fun a => ofExcept (f a)) = ofExcept (r >>= f) := by
  cases r <;> rfl

/-- An operand that is an integer is used as it is. -/
theorem operand_verdict (os : List Operation) (n : Int) :
    operand (ofExcept (verdict os (.integer n))) = ofExcept (verdict os (.integer n)) := by
  unfold verdict
  cases os.findSome? Operation.failure? <;> rfl

end Eval

theorem verdict_bind (os : List Operation) {v : Value} {f : Value → Except RuntimeError Value} :
    (verdict os v >>= f) = verdict os v >>= fun _ => f v := by
  unfold verdict
  cases os.findSome? Operation.failure? <;> rfl

variable {limit : Nat} {jump : Jump} {frame : FrameId}

/-- Two operands, and then what is made of them. -/
theorem eval_binary_of_verdicts {span : Span} {op : BinaryOp} {l r : Expr Label}
    {os ps qs : List Operation} {a b : Int} {v : Value}
    (hl : l.eval limit jump frame = Eval.ofExcept (verdict os (.integer a)))
    (hr : r.eval limit jump frame = Eval.ofExcept (verdict ps (.integer b)))
    (hop : op.apply (.integer a) (.integer b) = verdict qs v) :
    (Expr.binary span op l r).eval limit jump frame =
      Eval.ofExcept (verdict (os ++ ps ++ qs) v) := by
  rw [Expr.eval, hl, hr, Eval.operand_verdict, Eval.operand_verdict]
  simp only [Eval.ofExcept_bind]
  rw [verdict_bind os, verdict_bind ps, hop, verdict_bind_append, verdict_bind_append,
    List.append_assoc]

theorem eval_arithmetic {e : Expr Label} (h : e.IsArithmetic) :
    e.eval limit jump frame = Eval.ofExcept (verdict e.operations (.integer e.exact)) := by
  induction h with
  | int => rw [Expr.eval]; rfl
  | @neg _ e _ ih =>
    rw [Expr.eval, ih, Eval.operand_verdict, Eval.ofExcept_bind, verdict_bind, UnaryOp.neg_exact,
      verdict_bind_append]
    rfl
  | @binary _ op l r hop _ _ ihl ihr =>
    rw [eval_binary_of_verdicts ihl ihr (BinaryOp.apply_exact hop _ _), Expr.operations, if_pos hop]
    rfl

theorem eval_calculation {e : Expr Label} (h : e.IsCalculation) :
    e.eval limit jump frame = Eval.ofExcept (verdict e.operations e.exactValue) := by
  cases h with
  | arithmetic h =>
    have hvalue : e.exactValue = .integer e.exact := by
      cases h with
      | int | neg => rfl
      | binary hop => exact if_pos hop
    rw [eval_arithmetic h, hvalue]
  | @comparison _ op l r hop hl hr =>
    have hnone := Bool.eq_false_iff.1 hop
    have hholds : op.apply (.integer l.exact) (.integer r.exact) =
        verdict [] (.boolean (op.holds l.exact r.exact)) := BinaryOp.apply_holds hop _ _
    rw [eval_binary_of_verdicts (eval_arithmetic hl) (eval_arithmetic hr) hholds, Expr.operations,
      Expr.exactValue, if_neg hnone, if_neg hnone]

/-- **Integer expressions compute exactly or fail.**  If no operation of a calculation divides by
zero or has a result that does not fit into 64 bits, its value is the exact one; otherwise it fails
for the reason of the first operation that is refused, with the exact operands of that operation.
The state stays as it is. -/
theorem eval_exact (limit : Nat) (jump : Jump) (frame : FrameId) (s : Eval.State)
    {e : Expr Label} (h : e.IsCalculation) :
    ((∀ o ∈ e.operations, o.failure? = none) → e.eval limit jump frame s = .ok e.exactValue s) ∧
    ∀ before o after cause, e.operations = before ++ o :: after →
      (∀ b ∈ before, b.failure? = none) → o.failure? = some cause →
      e.eval limit jump frame s = .error (.error cause) s := by
  rw [eval_calculation h]
  constructor
  · intro hnone
    rw [verdict, List.findSome?_eq_none_iff.2 hnone]
    rfl
  · intro before o after cause hops hbefore ho
    have hfirst : e.operations.findSome? Operation.failure? = some cause := by
      rw [hops, List.findSome?_append, List.findSome?_eq_none_iff.2 hbefore, List.findSome?_cons, ho]
      rfl
    rw [verdict, hfirst]
    rfl

/-- `(-9223372036854775807 - 1) / -1 + 1 / 0`: the lowest integer has no opposite, and the division
by zero is not come to. -/
def lowestOverMinusOne : Expr Label :=
  let int (n : Nat) : Expr Label := .int .zero n
  let lowest : Expr Label := .binary .zero .sub (.unary .zero .neg (int 9223372036854775807)) (int 1)
  .binary .zero .add (.binary .zero .div lowest (.unary .zero .neg (int 1)))
    (.binary .zero .div (int 1) (int 0))

theorem eval_exact_lowestOverMinusOne :
    lowestOverMinusOne.IsCalculation ∧
    lowestOverMinusOne.eval 0 (Primer.jump 0 0) Heap.root .empty =
      .error (.error (.integerOverflow (-9223372036854775808) .div (-1))) .empty := by
  have hint {n : Nat} (h : n ≤ Parser.maxInteger) : (Expr.int .zero n : Expr Label).IsArithmetic :=
    .int h
  have hcalculation : lowestOverMinusOne.IsCalculation :=
    .arithmetic (.binary rfl
      (.binary rfl (.binary rfl (.neg (hint (by decide))) (hint (by decide)))
        (.neg (hint (by decide))))
      (.binary rfl (hint (by decide)) (hint (by decide))))
  refine ⟨hcalculation, ?_⟩
  exact (eval_exact 0 (Primer.jump 0 0) Heap.root .empty hcalculation).2
    [⟨0, .sub, 9223372036854775807⟩, ⟨-9223372036854775807, .sub, 1⟩, ⟨0, .sub, 1⟩]
    ⟨-9223372036854775808, .div, -1⟩ [⟨1, .div, 0⟩, ⟨9223372036854775808, .add, 0⟩] _
    (by decide) (by decide) (by decide)

end Primer
