/-
  Primer/Eval/Expr.lean
  =====================
  **Evaluating expressions and executing statements.**

  Evaluation is recursive on the tree, apart from two jumps: into the body of a function
  that is called, and into an entry of a literal that is read.  Both leave the tree at
  hand, so they are made by a `Jump` that evaluation is given; `Primer.Eval.Run` ties the
  knot with fuel.

  Only a call makes a frame, inside the frame that the function was made in.  An entry of a
  literal is evaluated in the frame that reads it.
-/
import Primer.Eval.Basic
import Primer.Eval.Operators

namespace Primer

/-- What a jump leads to. -/
inductive Code where
  | expr (e : Expr Label)
  | block (b : Block Label)

/-- How to run code that is not part of the tree at hand, in a given frame. -/
abbrev Jump := FrameId → Code → Eval Value

namespace Eval

/-- Declares parameters in order; those without an argument are `undefined`. -/
def bindParams (frame : FrameId) : List Ident → List Value → Eval Unit
  | [], _ => return ()
  | x :: xs, args => do
    let _ ← declare frame x.name (args.headD .undefined)
    bindParams frame xs args.tail

/-- Calls a function with arguments, unless `limit` calls are under way. -/
def apply (limit : Nat) (jump : Jump) (callee : Value) (args : List Value) : Eval Value := do
  match callee with
  | .closure fn frame =>
    if limit ≤ (← get).depth then
      fail (.callDepthExceeded limit)
    else
      let inner ← newFrame frame
      bindParams inner fn.params args
      operand (calling (jump inner (.block fn.body)))
  | _ => fail (.notAFunction callee.kindName)

/-- The value of `container[key]`. -/
def readEntry (jump : Jump) (frame : FrameId) (container key : Value) : Eval Value := do
  match ← look (·.read container key) with
  | some (.written e) => operand (jump frame (.expr e))
  | some (.assigned v) => return v.unwrap
  | none => return .undefined

end Eval

open Eval

mutual

/-- The value of an expression. A `returned` value comes only from an `if`, which passes on
what a `return` in one of its branches gave. -/
def Expr.eval (limit : Nat) (jump : Jump) (frame : FrameId) : Expr Label → Eval Value
  | .ident _ name => lookup frame name
  | .str _ text => return .string text
  | .int _ value => return .integer value
  | .bool _ value => return .boolean value
  | .unary _ op e => do
    let v ← operand (e.eval limit jump frame)
    ofExcept (op.apply v)
  | .binary _ op left right => do
    let a ← operand (left.eval limit jump frame)
    let b ← operand (right.eval limit jump frame)
    ofExcept (op.apply a b)
  | .cond _ condition consequence none => do
    let v ← operand (condition.eval limit jump frame)
    if v.isTruthy then consequence.exec limit jump frame else return .null
  | .cond _ condition consequence (some alternative) => do
    let v ← operand (condition.eval limit jump frame)
    if v.isTruthy then consequence.exec limit jump frame else alternative.exec limit jump frame
  | .function _ fn => return .closure fn frame
  | .call _ callee args => do
    let f ← operand (callee.eval limit jump frame)
    let vs ← evalArgs limit jump frame args
    apply limit jump f vs
  | .index _ container key => do
    let c ← operand (container.eval limit jump frame)
    let k ← operand (key.eval limit jump frame)
    readEntry jump frame c k
  | .assign _ (.ident _ name) value => do
    let v ← operand (value.eval limit jump frame)
    assign frame name v
  | .assign _ (.index span (.ident _ name) key) value => do
    let c ← lookup frame name
    let k ← operand (key.eval limit jump frame)
    let v ← operand (value.eval limit jump frame)
    change (·.write c k ⟨value.span, v⟩ span key.span)
    let _ ← assign frame name c
    return v
  | .assign _ (.index _ container _) _ => fail (.unsupportedTarget container.kindName)
  | .assign _ target _ => fail (.invalidTarget target.kindName)
  | .object _ label properties => return .object label properties
  | .array _ label elements => return .array label elements

/-- Executes a statement. A declaration whose value was `returned` declares nothing and
passes it on. -/
def Stmt.exec (limit : Nat) (jump : Jump) (frame : FrameId) : Stmt Label → Eval Value
  | .declare _ _ name none => declare frame name.name .undefined
  | .declare _ _ name (some value) => do
    let v ← value.eval limit jump frame
    if v.isReturned then return v else declare frame name.name v
  | .function _ name fn => declare frame name.name (.closure fn frame)
  | .ret _ value => do
    let v ← operand (value.eval limit jump frame)
    return .returned v
  | .expr _ value => value.eval limit jump frame

/-- Executes a block in the frame at hand. -/
def Block.exec (limit : Nat) (jump : Jump) (frame : FrameId) : Block Label → Eval Value
  | ⟨_, statements⟩ => execAll limit jump frame .undefined statements

/-- Executes statements up to the first that gives a `returned` value; the result is the
value of the last one executed, or `last` if there is none. -/
def execAll (limit : Nat) (jump : Jump) (frame : FrameId) (last : Value) :
    List (Stmt Label) → Eval Value
  | [] => return last
  | s :: ss => do
    let v ← s.exec limit jump frame
    if v.isReturned then return v else execAll limit jump frame v ss

/-- The values of arguments, from left to right. -/
def evalArgs (limit : Nat) (jump : Jump) (frame : FrameId) : List (Expr Label) → Eval (List Value)
  | [] => return []
  | e :: es => do
    let v ← operand (e.eval limit jump frame)
    return v :: (← evalArgs limit jump frame es)

end

end Primer
