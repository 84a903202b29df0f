/-
  Primer/Eval/Run.lean
  ====================
  **Running programs.**

  `jump` runs code with fuel: each jump from code into other code takes one unit, so the
  fuel bounds how deep calls and reads of entries are nested in each other, and not how
  long a program runs.
-/
import Primer.Eval.Expr
import Primer.Parser.Parse

namespace Primer

/-- Runs code that may jump `fuel` deep into other code. -/
def jump (limit : Nat) : Nat → Jump
  | 0, _, _ => throw .exhausted
  | fuel + 1, frame, code =>
    match code with
    | .expr e => e.eval limit (jump limit fuel) frame
    | .block b => b.exec limit (jump limit fuel) frame

/-- How many calls may be under way when nothing else is asked for. -/
def defaultCallDepth : Nat := 128

/-- The bounds of a run. -/
structure Bounds where
  /-- how many calls may be under way -/
  calls : Nat := defaultCallDepth
  /-- how deep jumps may be nested; a nesting that any machine can hold stays far below -/
  fuel : Nat := 1000000000000

namespace Bounds

variable (bounds : Bounds)

/-- Executes one statement. -/
def execute (frame : FrameId) (s : Stmt Label) : Eval Value :=
  s.exec bounds.calls (jump bounds.calls bounds.fuel) frame

/-- Executes a block up to its first `return`, the signal of which is kept. -/
def executeBlock (frame : FrameId) (b : Block Label) : Eval Value :=
  b.exec bounds.calls (jump bounds.calls bounds.fuel) frame

/-- Calls a function value. -/
def call (callee : Value) (args : List Value) : Eval Value :=
  Eval.apply bounds.calls (jump bounds.calls bounds.fuel) callee args

/-- Runs a program, which a `return` ends early: the value is that of the last statement
executed, or `undefined` if there is none. -/
def evaluate (frame : FrameId) (p : Program Label) : Eval Value := do
  modify ({ · with depth := 0 })
  Eval.operand (execAll bounds.calls (jump bounds.calls bounds.fuel) frame .undefined p.statements)

end Bounds

/-- Labels a program for a run on the heap at hand. -/
def load {ι : Type} (p : Program ι) : Eval (Program Label) :=
  modifyGet fun s =>
    let (p, heap) := s.heap.load p
    (p, { s with heap })

/-- Reads a source strictly, and runs it if it was not rejected. -/
def runSource (bounds : Bounds) (frame : FrameId) (source : String) :
    Eval (Except Rejection Value) := do
  match parseWith { strict := true } source with
  | .error rejection => return .error rejection
  | .ok (p, _) => return .ok (← bounds.evaluate frame (← load p))

end Primer
