/-
  Primer/Eval/Basic.lean
  ======================
  **Computations of a running program.**

  A computation changes a state and ends in a value or halts; a halt keeps the changes made
  before it.  It halts with an error, or because it was given too little fuel, which says
  nothing about the program.
-/
import Primer.Heap.Literal
import Primer.Heap.Scope

namespace Primer

/-- Why a computation ends without a value. -/
inductive Halt where
  | error (cause : RuntimeError)
  /-- the fuel was used up -/
  | exhausted
deriving DecidableEq, Repr

namespace Eval

/-- What a computation works on. -/
structure State where
  heap : Heap
  /-- the number of calls that are under way -/
  depth : Nat

/-- A state with nothing in it but an empty frame. -/
def State.empty : State := ⟨.empty, 0⟩

end Eval

/-- A computation. -/
abbrev Eval := EStateM Halt Eval.State

namespace Eval

def fail {α : Type} (cause : RuntimeError) : Eval α := throw (.error cause)

/-- A result that may be an error. -/
def ofExcept {α : Type} : Except RuntimeError α → Eval α
  | .ok a => pure a
  | .error cause => fail cause

/-- A look at the heap. -/
@[inline] def look {α : Type} (f : Heap → Except RuntimeError α) : Eval α := fun s =>
  match f s.heap with
  | .ok a => .ok a s
  | .error cause => .error (.error cause) s

/-- A change of the heap, which stays as it is when the change fails. -/
@[inline] def change (f : Heap → Except RuntimeError Heap) : Eval Unit := fun ⟨heap, depth⟩ =>
  match f heap with
  | .ok heap => .ok () ⟨heap, depth⟩
  | .error cause => .error (.error cause) ⟨heap, depth⟩

/-- Declares a name; the value is also the result. -/
def declare (frame : FrameId) (name : String) (v : Value) : Eval Value := do
  change (·.declare frame name v)
  return v

def lookup (frame : FrameId) (name : String) : Eval Value := look (·.lookup frame name)

/-- Assigns to a name; the value is also the result. -/
def assign (frame : FrameId) (name : String) (v : Value) : Eval Value := do
  change (·.assign frame name v)
  return v

/-- A new frame inside `parent`. -/
def newFrame (parent : FrameId) : Eval FrameId := fun ⟨heap, depth⟩ =>
  let (frame, heap) := heap.newFrame parent
  .ok frame ⟨heap, depth⟩

/-- A value that is used by an expression around it: a `return` in it gives just its value. -/
def operand (x : Eval Value) : Eval Value := do
  return (← x).unwrap

/-- Runs a computation as one more call under way. -/
def calling {α : Type} (x : Eval α) : Eval α := fun s =>
  match x { s with depth := s.depth + 1 } with
  | .ok a s => .ok a { s with depth := s.depth - 1 }
  | .error halt s => .error halt { s with depth := s.depth - 1 }

end Eval

end Primer
