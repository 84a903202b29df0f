/-
  Primer/Heap/Scope.lean
  ======================
  **Frames and the names that are visible from them.**

  A frame sees the names it owns, then those of its parent, and so on: the nearest owner of
  a name on the chain of frames decides.  A frame is made after its parent, so parents have
  smaller numbers and chains end.
-/
import Primer.Heap.Basic
import Primer.RuntimeError

namespace Primer.Heap

/-- A new frame inside `parent`. -/
@[inline] def newFrame (h : Heap) (parent : FrameId) : FrameId × Heap :=
  (h.frames.size, { h with frames := h.frames.push ⟨[], some parent⟩ })

def parent? (h : Heap) (f : FrameId) : Option FrameId := h.frames[f]?.bind (·.parent)

/-- The variables that a frame itself owns. -/
def bindings (h : Heap) (f : FrameId) : Table String Value :=
  (h.frames[f]?.map (·.bindings)).getD []

/-- The frame and those around it, from the inside out. -/
def chain (h : Heap) (f : FrameId) : List FrameId :=
  match h.parent? f with
  | some p => if p < f then f :: h.chain p else [f]
  | none => [f]
termination_by f

/-- The value that a frame itself gives a name. -/
def own? (h : Heap) (f : FrameId) (name : String) : Option Value := (h.bindings f).get? name

/-- Does the frame itself own the name? -/
def owns (h : Heap) (f : FrameId) (name : String) : Bool := (h.own? f name).isSome

/-- The nearest frame on the chain that owns the name. -/
def owner? (h : Heap) (f : FrameId) (name : String) : Option FrameId :=
  (h.chain f).find? (h.owns · name)

/-- Gives a name a value in a frame. -/
def bindIn (h : Heap) (f : FrameId) (name : String) (v : Value) : Heap :=
  { h with frames := h.frames.modify f fun fr => { fr with bindings := fr.bindings.set name v } }

/-- Declares a name in a frame that does not own it yet. -/
@[inline] def declare (h : Heap) (f : FrameId) (name : String) (v : Value) : Except RuntimeError Heap :=
  if h.owns f name then .error (.redeclared name) else .ok (h.bindIn f name v)

/-- The value that the nearest owner gives a name. -/
def lookup (h : Heap) (f : FrameId) (name : String) : Except RuntimeError Value :=
  match (h.owner? f name).bind (h.own? · name) with
  | some v => .ok v
  | none => .error (.unresolved name)

/-- Gives a name another value in its nearest owner. -/
@[inline] def assign (h : Heap) (f : FrameId) (name : String) (v : Value) : Except RuntimeError Heap :=
  match h.owner? f name with
  | some g => .ok (h.bindIn g name v)
  | none => .error (.unresolved name)

/-- The names that a frame itself owns, in order. -/
def names (h : Heap) (f : FrameId) : List String :=
  (h.bindings f).keys.mergeSort fun a b => !decide (b < a)

/-- The names of a frame, and whether it has a parent. -/
def describeFrame (h : Heap) (f : FrameId) : String :=
  "Environment \x7b names: " ++ quotedNames (h.names f) ++ ", has_enclosing: "
    ++ (if (h.parent? f).isSome then "true" else "false") ++ " \x7d"

end Primer.Heap
