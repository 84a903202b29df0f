/-
  Primer/Heap/Basic.lean
  ======================
  **What a running program can change.**

  The heap holds the frames of variables, what has been assigned to entries of literals,
  and the next label that is free for a program to be loaded.
-/
import Primer.Heap.Table
import Primer.Value

namespace Primer

/-- Variables and their values, inside the frame they were made in. -/
structure Frame where
  bindings : Table String Value
  /-- the enclosing frame -/
  parent : Option FrameId

/-- A value assigned to an entry of a literal, and the span of the expression it came from. -/
structure Assigned where
  span : Span
  value : Value

/-- The assigned value as trees show it. -/
def Assigned.embedded (a : Assigned) : Embedded := ⟨a.span, a.value.text⟩

/-- The changeable part of a running program. -/
structure Heap where
  frames : Array Frame
  /-- what was assigned to the objects, by label -/
  properties : Table Label (List (Property Assigned))
  /-- what was assigned to the arrays, by label; a slot holding `none` is as written -/
  slots : Table Label (List (Option Assigned))
  nextLabel : Label

namespace Heap

/-- A heap with a single frame, which is empty and has no parent. -/
def empty : Heap := ⟨#[⟨[], none⟩], [], [], 0⟩

/-- The frame of the empty heap. -/
def root : FrameId := 0

/-- Labels a program for a run on this heap. -/
def load {ι : Type} (h : Heap) (p : Program ι) : Program Label × Heap :=
  let (p, next) := p.label h.nextLabel
  (p, { h with nextLabel := next })

/-- What has been assigned to literals, as trees show it. -/
def overlay (h : Heap) : Overlay Label where
  properties label := ((h.properties.get? label).getD []).map (·.map Assigned.embedded)
  slots label := ((h.slots.get? label).getD []).map (·.map Assigned.embedded)

end Heap

end Primer
