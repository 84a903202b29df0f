/-
  Primer/Heap/Literal.lean
  ========================
  **Entries of object and array literals.**

  An entry is as written until something is assigned to it.  Reading finds what was
  assigned first and what was written next; writing records what is assigned under the
  literal's label and leaves the literal alone.
-/
import Primer.Heap.Basic
import Primer.RuntimeError

namespace Primer

/-- An entry of a literal. -/
inductive Entry where
  /-- an expression of the literal, which is evaluated whenever it is read -/
  | written (expr : Expr Label)
  | assigned (value : Value)

/-- The expression that an entry of an object stands for; a key alone stands for the
variable of that name. -/
def Property.expr {ι : Type} (p : Property (Option (Expr ι))) : Expr ι :=
  p.value.getD (.ident p.key.span p.key.name)

/-- How many slots past its end an assignment may add to an array, besides its own. -/
def maxPadding : Nat := 65536

namespace Heap

/-! ### Objects -/

/-- What has been assigned to an object, in the order of the first assignments. -/
def assignedProperties (h : Heap) (label : Label) : List (Property Assigned) :=
  (h.properties.get? label).getD []

/-- The entry of a key. -/
def property? (h : Heap) (label : Label) (written : List (Property (Option (Expr Label))))
    (key : String) : Option Entry :=
  match Property.find? (h.assignedProperties label) key with
  | some p => some (.assigned p.value.value)
  | none => (Property.find? written key).map (.written ·.expr)

/-- Assigns to the entry of a key. -/
@[inline] def setProperty (h : Heap) (label : Label) (p : Property Assigned) : Heap :=
  { h with properties := h.properties.set label (Property.put (h.assignedProperties label) p) }

/-! ### Arrays -/

/-- The slots of an array; at first there is one for each element, as written. -/
def arraySlots (h : Heap) (label : Label) (written : List (Expr Label)) : List (Option Assigned) :=
  (h.slots.get? label).getD (List.replicate written.length none)

/-- The entry at an index. -/
def element? (h : Heap) (label : Label) (written : List (Expr Label)) (i : Nat) : Option Entry :=
  match (h.arraySlots label written)[i]? with
  | some (some a) => some (.assigned a.value)
  | some none => written[i]?.map .written
  | none => none

/-- Assigns to an index. Slots that are missing before it become `undefined`. -/
@[inline] def setElement (h : Heap) (label : Label) (written : List (Expr Label)) (i : Nat) (a : Assigned) :
    Heap :=
  let slots := putSlot (h.arraySlots label written) i ⟨a.span, .undefined⟩ a
  { h with slots := h.slots.set label slots }

/-! ### Values as containers -/

/-- The entry that `container[key]` reads; `none` where there is no such entry. -/
def read (h : Heap) : Value → Value → Except RuntimeError (Option Entry)
  | .object label written, .string key => .ok (h.property? label written key)
  | .object .., key => .error (.invalidObjectKey key.kindName)
  | .array label written, .integer i =>
    .ok (if 0 ≤ i then h.element? label written i.toNat else none)
  | .array .., key => .error (.invalidArrayIndex key.kindName)
  | container, _ => .error (.notIndexable container.kindName)

/-- Assigns `a` to `container[key]`. An object's new entry gets `span` and the span of its
key, `keySpan`. -/
@[inline] def write (h : Heap) (container key : Value) (a : Assigned) (span keySpan : Span) :
    Except RuntimeError Heap :=
  match container, key with
  | .object label _, .string name => .ok (h.setProperty label ⟨span, ⟨keySpan, name⟩, a⟩)
  | .object .., _ => .error (.invalidObjectKey key.kindName)
  | .array label written, .integer i =>
    let length := (h.arraySlots label written).length
    if i < 0 then .error (.negativeArrayIndex i)
    else if length + maxPadding < i.toNat then .error (.arrayIndexOutOfBounds i length)
    else .ok (h.setElement label written i.toNat a)
  | .array .., _ => .error (.invalidArrayIndex key.kindName)
  | _, _ => .error (.notIndexable container.kindName)

end Heap

end Primer
