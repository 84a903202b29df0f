/-
  Primer/Tree/Overlay.lean
  ========================
  **What assignments have written over the literals of a tree.**

  Assigning to an entry of an object or array does not change the tree; it is recorded
  under the literal's label.  An `Overlay` is that record in the form in which trees
  are shown, and `Property.overwrite` and `overwriteSlots` lay it over the entries that
  stand in the tree: an assigned entry takes the place of the first written one of the
  same key or index, and new entries follow the written ones.
-/
import Primer.Tree

namespace Primer

/-! ### Entries of objects -/

namespace Property

variable {β γ : Type}

def map (f : β → γ) (p : Property β) : Property γ := ⟨p.span, p.key, f p.value⟩

/-- Puts `p` into a list of entries: its value replaces that of the first entry of the same
key, or else it becomes the last entry. -/
def put : List (Property β) → Property β → List (Property β)
  | [], p => [p]
  | q :: qs, p => if q.key.name = p.key.name then { q with value := p.value } :: qs else q :: put qs p

/-- The entries after every one of `edits` has been put into them. -/
def overwrite (written edits : List (Property β)) : List (Property β) := edits.foldl put written

/-- The first entry of a key. -/
def find? (ps : List (Property β)) (key : String) : Option (Property β) :=
  List.find? (·.key.name = key) ps

end Property

/-! ### Slots of arrays -/

/-- Lays assigned slots over the elements of an array; a slot holding `none` leaves the
element as it is. -/
def overwriteSlots {β : Type} : List β → List (Option β) → List β
  | xs, [] => xs
  | _ :: xs, some y :: slots => y :: overwriteSlots xs slots
  | x :: xs, none :: slots => x :: overwriteSlots xs slots
  | [], some y :: slots => y :: overwriteSlots [] slots
  | [], none :: slots => overwriteSlots [] slots

/-- Writes `x` into slot `i`; slots that are missing before it are filled with `fill`. -/
def putSlot {β : Type} (slots : List (Option β)) (i : Nat) (fill x : β) : List (Option β) :=
  if i < slots.length then
    slots.set i (some x)
  else
    slots ++ List.replicate (i - slots.length) (some fill) ++ [some x]

/-! ### Overlays -/

/-- An assigned value, as a tree shows it: the text of the value, and the span of the
expression that it came from. -/
structure Embedded where
  span : Span
  text : String
deriving DecidableEq, Repr

/-- What has been assigned to the literals of a tree. -/
structure Overlay (ι : Type) where
  properties : ι → List (Property Embedded)
  slots : ι → List (Option Embedded)

/-- The overlay of a tree that nothing has been assigned to. -/
def Overlay.none {ι : Type} : Overlay ι := ⟨fun _ => [], fun _ => []⟩

@[simp] theorem Property.overwrite_nil {β : Type} (ps : List (Property β)) :
    Property.overwrite ps [] = ps := rfl

@[simp] theorem overwriteSlots_nil {β : Type} (xs : List β) : overwriteSlots xs [] = xs := by
  cases xs <;> rfl

end Primer
