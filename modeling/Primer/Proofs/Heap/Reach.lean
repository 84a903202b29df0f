/-
  Primer/Proofs/Heap/Reach.lean
  =============================
  **What can be got at from a location in a heap.**

  The locations that a program can change are the frames and the lists of entries of its literals.
  A frame leads to the frame around it and to what its variables hold; a list leads to what its
  entries hold, as they are now.  What a value holds is the location that it stands for; a function
  holds the frame that it was made in and the literals in its body, and an expression that was
  written into a list holds the literals in it.

  A `Region` is a set of locations, to which frames are added as they are made.  It is closed in a
  heap when nothing in it leads out of it.  The reachable locations are the least closed region, and
  every change that stays within a closed region (one of its frames is given a value from it, one of
  its lists an entry from it, a frame is made inside one of its frames) leaves it closed and leaves
  all that is outside as it was (`Region.Spares`).
-/
import Mathlib.Data.Set.Basic
import Primer.Proofs.Heap.Entries

namespace Primer

/-! ### Locations -/

/-- Something that a running program can change. -/
inductive Location where
  | frame (f : FrameId)
  /-- the list of an object -/
  | object (label : Label) (written : List (Property (Option (Expr Label))))
  /-- the list of an array -/
  | array (label : Label) (written : List (Expr Label))

/-- The location is the list of an object or array. -/
def Location.IsList : Location → Prop
  | .frame _ => False
  | _ => True

/-- The expressions that were written into a list. -/
def Location.written : Location → List (Expr Label)
  | .frame _ => []
  | .object _ written => written.map Property.expr
  | .array _ written => written

mutual

/-- The literals in an expression, in bodies of functions too, but not those inside of another
literal. -/
def Expr.literals : Expr Label → List Location
  | .ident .. => []
  | .str .. => []
  | .int .. => []
  | .bool .. => []
  | .unary _ _ e => e.literals
  | .binary _ _ left right => left.literals ++ right.literals
  | .cond _ condition consequence none => condition.literals ++ consequence.literals
  | .cond _ condition consequence (some alternative) =>
    condition.literals ++ consequence.literals ++ alternative.literals
  | .function _ fn => fn.literals
  | .call _ callee args => callee.literals ++ literalsOfExprs args
  | .index _ container key => container.literals ++ key.literals
  | .assign _ target value => target.literals ++ value.literals
  | .object _ label properties => [.object label properties]
  | .array _ label elements => [.array label elements]

def Stmt.literals : Stmt Label → List Location
  | .declare _ _ _ none => []
  | .declare _ _ _ (some value) => value.literals
  | .function _ _ fn => fn.literals
  | .ret _ value => value.literals
  | .expr _ value => value.literals

def Block.literals : Block Label → List Location
  | ⟨_, statements⟩ => literalsOfStmts statements

def Function.literals : Function Label → List Location
  | ⟨_, _, _, _, body⟩ => body.literals

def literalsOfExprs : List (Expr Label) → List Location
  | [] => []
  | e :: es => e.literals ++ literalsOfExprs es

def literalsOfStmts : List (Stmt Label) → List Location
  | [] => []
  | x :: xs => x.literals ++ literalsOfStmts xs

end

theorem Function.literals_eq (fn : Function Label) : fn.literals = fn.body.literals := by
  cases fn
  rw [Function.literals]

namespace Value

/-- The locations that a value stands for. -/
def locations : Value → List Location
  | .returned v => v.locations
  | .closure fn frame => .frame frame :: fn.literals
  | .object label properties => [.object label properties]
  | .array label elements => [.array label elements]
  | _ => []

@[simp] theorem locations_unwrap (v : Value) : v.unwrap.locations = v.locations := by
  cases v <;> rfl

end Value

/-! ### Reachable locations -/

namespace Heap

/-- One location leads to another. -/
inductive Leads (h : Heap) : Location → Location → Prop where
  | enclosing {f g : FrameId} (hparent : h.parent? f = some g) : Leads h (.frame f) (.frame g)
  | binding {f : FrameId} {b : String × Value} {q : Location} (hb : b ∈ h.bindings f)
      (hq : q ∈ b.2.locations) : Leads h (.frame f) q
  /-- an entry of an object that is still as it was written -/
  | entry {label written c e q} (hc : c ∈ h.objectCells label written)
      (he : c.value = .written (some e)) (hq : q ∈ e.literals) : Leads h (.object label written) q
  | assignedEntry {label written p q} (hp : p ∈ h.assignedProperties label)
      (hq : q ∈ p.value.value.locations) : Leads h (.object label written) q
  /-- an element of an array that is still as it was written -/
  | element {label written e q} (he : .written e ∈ h.arrayCells label written)
      (hq : q ∈ e.literals) : Leads h (.array label written) q
  | assignedElement {label written a q} (ha : some a ∈ h.assignedSlots label)
      (hq : q ∈ a.value.locations) : Leads h (.array label written) q

/-- A heap with the same entries, in which no frame has more, leads no further. -/
theorem Leads.mono {h h' : Heap} {q r : Location} (hstep : h.Leads q r)
    (hproperties : h.properties = h'.properties) (hslots : h.slots = h'.slots)
    (hparent : ∀ f g, h.parent? f = some g → h'.parent? f = some g)
    (hbindings : ∀ f, h.bindings f ⊆ h'.bindings f) : h'.Leads q r := by
  obtain ⟨frames, properties, slots, next⟩ := h
  obtain ⟨frames', properties', slots', next'⟩ := h'
  cases hproperties
  cases hslots
  cases hstep with
  | enclosing h => exact .enclosing (hparent _ _ h)
  | binding hb hq => exact .binding (hbindings _ hb) hq
  | entry hc he hq => exact .entry hc he hq
  | assignedEntry hr hq => exact .assignedEntry hr hq
  | element he hq => exact .element he hq
  | assignedElement ha hq => exact .assignedElement ha hq

/-- The locations that can be reached from others. -/
def Reaches (h : Heap) (roots : Set Location) : Set Location :=
  {q | ∃ p ∈ roots, Relation.ReflTransGen h.Leads p q}

variable {h : Heap} {roots : Set Location} {p q : Location}

theorem subset_reaches (hq : q ∈ roots) : q ∈ h.Reaches roots := ⟨q, hq, .refl⟩

theorem Reaches.step (hp : p ∈ h.Reaches roots) (hstep : h.Leads p q) : q ∈ h.Reaches roots := by
  obtain ⟨r, hr, hpath⟩ := hp
  exact ⟨r, hr, hpath.tail hstep⟩

/-- A set that nothing leads out of has all that can be reached from it. -/
theorem Reaches.of_closed {area : Set Location} (hroots : ∀ p ∈ roots, p ∈ area)
    (hclosed : ∀ {p q}, p ∈ area → h.Leads p q → q ∈ area) (hq : q ∈ h.Reaches roots) :
    q ∈ area := by
  obtain ⟨p, hp, hpath⟩ := hq
  induction hpath with
  | refl => exact hroots p hp
  | tail _ hstep ih => exact hclosed ih hstep

end Heap

/-! ### Regions -/

/-- A set of locations; frames from number `size` on belong to it as soon as they are made. -/
structure Region where
  locations : Set Location
  size : Nat

namespace Region

/-- What belongs to the region in a heap. -/
def area (N : Region) (h : Heap) : Set Location :=
  {q | q ∈ N.locations ∨ ∃ f, q = .frame f ∧ N.size ≤ f ∧ f < h.frames.size}

/-- Nothing in the region leads out of it.  If it has no frame that is yet to be made, then the
frames that are added to it are younger than those around them. -/
structure Closed (N : Region) (h : Heap) : Prop where
  size_le : N.size ≤ h.frames.size
  closed : ∀ {p q}, p ∈ N.area h → h.Leads p q → q ∈ N.area h
  older : (∀ f, .frame f ∈ N.locations → f < N.size) →
    ∀ f g, N.size ≤ f → h.parent? f = some g → g < f

/-- The second heap is as the first outside of the region. -/
structure Spares (N : Region) (h h' : Heap) : Prop where
  size_le : h.frames.size ≤ h'.frames.size
  frames : ∀ f, f < N.size → .frame f ∉ N.locations → h'.frames[f]? = h.frames[f]?
  properties : ∀ label, (∀ written, .object label written ∉ N.locations) →
    h'.properties.get? label = h.properties.get? label
  slots : ∀ label, (∀ written, .array label written ∉ N.locations) →
    h'.slots.get? label = h.slots.get? label

variable {N : Region} {h h' h'' : Heap} {p q : Location}

/-- Lists belong to a region once and for all. -/
theorem mem_locations_of_isList (hlist : q.IsList) (hq : q ∈ N.area h) : q ∈ N.locations := by
  rcases hq with hq | ⟨f, rfl, -⟩
  · exact hq
  · exact absurd hlist id

theorem Spares.refl (N : Region) (h : Heap) : N.Spares h h :=
  ⟨Nat.le_refl _, fun _ _ _ => rfl, fun _ _ => rfl, fun _ _ => rfl⟩

theorem Spares.trans (hs : N.Spares h h') (hs' : N.Spares h' h'') : N.Spares h h'' where
  size_le := Nat.le_trans hs.size_le hs'.size_le
  frames f hf hout := (hs'.frames f hf hout).trans (hs.frames f hf hout)
  properties label hout := (hs'.properties label hout).trans (hs.properties label hout)
  slots label hout := (hs'.slots label hout).trans (hs.slots label hout)

/-- A region never loses a location. -/
theorem Spares.area_subset (hs : N.Spares h h') (hq : q ∈ N.area h) : q ∈ N.area h' := by
  rcases hq with hq | ⟨f, rfl, hle, hlt⟩
  · exact .inl hq
  · exact .inr ⟨f, rfl, hle, Nat.lt_of_lt_of_le hlt hs.size_le⟩

/-- The locations that can be reached from some, with the frames that are yet to be made. -/
def reachable (h : Heap) (roots : Set Location) : Region := ⟨h.Reaches roots, h.frames.size⟩

theorem reachable_closed (h : Heap) (roots : Set Location) : (reachable h roots).Closed h where
  size_le := Nat.le_refl _
  closed := by
    intro p q hp hstep
    rcases hp with hp | ⟨f, -, hle, hlt⟩
    · exact .inl (Heap.Reaches.step hp hstep)
    · exact absurd hlt (Nat.not_lt.2 hle)
  older _ f g hf hparent := by
    have hnone : h.frames[f]? = none := Array.getElem?_eq_none hf
    simp [Heap.parent?, hnone] at hparent

namespace Closed

variable (hN : N.Closed h)
include hN

/-- What can be reached from within a closed region belongs to it. -/
theorem reaches {roots : Set Location} (hroots : ∀ p ∈ roots, p ∈ N.area h)
    (hq : q ∈ h.Reaches roots) : q ∈ N.area h :=
  Heap.Reaches.of_closed hroots hN.closed hq

/-! ### Looking at a region -/

theorem chain {f g : FrameId} (hf : .frame f ∈ N.area h) (hg : g ∈ h.chain f) :
    .frame g ∈ N.area h := by
  have hpath := Heap.mem_chain hg
  clear hg
  induction hpath with
  | refl => exact hf
  | tail _ hparent ih => exact hN.closed ih (.enclosing hparent)

theorem lookup {f : FrameId} {name : String} {v : Value} (hf : .frame f ∈ N.area h)
    (heq : h.lookup f name = .ok v) : ∀ q ∈ v.locations, q ∈ N.area h := by
  obtain ⟨g, hg, hb⟩ := Heap.lookup_ok heq
  intro q hq
  exact hN.closed (hN.chain hf hg) (.binding hb hq)

/-- An entry that is read as it was written is an expression of the list, and the literals in it
belong to the region. -/
theorem read_written {c k : Value} {e : Expr Label} (hc : ∀ q ∈ c.locations, q ∈ N.area h)
    (heq : h.read c k = .ok (some (.written e))) :
    (∃ p ∈ N.locations, e ∈ p.written) ∧ ∀ q ∈ e.literals, q ∈ N.area h := by
  rcases Heap.read_written heq with
    ⟨label, written, key, p, rfl, hp, rfl, hnone⟩ | ⟨label, written, i, rfl, he, hslot⟩
  · have hlist : .object label written ∈ N.area h := hc _ (List.mem_singleton_self _)
    have hmember : .object label written ∈ N.locations := mem_locations_of_isList (by trivial) hlist
    have hmem : p ∈ written := List.mem_of_find?_eq_some hp
    refine ⟨⟨_, hmember, List.mem_map_of_mem hmem⟩, ?_⟩
    intro q hq
    have hstands := Heap.written_mem_objectCells hp hnone
    cases hvalue : p.value with
    | none =>
      -- a key alone stands for a name
      simp [Property.expr, hvalue, Expr.literals] at hq
    | some e =>
      rw [Property.expr, hvalue, Option.getD_some] at hq
      exact hN.closed hlist (.entry hstands (congrArg Cell.written hvalue) hq)
  · have hlist : .array label written ∈ N.area h := hc _ (List.mem_singleton_self _)
    have hmember : .array label written ∈ N.locations := mem_locations_of_isList (by trivial) hlist
    refine ⟨⟨_, hmember, List.mem_of_getElem? he⟩, ?_⟩
    intro q hq
    exact hN.closed hlist (.element (Heap.written_mem_arrayCells he hslot) hq)

theorem read_assigned {c k v : Value} (hc : ∀ q ∈ c.locations, q ∈ N.area h)
    (heq : h.read c k = .ok (some (.assigned v))) : ∀ q ∈ v.locations, q ∈ N.area h := by
  intro q hq
  rcases Heap.read_assigned heq with
    ⟨label, written, p, rfl, hp, rfl⟩ | ⟨label, written, a, rfl, ha, rfl⟩
  · exact hN.closed (hc _ (List.mem_singleton_self _)) (.assignedEntry hp hq)
  · exact hN.closed (hc _ (List.mem_singleton_self _))
      (.assignedElement (Heap.mem_assignedSlots ha) hq)

/-! ### Changing a region -/

theorem newFrame {parent : FrameId} (hparent : .frame parent ∈ N.area h) :
    N.Closed (h.newFrame parent).2 ∧ N.Spares h (h.newFrame parent).2 ∧
      .frame (h.newFrame parent).1 ∈ N.area (h.newFrame parent).2 := by
  have hspares : N.Spares h (h.newFrame parent).2 := by
    refine ⟨by simp, ?_, fun _ _ => rfl, fun _ _ => rfl⟩
    intro f hf _
    exact Heap.frames_newFrame_of_lt (Nat.lt_of_lt_of_le hf hN.size_le)
  refine ⟨⟨?_, ?_, ?_⟩, hspares, ?_⟩
  · exact Nat.le_trans hN.size_le hspares.size_le
  · intro p q hp hstep
    -- the new frame leads to the one around it and nowhere else
    by_cases hnew : p = .frame h.frames.size
    · subst hnew
      cases hstep with
      | enclosing hstep =>
        rw [Heap.parent?_newFrame, if_pos rfl] at hstep
        cases hstep
        exact hspares.area_subset hparent
      | binding hb hq =>
        rw [Heap.bindings_newFrame] at hb
        simp [Heap.bindings] at hb
    · have hold : p ∈ N.area h := by
        rcases hp with hp | ⟨f, rfl, hle, hlt⟩
        · exact .inl hp
        · rw [Heap.size_newFrame] at hlt
          have hne : f ≠ h.frames.size := fun heq => hnew (congrArg Location.frame heq)
          exact .inr ⟨f, rfl, hle, Nat.lt_of_le_of_ne (Nat.le_of_lt_succ hlt) hne⟩
      have hstep' : h.Leads p q := by
        cases hstep with
        | enclosing hstep =>
          have hne := fun heq => hnew (congrArg Location.frame heq)
          rw [Heap.parent?_newFrame, if_neg hne] at hstep
          exact .enclosing hstep
        | binding hb hq =>
          rw [Heap.bindings_newFrame] at hb
          exact .binding hb hq
        | entry hc he hq => exact .entry hc he hq
        | assignedEntry hr hq => exact .assignedEntry hr hq
        | element he hq => exact .element he hq
        | assignedElement ha hq => exact .assignedElement ha hq
      exact hspares.area_subset (hN.closed hold hstep')
  · intro hbounded f g hf hg
    rw [Heap.parent?_newFrame] at hg
    split at hg
    next hnew =>
      cases hg
      subst hnew
      rcases hparent with hparent | ⟨f, heq, -, hlt⟩
      · exact Nat.lt_of_lt_of_le (hbounded parent hparent) hN.size_le
      · cases heq
        exact hlt
    next => exact hN.older hbounded f g hf hg
  · exact .inr ⟨h.frames.size, rfl, hN.size_le, by simp⟩

/-- A change that makes no frame keeps a region closed if whatever leads elsewhere afterwards leads
into the region. -/
theorem of_leads (hspares : N.Spares h h') (hsize : h'.frames.size = h.frames.size)
    (hparent : ∀ f, h'.parent? f = h.parent? f)
    (hleads : ∀ {p q}, p ∈ N.area h → h'.Leads p q → h.Leads p q ∨ q ∈ N.area h) : N.Closed h' where
  size_le := Nat.le_trans hN.size_le hspares.size_le
  closed := by
    intro p q hp hstep
    have hp' : p ∈ N.area h := by
      rcases hp with hp | ⟨f, rfl, hle, hlt⟩
      · exact .inl hp
      · exact .inr ⟨f, rfl, hle, hsize ▸ hlt⟩
    apply hspares.area_subset
    rcases hleads hp' hstep with hstep' | hq
    · exact hN.closed hp' hstep'
    · exact hq
  older hbounded f g hf hg := hN.older hbounded f g hf (hparent f ▸ hg)

theorem bindIn {f : FrameId} (hf : .frame f ∈ N.area h) (name : String) {v : Value}
    (hv : ∀ q ∈ v.locations, q ∈ N.area h) :
    N.Closed (h.bindIn f name v) ∧ N.Spares h (h.bindIn f name v) := by
  have hspares : N.Spares h (h.bindIn f name v) := by
    refine ⟨by simp, ?_, fun _ _ => rfl, fun _ _ => rfl⟩
    intro g hg hout
    apply Heap.frames_bindIn_of_ne
    rintro rfl
    rcases hf with hf | ⟨f', heq, hle, -⟩
    · exact hout hf
    · cases heq
      omega
  refine ⟨hN.of_leads hspares (by simp) (by simp) ?_, hspares⟩
  intro p q _ hstep
  cases hstep with
  | enclosing hstep =>
    rw [Heap.parent?_bindIn] at hstep
    exact .inl (.enclosing hstep)
  | binding hb hq =>
    rcases Heap.mem_bindings_bindIn hb with rfl | hb
    · exact .inr (hv q hq)
    · exact .inl (.binding hb hq)
  | entry hc he hq => exact .inl (.entry hc he hq)
  | assignedEntry hp hq => exact .inl (.assignedEntry hp hq)
  | element he hq => exact .inl (.element he hq)
  | assignedElement ha hq => exact .inl (.assignedElement ha hq)

theorem setProperty {label : Label} {written : List (Property (Option (Expr Label)))}
    (hlist : .object label written ∈ N.locations) {p : Property Assigned}
    (hp : ∀ q ∈ p.value.value.locations, q ∈ N.area h) :
    N.Closed (h.setProperty label p) ∧ N.Spares h (h.setProperty label p) := by
  have hspares : N.Spares h (h.setProperty label p) := by
    refine ⟨Nat.le_refl _, fun _ _ _ => rfl, ?_, fun _ _ => rfl⟩
    intro l hout
    apply Heap.properties_setProperty_of_ne
    rintro rfl
    exact hout written hlist
  refine ⟨hN.of_leads hspares rfl (fun _ => rfl) ?_, hspares⟩
  intro r q _ hstep
  cases hstep with
  | enclosing hstep => exact .inl (.enclosing hstep)
  | binding hb hq => exact .inl (.binding hb hq)
  | entry hc he hq =>
    obtain ⟨c', hc', he'⟩ := (Heap.objectCells_setProperty _ p _).exists_written hc he
    exact .inl (.entry hc' he' hq)
  | @assignedEntry l _ r q hr hq =>
    by_cases hl : l = label
    · subst hl
      rw [Heap.assignedProperties_setProperty] at hr
      rcases Property.mem_of_mem_put hr with heq | hr
      · rw [heq] at hq
        exact .inr (hp q hq)
      · exact .inl (.assignedEntry hr hq)
    · unfold Heap.assignedProperties at hr
      rw [Heap.properties_setProperty_of_ne hl] at hr
      exact .inl (.assignedEntry hr hq)
  | element he hq => exact .inl (.element he hq)
  | assignedElement ha hq => exact .inl (.assignedElement ha hq)

theorem setElement {label : Label} {written : List (Expr Label)}
    (hlist : .array label written ∈ N.locations) (i : Nat) {a : Assigned}
    (ha : ∀ q ∈ a.value.locations, q ∈ N.area h) :
    N.Closed (h.setElement label written i a) ∧ N.Spares h (h.setElement label written i a) := by
  have hspares : N.Spares h (h.setElement label written i a) := by
    refine ⟨Nat.le_refl _, fun _ _ _ => rfl, fun _ _ => rfl, ?_⟩
    intro l hout
    apply Heap.slots_setElement_of_ne
    rintro rfl
    exact hout written hlist
  refine ⟨hN.of_leads hspares rfl (fun _ => rfl) ?_, hspares⟩
  intro r q _ hstep
  cases hstep with
  | enclosing hstep => exact .inl (.enclosing hstep)
  | binding hb hq => exact .inl (.binding hb hq)
  | entry hc he hq => exact .inl (.entry hc he hq)
  | assignedEntry hp hq => exact .inl (.assignedEntry hp hq)
  | element he hq =>
    exact .inl (.element ((Heap.arrayCells_setElement _ written i _).mem_written he) hq)
  | @assignedElement l _ b q hb hq =>
    unfold Heap.assignedSlots at hb
    by_cases hl : l = label
    · subst hl
      rw [Heap.slots_setElement] at hb
      rcases mem_of_mem_putSlot hb with rfl | rfl | hb
      · exact .inr (ha q hq)
      · exact absurd hq List.not_mem_nil
      · exact .inl (.assignedElement (Heap.mem_assignedSlots hb) hq)
    · rw [Heap.slots_setElement_of_ne hl] at hb
      exact .inl (.assignedElement hb hq)

theorem declare {f : FrameId} (hf : .frame f ∈ N.area h) {name : String} {v : Value}
    (hv : ∀ q ∈ v.locations, q ∈ N.area h) (heq : h.declare f name v = .ok h') :
    N.Closed h' ∧ N.Spares h h' := by
  obtain ⟨-, rfl⟩ := Heap.declare_ok heq
  exact hN.bindIn hf name hv

theorem assign {f : FrameId} (hf : .frame f ∈ N.area h) {name : String} {v : Value}
    (hv : ∀ q ∈ v.locations, q ∈ N.area h) (heq : h.assign f name v = .ok h') :
    N.Closed h' ∧ N.Spares h h' := by
  obtain ⟨g, hg, -, rfl⟩ := Heap.assign_ok heq
  exact hN.bindIn (hN.chain hf hg) name hv

theorem write {c k : Value} (hc : ∀ q ∈ c.locations, q ∈ N.area h) {a : Assigned}
    (ha : ∀ q ∈ a.value.locations, q ∈ N.area h) {span keySpan : Span}
    (heq : h.write c k a span keySpan = .ok h') : N.Closed h' ∧ N.Spares h h' := by
  rcases Heap.write_ok heq with
    ⟨label, written, key, rfl, -, rfl⟩ | ⟨label, written, i, rfl, -, -, -, rfl⟩
  · have hlist : .object label written ∈ N.area h := hc _ (List.mem_singleton_self _)
    exact hN.setProperty (mem_locations_of_isList (by trivial) hlist) ha
  · have hlist : .array label written ∈ N.area h := hc _ (List.mem_singleton_self _)
    exact hN.setElement (mem_locations_of_isList (by trivial) hlist) i.toNat ha

end Closed

end Region

end Primer
