/-
  Primer/Proofs/Heap/Renaming.lean
  ================================
  **Heaps that cannot be told apart from certain locations.**

  Two heaps agree on a set of locations if whatever is found there is the same in both: the
  variables of a frame and the frame around it, the entries of an object and what has been assigned
  to each, the slots of an array.  What is outside of the set does not matter.  The second heap may
  have its frames under other numbers, and then values are the same up to these (`Value.rename`).

  Along a `Region.Renaming` the frames of a closed region keep their order, and those that are made
  from now on are numbered in the order in which they are made.  Then every operation within the
  region finds the same in both heaps, and leaves heaps that agree on the region again
  (`Region.Renaming.Twin`).
-/
import Mathlib.Data.List.Find
import Primer.Proofs.Heap.Reach

namespace Primer

/-! ### Values under other numbers of frames -/

/-- The value, with its frames under other numbers. -/
def Value.rename (ρ : Nat → Nat) : Value → Value
  | .returned v => .returned (v.rename ρ)
  | .closure fn frame => .closure fn (ρ frame)
  | v => v

def Assigned.rename (ρ : Nat → Nat) (a : Assigned) : Assigned := ⟨a.span, a.value.rename ρ⟩

def Entry.rename (ρ : Nat → Nat) : Entry → Entry
  | .written e => .written e
  | .assigned v => .assigned (v.rename ρ)

namespace Value

variable (ρ : Nat → Nat) (v : Value)

@[simp] theorem isTruthy_rename : (v.rename ρ).isTruthy = v.isTruthy := by
  cases v <;> rfl

@[simp] theorem isReturned_rename : (v.rename ρ).isReturned = v.isReturned := by
  cases v <;> rfl

@[simp] theorem unwrap_rename : (v.rename ρ).unwrap = v.unwrap.rename ρ := by
  cases v <;> rfl

/-- Only the numbers of the frames that a value stands for matter. -/
theorem rename_congr {σ : Nat → Nat} (h : ∀ f : Nat, .frame f ∈ v.locations → ρ f = σ f) :
    v.rename ρ = v.rename σ := by
  induction v with
  | returned v ih => exact congrArg returned (ih h)
  | closure fn f => exact congrArg (closure fn) (h f List.mem_cons_self)
  | _ => rfl

@[simp] theorem rename_id : v.rename id = v := by
  induction v with
  | returned v ih => exact congrArg returned ih
  | _ => rfl

theorem rename_eq_integer {n : Int} : v.rename ρ = .integer n ↔ v = .integer n := by
  cases v <;> simp [rename]

/-- A value that stands for no location is the same under any numbers. -/
theorem rename_of_locations (h : v.locations = []) : v.rename ρ = v := by
  induction v with
  | returned v ih => exact congrArg returned (ih h)
  | closure => exact absurd h (List.cons_ne_nil _ _)
  | _ => rfl

end Value

@[simp] theorem Assigned.rename_id (a : Assigned) : a.rename id = a :=
  congrArg (Assigned.mk a.span) a.value.rename_id

/-! ### Agreement -/

/-- Entries without their values. -/
def Property.heads {β : Type} (ps : List (Property β)) : List (Property Unit) :=
  ps.map (Property.map fun _ => ())

namespace Heap

/-- The entries of an object as it is now, in order, without their values. -/
def objectHeads (h : Heap) (label : Label) (written : List (Property (Option (Expr Label)))) :
    List (Property Unit) :=
  Property.heads (h.objectCells label written)

/-- What has been assigned to the entry of a key. -/
def assigned? (h : Heap) (label : Label) (key : String) : Option Assigned :=
  (Property.find? (h.assignedProperties label) key).map (·.value)

/-- What is found at these locations is the same in both heaps; frame `f` of the first is frame
`ρ f` of the second. -/
structure Agree (ρ : Nat → Nat) (area : Set Location) (h h' : Heap) : Prop where
  there : ∀ {f : Nat}, .frame f ∈ area → f < h.frames.size ∧ ρ f < h'.frames.size
  parent : ∀ {f : Nat}, .frame f ∈ area → h'.parent? (ρ f) = (h.parent? f).map ρ
  bound : ∀ {f : Nat}, .frame f ∈ area →
    ∀ name, h'.own? (ρ f) name = (h.own? f name).map (·.rename ρ)
  heads : ∀ {label written}, .object label written ∈ area →
    h'.objectHeads label written = h.objectHeads label written
  entries : ∀ {label written}, .object label written ∈ area →
    ∀ key, h'.assigned? label key = (h.assigned? label key).map (·.rename ρ)
  slots : ∀ {label written}, .array label written ∈ area →
    h'.arraySlots label written = (h.arraySlots label written).map (Option.map (·.rename ρ))

theorem Agree.subset {ρ : Nat → Nat} {area area' : Set Location} {h h' : Heap}
    (hagree : Agree ρ area h h') (hsub : ∀ q ∈ area', q ∈ area) : Agree ρ area' h h' where
  there hf := hagree.there (hsub _ hf)
  parent hf := hagree.parent (hsub _ hf)
  bound hf := hagree.bound (hsub _ hf)
  heads hl := hagree.heads (hsub _ hl)
  entries hl := hagree.entries (hsub _ hl)
  slots hl := hagree.slots (hsub _ hl)

/-- On locations that nothing leads out of, only the numbers of their own frames matter. -/
theorem Agree.congr {ρ σ : Nat → Nat} {area : Set Location} {h h' : Heap}
    (hagree : Agree σ area h h') (hclosed : ∀ {p q}, p ∈ area → h.Leads p q → q ∈ area)
    (heq : ∀ f : Nat, .frame f ∈ area → ρ f = σ f) : Agree ρ area h h' := by
  have hvalue {p : Location} {v : Value} (hp : p ∈ area) (hv : ∀ q ∈ v.locations, h.Leads p q) :
      v.rename σ = v.rename ρ :=
    v.rename_congr σ fun f hf => (heq f (hclosed hp (hv _ hf))).symm
  refine ⟨fun hf => ?_, fun hf => ?_, fun hf name => ?_, hagree.heads, fun hl key => ?_,
    fun hl => ?_⟩
  · rw [heq _ hf]
    exact hagree.there hf
  · rw [heq _ hf, hagree.parent hf]
    apply Option.map_congr
    intro g hg
    exact (heq g (hclosed hf (.enclosing hg))).symm
  · rw [heq _ hf, hagree.bound hf]
    apply Option.map_congr
    intro v hv
    exact hvalue hf fun q hq => .binding (Table.mem_of_get? hv) hq
  · rw [hagree.entries hl]
    apply Option.map_congr
    intro a ha
    obtain ⟨p, hp, rfl⟩ := Option.map_eq_some_iff.1 ha
    have hmem := List.mem_of_find?_eq_some hp
    exact congrArg (Assigned.mk _) (hvalue hl fun q hq => .assignedEntry hmem hq)
  · rw [hagree.slots hl]
    apply List.map_congr_left
    intro slot hslot
    apply Option.map_congr
    rintro a rfl
    exact congrArg (Assigned.mk _)
      (hvalue hl fun q hq => .assignedElement (mem_assignedSlots hslot) hq)

/-- A variable of another frame makes no difference. -/
theorem Agree.of_bindIn {area : Set Location} {h : Heap} {g : Nat}
    (hthere : ∀ f : Nat, .frame f ∈ area → f < h.frames.size) (hg : .frame g ∉ area)
    (name : String) (v : Value) : Agree id area h (h.bindIn g name v) := by
  refine ⟨fun hf => ?_, fun hf => ?_, fun hf n => ?_, fun _ => rfl, fun _ key => ?_, fun _ => ?_⟩
  · simpa using hthere _ hf
  · rw [id_eq, parent?_bindIn, Option.map_id]
    rfl
  · have hne : g ≠ _ := fun heq => hg (heq ▸ hf)
    unfold own? bindings
    rw [id_eq, frames_bindIn_of_ne hne]
    simp
  · simp only [Assigned.rename_id, Option.map_id']
    rfl
  · simp only [Assigned.rename_id, Option.map_id_fun', List.map_id]
    rfl

end Heap

/-! ### What elementary changes leave to be found -/

namespace Property

variable {β : Type}

theorem find?_put_self (ps : List (Property β)) (p : Property β) :
    ∃ q, find? (put ps p) p.key.name = some q ∧ q.value = p.value := by
  unfold find?
  induction ps with
  | nil => exact ⟨p, by simp [put], rfl⟩
  | cons q ps ih =>
    rw [put]
    split
    next hkey => exact ⟨{ q with value := p.value }, by simp [hkey], rfl⟩
    next hkey =>
      obtain ⟨r, hr, hvalue⟩ := ih
      exact ⟨r, by simp [hkey, hr], hvalue⟩

theorem find?_put_of_ne (ps : List (Property β)) {p : Property β} {key : String}
    (hne : key ≠ p.key.name) : find? (put ps p) key = find? ps key := by
  unfold find?
  induction ps with
  | nil => simp [put, Ne.symm hne]
  | cons q ps ih =>
    rw [put]
    split
    next hkey =>
      have hq : q.key.name ≠ key := fun heq => hne (heq.symm.trans hkey)
      simp [hq]
    next hkey =>
      rw [List.find?_cons, List.find?_cons, ih]

/-- The keys of entries, in order. -/
def keys (ps : List (Property β)) : List String := ps.map (·.key.name)

theorem keys_cons (p : Property β) (ps : List (Property β)) :
    keys (p :: ps) = p.key.name :: keys ps := rfl

theorem put_of_not_mem {ps : List (Property β)} {p : Property β} (h : p.key.name ∉ keys ps) :
    put ps p = ps ++ [p] := by
  induction ps with
  | nil => rfl
  | cons q ps ih =>
    rw [keys_cons, List.mem_cons, not_or] at h
    rw [put, if_neg (Ne.symm h.1), ih h.2, List.cons_append]

/-- Without a value there is nothing to put in the place of an entry. -/
theorem put_of_mem {ps : List (Property Unit)} {p : Property Unit} (h : p.key.name ∈ keys ps) :
    put ps p = ps := by
  induction ps with
  | nil => exact absurd h List.not_mem_nil
  | cons q ps ih =>
    rw [put]
    split
    · rfl
    next hkey => rw [ih ((List.mem_cons.1 h).resolve_left (Ne.symm hkey))]

theorem mem_keys_put {ps : List (Property β)} {p : Property β} {key : String}
    (h : key ∈ keys ps ∨ key = p.key.name) : key ∈ keys (put ps p) := by
  induction ps with
  | nil => exact List.mem_singleton.2 (h.resolve_left List.not_mem_nil)
  | cons q ps ih =>
    rw [keys_cons, List.mem_cons, or_assoc] at h
    rw [put]
    split
    next hkey =>
      rw [keys_cons, List.mem_cons]
      rcases h with h | h | h
      · exact .inl h
      · exact .inr h
      · exact .inl (h.trans hkey.symm)
    next =>
      rw [keys_cons, List.mem_cons]
      exact h.imp_right ih

theorem mem_keys_overwrite {ps edits : List (Property β)} {key : String}
    (h : key ∈ keys ps ∨ key ∈ keys edits) : key ∈ keys (overwrite ps edits) := by
  induction edits generalizing ps with
  | nil => exact h.resolve_right List.not_mem_nil
  | cons p edits ih =>
    rw [keys_cons, List.mem_cons, ← or_assoc] at h
    exact ih (h.imp_left mem_keys_put)

/-- An entry that is put among those that overwrite others comes where it would come if it were put
last. -/
theorem overwrite_put (ps edits : List (Property Unit)) (p : Property Unit) :
    overwrite ps (put edits p) = put (overwrite ps edits) p := by
  by_cases hmem : p.key.name ∈ keys edits
  · rw [put_of_mem hmem, put_of_mem (mem_keys_overwrite (.inr hmem))]
  · rw [put_of_not_mem hmem]
    exact List.foldl_append

theorem heads_put (ps : List (Property β)) (p : Property β) :
    heads (put ps p) = put (heads ps) (p.map fun _ => ()) :=
  map_put _ ps p

theorem heads_overwrite (ps edits : List (Property β)) :
    heads (overwrite ps edits) = overwrite (heads ps) (heads edits) := by
  induction edits generalizing ps with
  | nil => rfl
  | cons p edits ih =>
    have hcons : overwrite ps (p :: edits) = overwrite (put ps p) edits := rfl
    rw [hcons, ih, heads_put]
    rfl

end Property

namespace Heap

variable {h : Heap} {f g : Nat} {name n : String} {v : Value} {label l : Label}

theorem assignedProperties_setProperty_of_ne (hne : l ≠ label) (p : Property Assigned) :
    (h.setProperty label p).assignedProperties l = h.assignedProperties l := by
  unfold assignedProperties
  rw [properties_setProperty_of_ne hne]

theorem assigned?_setProperty (key : String) (p : Property Assigned) :
    (h.setProperty label p).assigned? l key =
      if l = label ∧ key = p.key.name then some p.value else h.assigned? l key := by
  unfold assigned?
  by_cases hl : l = label
  · subst hl
    rw [assignedProperties_setProperty]
    by_cases hkey : key = p.key.name
    · obtain ⟨q, hq, hvalue⟩ := Property.find?_put_self (h.assignedProperties l) p
      rw [if_pos ⟨rfl, hkey⟩, hkey, hq, ← hvalue]
      rfl
    · rw [if_neg fun hand => hkey hand.2, Property.find?_put_of_ne _ hkey]
  · rw [if_neg fun hand => hl hand.1, assignedProperties_setProperty_of_ne hl]

theorem objectHeads_setProperty (written : List (Property (Option (Expr Label))))
    (p : Property Assigned) : (h.setProperty label p).objectHeads l written =
      if l = label then Property.put (h.objectHeads l written) (p.map fun _ => ())
      else h.objectHeads l written := by
  unfold objectHeads objectCells
  by_cases hl : l = label
  · subst hl
    rw [assignedProperties_setProperty, if_pos rfl, Property.map_put, Property.heads_overwrite,
      Property.heads_put, Property.overwrite_put, Property.heads_overwrite]
    rfl
  · rw [if_neg hl, assignedProperties_setProperty_of_ne hl]

theorem arraySlots_setElement (written ws : List (Expr Label)) (i : Nat) (a : Assigned) :
    (h.setElement label written i a).arraySlots l ws =
      if l = label then putSlot (h.arraySlots label written) i ⟨a.span, .undefined⟩ a
      else h.arraySlots l ws := by
  unfold arraySlots
  by_cases hl : l = label
  · subst hl
    rw [slots_setElement, if_pos rfl]
    rfl
  · rw [slots_setElement_of_ne hl, if_neg hl]

end Heap

/-! ### Renaming the frames of a region -/

/-- Other numbers for the frames of a region.  Those that are there keep their order; those that are
made from now on are numbered from `base` on. -/
structure Region.Renaming (N : Region) where
  frame : Nat → Nat
  base : Nat
  made : ∀ f, N.size ≤ f → frame f = base + (f - N.size)
  there : ∀ f, .frame f ∈ N.locations → f < N.size ∧ frame f < base
  mono : ∀ f g, .frame f ∈ N.locations → .frame g ∈ N.locations → f < g → frame f < frame g

namespace Region.Renaming

variable {N : Region} {ρ : N.Renaming} {h h' : Heap} {f g : Nat} {name : String} {v w : Value}

theorem frame_lt (hf : .frame f ∈ N.area h) (hg : .frame g ∈ N.area h) (hlt : f < g) :
    ρ.frame f < ρ.frame g := by
  rcases hf with hf | ⟨_, ⟨⟩, hf, -⟩
  · have hold := ρ.there f hf
    rcases hg with hg | ⟨_, ⟨⟩, hg, -⟩
    · exact ρ.mono f g hf hg hlt
    · rw [ρ.made g hg]
      omega
  · rcases hg with hg | ⟨_, ⟨⟩, hg, -⟩
    · have hold := ρ.there g hg
      omega
    · rw [ρ.made f hf, ρ.made g hg]
      omega

theorem frame_lt_iff (hf : .frame f ∈ N.area h) (hg : .frame g ∈ N.area h) :
    ρ.frame f < ρ.frame g ↔ f < g := by
  refine ⟨fun hlt => ?_, frame_lt hf hg⟩
  by_contra hnot
  rcases Nat.lt_or_eq_of_le (Nat.not_lt.1 hnot) with hgf | rfl
  · have hlt' := frame_lt (ρ := ρ) hg hf hgf
    omega
  · exact Nat.lt_irrefl _ hlt

theorem frame_inj (hf : .frame f ∈ N.area h) (hg : .frame g ∈ N.area h) :
    ρ.frame f = ρ.frame g ↔ f = g := by
  refine ⟨fun heq => ?_, congrArg ρ.frame⟩
  have hlt := frame_lt_iff (ρ := ρ) hf hg
  have hgt := frame_lt_iff (ρ := ρ) hg hf
  omega

/-- Functions are the same if they were made in the same frame. -/
theorem equal_rename (hv : ∀ q ∈ v.locations, q ∈ N.area h)
    (hw : ∀ q ∈ w.locations, q ∈ N.area h) :
    (v.rename ρ.frame).equal (w.rename ρ.frame) = v.equal w := by
  induction v generalizing w with
  | returned v ih =>
    cases w with
    | returned w => exact ih hv hw
    | _ => rfl
  | closure fn i =>
    cases w with
    | closure fn' j =>
      have hinj := frame_inj (ρ := ρ) (hv _ List.mem_cons_self) (hw _ List.mem_cons_self)
      show (fn.label == fn'.label && ρ.frame i == ρ.frame j) = (fn.label == fn'.label && i == j)
      congr 1
      rw [Bool.eq_iff_iff, beq_iff_eq, beq_iff_eq, hinj]
    | _ => rfl
  | _ => cases w <;> rfl

/-! ### Two heaps along a renaming -/

/-- The heaps agree on the region, and the same number of frames has been made in both. -/
structure Twin (ρ : N.Renaming) (h h' : Heap) : Prop where
  size : h'.frames.size + N.size = ρ.base + h.frames.size
  agree : Heap.Agree ρ.frame (N.area h) h h'

/-- Both give heaps that agree, or both fail for the same cause. -/
def TwinResults (ρ : N.Renaming) : Except RuntimeError Heap → Except RuntimeError Heap → Prop
  | .ok h, .ok h' => ρ.Twin h h'
  | .error cause, .error cause' => cause' = cause
  | _, _ => False

theorem area_of_size (hsize : h'.frames.size = h.frames.size) : N.area h' = N.area h := by
  unfold area
  rw [hsize]

namespace Twin

variable (hN : N.Closed h) (ht : ρ.Twin h h') (hf : .frame f ∈ N.area h)
include ht

theorem frame_size (hN : N.Closed h) : ρ.frame h.frames.size = h'.frames.size := by
  have hsize := ht.size
  have hle := hN.size_le
  rw [ρ.made _ hle]
  omega

include hf

theorem owns (name : String) : h'.owns (ρ.frame f) name = h.owns f name := by
  unfold Heap.owns
  rw [ht.agree.bound hf, Option.isSome_map]

include hN

theorem chain : h'.chain (ρ.frame f) = (h.chain f).map ρ.frame := by
  -- a chain goes on only to a frame with a smaller number, and the order is kept
  induction f using Nat.strongRecOn with
  | ind f ih =>
    rw [Heap.chain, Heap.chain, ht.agree.parent hf]
    cases hp : h.parent? f with
    | none => rfl
    | some p =>
      have harea := hN.closed hf (.enclosing hp)
      simp only [Option.map_some, frame_lt_iff harea hf]
      split
      next hlt => rw [ih p hlt harea, List.map_cons]
      next => rfl

theorem owner? (name : String) : h'.owner? (ρ.frame f) name = (h.owner? f name).map ρ.frame := by
  unfold Heap.owner?
  rw [ht.chain hN hf, List.find?_map]
  congr 1
  exact List.find?_congr fun g hg => ht.owns (hN.chain hf hg) name

theorem lookup (name : String) :
    h'.lookup (ρ.frame f) name = (h.lookup f name).map (·.rename ρ.frame) := by
  unfold Heap.lookup
  rw [ht.owner? hN hf]
  cases ho : h.owner? f name with
  | none => rfl
  | some g =>
    have hg := hN.chain hf (List.mem_of_find?_eq_some ho)
    rw [Option.map_some, Option.bind_some, Option.bind_some, ht.agree.bound hg]
    cases h.own? g name <;> rfl

omit hN in
theorem bindIn (name : String) (v : Value) :
    ρ.Twin (h.bindIn f name v) (h'.bindIn (ρ.frame f) name (v.rename ρ.frame)) := by
  obtain ⟨hlt, hlt'⟩ := ht.agree.there hf
  have harea : N.area (h.bindIn f name v) = N.area h := area_of_size (by simp)
  refine ⟨by simpa using ht.size, ?_⟩
  rw [harea]
  refine ⟨fun hg => ?_, fun hg => ?_, fun hg n => ?_, fun hl => ?_, fun hl key => ?_, fun hl => ?_⟩
  · simpa using ht.agree.there hg
  · rw [Heap.parent?_bindIn, Heap.parent?_bindIn, ht.agree.parent hg]
  · rw [Heap.own?_bindIn hlt, Heap.own?_bindIn hlt']
    simp only [frame_inj hg hf]
    split
    · rfl
    · exact ht.agree.bound hg n
  · exact ht.agree.heads hl
  · exact ht.agree.entries hl key
  · exact ht.agree.slots hl

omit hN in
theorem declare (name : String) (v : Value) :
    ρ.TwinResults (h.declare f name v) (h'.declare (ρ.frame f) name (v.rename ρ.frame)) := by
  unfold Heap.declare
  rw [ht.owns hf]
  split
  · rfl
  · exact ht.bindIn hf name v

theorem assign (name : String) (v : Value) :
    ρ.TwinResults (h.assign f name v) (h'.assign (ρ.frame f) name (v.rename ρ.frame)) := by
  unfold Heap.assign
  rw [ht.owner? hN hf]
  cases ho : h.owner? f name with
  | none => rfl
  | some g => exact ht.bindIn (hN.chain hf (List.mem_of_find?_eq_some ho)) name v

omit hf in
theorem newFrame : (h'.newFrame (ρ.frame f)).1 = ρ.frame (h.newFrame f).1 ∧
    ρ.Twin (h.newFrame f).2 (h'.newFrame (ρ.frame f)).2 := by
  have hsize := ht.frame_size hN
  refine ⟨hsize.symm, ?_, ?_⟩
  · have hold := ht.size
    simp only [Heap.size_newFrame]
    omega
  -- a frame of the region is the new one, or was there in both heaps
  have hcases {g : Nat} (hg : .frame g ∈ N.area (h.newFrame f).2) :
      g = h.frames.size ∨ .frame g ∈ N.area h := by
    rcases hg with hg | ⟨_, ⟨⟩, hle, hlt⟩
    · exact .inr (.inl hg)
    · rw [Heap.size_newFrame] at hlt
      rcases Nat.lt_or_eq_of_le (Nat.le_of_lt_succ hlt) with hlt | heq
      · exact .inr (.inr ⟨g, rfl, hle, hlt⟩)
      · exact .inl heq
  have hlist {q : Location} (hlist : q.IsList) (hq : q ∈ N.area (h.newFrame f).2) : q ∈ N.area h :=
    .inl (mem_locations_of_isList hlist hq)
  refine ⟨fun hg => ?_, fun hg => ?_, fun hg n => ?_, fun hl => ?_, fun hl key => ?_, fun hl => ?_⟩
  · rw [Heap.size_newFrame, Heap.size_newFrame]
    rcases hcases hg with rfl | hg
    · rw [hsize]
      omega
    · have hthere := ht.agree.there hg
      omega
  · rw [Heap.parent?_newFrame, Heap.parent?_newFrame]
    rcases hcases hg with rfl | hg
    · rw [if_pos hsize, if_pos rfl]
      rfl
    · obtain ⟨hlt, hlt'⟩ := ht.agree.there hg
      rw [if_neg (Nat.ne_of_lt hlt'), if_neg (Nat.ne_of_lt hlt), ht.agree.parent hg]
  · rw [Heap.own?_newFrame, Heap.own?_newFrame]
    rcases hcases hg with rfl | hg
    · rw [hsize, Heap.own?_of_size_le (Nat.le_refl _), Heap.own?_of_size_le (Nat.le_refl _)]
      rfl
    · exact ht.agree.bound hg n
  · exact ht.agree.heads (hlist trivial hl)
  · exact ht.agree.entries (hlist trivial hl) key
  · exact ht.agree.slots (hlist trivial hl)

end Twin

/-! ### Entries -/

namespace Twin

variable (ht : ρ.Twin h h') {c k : Value} (hc : ∀ q ∈ c.locations, q ∈ N.area h)
include ht

theorem element? {label : Label} {written : List (Expr Label)}
    (hl : .array label written ∈ N.area h) (i : Nat) :
    h'.element? label written i = (h.element? label written i).map (·.rename ρ.frame) := by
  unfold Heap.element?
  rw [ht.agree.slots hl, List.getElem?_map]
  cases (h.arraySlots label written)[i]? with
  | none => rfl
  | some slot =>
    cases slot with
    | none => cases written[i]? <;> rfl
    | some a => rfl

theorem property? {label : Label} {written : List (Property (Option (Expr Label)))}
    (hl : .object label written ∈ N.area h) (key : String) :
    h'.property? label written key = (h.property? label written key).map (·.rename ρ.frame) := by
  have hassigned := ht.agree.entries hl key
  unfold Heap.assigned? at hassigned
  unfold Heap.property?
  cases hp : Property.find? (h.assignedProperties label) key with
  | none =>
    rw [hp] at hassigned
    rw [Option.map_eq_none_iff.1 hassigned]
    cases Property.find? written key <;> rfl
  | some p =>
    rw [hp] at hassigned
    obtain ⟨p', hp', hvalue⟩ := Option.map_eq_some_iff.1 hassigned
    rw [hp']
    dsimp only
    rw [hvalue]
    rfl

theorem setProperty (label : Label) (p : Property Assigned) :
    ρ.Twin (h.setProperty label p) (h'.setProperty label (p.map (·.rename ρ.frame))) := by
  refine ⟨ht.size, fun hf => ht.agree.there hf, fun hf => ht.agree.parent hf,
    fun hf => ht.agree.bound hf, fun hl => ?_, fun hl key => ?_, fun hl => ht.agree.slots hl⟩
  · rw [Heap.objectHeads_setProperty, Heap.objectHeads_setProperty, ht.agree.heads hl]
    rfl
  · rw [Heap.assigned?_setProperty, Heap.assigned?_setProperty]
    have hkey : (p.map (·.rename ρ.frame)).key.name = p.key.name := rfl
    rw [hkey]
    split
    · rfl
    · exact ht.agree.entries hl key

theorem setElement {label : Label} {written : List (Expr Label)}
    (hlist : .array label written ∈ N.area h) (i : Nat) (a : Assigned) :
    ρ.Twin (h.setElement label written i a) (h'.setElement label written i (a.rename ρ.frame)) := by
  refine ⟨ht.size, fun hf => ht.agree.there hf, fun hf => ht.agree.parent hf,
    fun hf => ht.agree.bound hf, fun hl => ht.agree.heads hl,
    fun hl => ht.agree.entries hl, fun hl => ?_⟩
  rw [Heap.arraySlots_setElement, Heap.arraySlots_setElement]
  split
  · rw [ht.agree.slots hlist]
    exact putSlot_map (·.rename ρ.frame) _ i ⟨a.span, .undefined⟩ a
  · exact ht.agree.slots hl

include hc

theorem read : h'.read (c.rename ρ.frame) (k.rename ρ.frame) =
    (h.read c k).map (Option.map (·.rename ρ.frame)) := by
  cases c with
  | object label written =>
    cases k with
    | string key =>
      exact congrArg Except.ok (ht.property? (hc _ List.mem_cons_self) key)
    | _ => rfl
  | array label written =>
    cases k with
    | integer i =>
      have helement := ht.element? (hc _ List.mem_cons_self) i.toNat
      show Except.ok (if 0 ≤ i then h'.element? label written i.toNat else none) =
        .ok (Option.map _ (if 0 ≤ i then h.element? label written i.toNat else none))
      rw [helement]
      split <;> rfl
    | _ => rfl
  | _ => rfl

theorem write (a : Assigned) (span keySpan : Span) :
    ρ.TwinResults (h.write c k a span keySpan)
      (h'.write (c.rename ρ.frame) (k.rename ρ.frame) (a.rename ρ.frame) span keySpan) := by
  cases c with
  | object label written =>
    cases k with
    | string key => exact ht.setProperty label ⟨span, ⟨keySpan, key⟩, a⟩
    | _ => rfl
  | array label written =>
    cases k with
    | integer i =>
      have hlist := hc _ List.mem_cons_self
      have hlength :
          (h'.arraySlots label written).length = (h.arraySlots label written).length := by
        rw [ht.agree.slots hlist, List.length_map]
      unfold Heap.write Value.rename
      dsimp only
      rw [hlength]
      split
      · rfl
      · split
        · rfl
        · exact ht.setElement hlist i.toNat a
    | _ => rfl
  | _ => rfl

end Twin

end Region.Renaming

end Primer
