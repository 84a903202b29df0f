/-
  Primer/Proofs/Eval/Growth.lean
  ==============================
  **How the heap evolves.**

  Whatever is evaluated, and however it ends, the heap only grows (`Heap.Grows`): frames stay where
  they are and keep their names, and lists keep their entries in their places, where an entry that
  is no longer as it was has been assigned.  New frames come from calls only (`Task.Makes`), inside
  the frame of the function that is called; that frame is there when the call is made, so a chain
  of frames never comes back to where it started.  New lists do not come about at all: a list that
  can be reached after an evaluation could be reached before.
-/
import Primer.Proofs.Eval.Confined
import Primer.Proofs.Eval.History
import Primer.Proofs.Eval.Limits

namespace Primer

/-! ### Heaps that grow -/

namespace Heap

/-- What stays of a heap. -/
structure Grows (h h' : Heap) : Prop where
  size_le : h.frames.size ≤ h'.frames.size
  parent : ∀ f, f < h.frames.size → h'.parent? f = h.parent? f
  owns : ∀ f name, h.owns f name = true → h'.owns f name = true
  /-- the entries of objects, in their places, with new keys behind them -/
  objects : ∀ label written,
    Property.GrownTo (h.objectCells label written) (h'.objectCells label written)
  /-- the elements of arrays, in their places -/
  arrays : ∀ label written,
    Grown Cell.Kept Cell.IsAssigned (h.arrayCells label written) (h'.arrayCells label written)
  /-- no label has been handed out -/
  nextLabel : h'.nextLabel = h.nextLabel

variable {h h' h'' : Heap}

theorem Grows.refl (h : Heap) : h.Grows h where
  size_le := Nat.le_refl _
  parent _ _ := rfl
  owns _ _ howns := howns
  objects _ _ := .refl _
  arrays _ _ := .refl Cell.Kept.refl _
  nextLabel := rfl

theorem Grows.trans (hg : h.Grows h') (hg' : h'.Grows h'') : h.Grows h'' where
  size_le := Nat.le_trans hg.size_le hg'.size_le
  parent f hf := (hg'.parent f (Nat.lt_of_lt_of_le hf hg.size_le)).trans (hg.parent f hf)
  owns f name howns := hg'.owns f name (hg.owns f name howns)
  objects label written := (hg.objects label written).trans (hg'.objects label written)
  arrays label written := by
    apply (hg.arrays label written).trans (hg'.arrays label written) Cell.Kept.trans
    · intro b c hb hbc
      exact hbc.isAssigned hb
    · intro c hc
      exact hc
  nextLabel := hg'.nextLabel.trans hg.nextLabel

theorem owns_bindIn {f g : FrameId} {name other : String} {v : Value}
    (howns : h.owns g other = true) : (h.bindIn f name v).owns g other = true := by
  unfold owns own? bindings bindIn at *
  rw [Array.getElem?_modify]
  split
  next hfg =>
    cases hframe : h.frames[g]? with
    | none => simp [hframe, Table.get?] at howns
    | some fr =>
      rw [hframe] at howns
      by_cases hname : other = name
      · subst hname
        simp
      · simpa [Table.get?_set_of_ne hname] using howns
  next => exact howns

theorem grows_bindIn (f : FrameId) (name : String) (v : Value) : h.Grows (h.bindIn f name v) where
  size_le := by simp
  parent _ _ := by simp
  owns _ _ howns := owns_bindIn howns
  objects _ _ := .refl _
  arrays _ _ := .refl Cell.Kept.refl _
  nextLabel := rfl

theorem grows_newFrame (outer : FrameId) : h.Grows (h.newFrame outer).2 where
  size_le := by simp
  parent f hf := by rw [parent?_newFrame, if_neg (Nat.ne_of_lt hf)]
  owns f name howns := by
    unfold owns own? at *
    rw [bindings_newFrame]
    exact howns
  objects _ _ := .refl _
  arrays _ _ := .refl Cell.Kept.refl _
  nextLabel := rfl

theorem grows_declare {f : FrameId} {name : String} {v : Value}
    (heq : h.declare f name v = .ok h') : h.Grows h' := by
  obtain ⟨-, rfl⟩ := declare_ok heq
  exact grows_bindIn f name v

theorem grows_assign {f : FrameId} {name : String} {v : Value}
    (heq : h.assign f name v = .ok h') : h.Grows h' := by
  obtain ⟨g, -, -, rfl⟩ := assign_ok heq
  exact grows_bindIn g name v

theorem grows_write {c k : Value} {a : Assigned} {span keySpan : Span}
    (heq : h.write c k a span keySpan = .ok h') : h.Grows h' := by
  rcases write_ok heq with ⟨label, written, key, -, -, rfl⟩ | ⟨label, written, i, -, -, -, -, rfl⟩
  · exact {
      size_le := Nat.le_refl _
      parent := fun _ _ => rfl
      owns := fun _ _ howns => howns
      objects := fun l ws => objectCells_setProperty l _ ws
      arrays := fun _ _ => .refl Cell.Kept.refl _
      nextLabel := rfl }
  · exact {
      size_le := Nat.le_refl _
      parent := fun _ _ => rfl
      owns := fun _ _ howns => howns
      objects := fun _ _ => .refl _
      arrays := fun l ws => arrayCells_setElement l written i.toNat ws
      nextLabel := rfl }

end Heap

/-! ### Where frames come from -/

/-- A call within the task makes the frame, inside the frame `outer` of the function. -/
def Task.Makes (t : Task) (f outer : FrameId) : Prop :=
  ∃ u fn args, Within t u ∧ u.work = .call (.closure fn outer) args ∧
    u.state.depth < u.bounds.calls ∧ u.state.heap.frames.size = f

/-- The heap has grown, and its new frames were made by calls within the task. -/
structure GrowsWithin (t : Task) (h h' : Heap) : Prop where
  grows : h.Grows h'
  made : ∀ f, h.frames.size ≤ f → f < h'.frames.size →
    ∃ outer, h'.parent? f = some outer ∧ t.Makes f outer

namespace GrowsWithin

variable {t : Task} {h h' h'' : Heap}

/-- The heap has grown, and has no new frames. -/
theorem of_size_le (hg : h.Grows h') (hsize : h'.frames.size ≤ h.frames.size) :
    GrowsWithin t h h' where
  grows := hg
  made f hle hlt := by omega

theorem trans (hg : GrowsWithin t h h') (hg' : GrowsWithin t h' h'') : GrowsWithin t h h'' where
  grows := hg.grows.trans hg'.grows
  made f hle hlt := by
    by_cases hf : f < h'.frames.size
    · obtain ⟨outer, hparent, hmakes⟩ := hg.made f hle hf
      exact ⟨outer, (hg'.grows.parent f hf).trans hparent, hmakes⟩
    · exact hg'.made f (Nat.le_of_not_lt hf) hlt

theorem part {u : Task} (hpart : Part t u) (hg : GrowsWithin u h h') : GrowsWithin t h h' where
  grows := hg.grows
  made f hle hlt := by
    obtain ⟨outer, hparent, x, fn, args, hwithin, hwork, hdepth, hsize⟩ := hg.made f hle hlt
    exact ⟨outer, hparent, x, fn, args, .head hpart hwithin, hwork, hdepth, hsize⟩

theorem enter {bounds : Bounds} {frame outer : FrameId} {fn : Function Label} {args : List Value}
    {s : Eval.State} (hdepth : s.depth < bounds.calls) :
    GrowsWithin ⟨bounds, frame, .call (.closure fn outer) args, s⟩ s.heap
      (s.heap.newFrame outer).2 where
  grows := Heap.grows_newFrame outer
  made f hle hlt := by
    rw [Heap.size_newFrame] at hlt
    have hf : f = s.heap.frames.size := by omega
    refine ⟨outer, ?_, _, fn, args, .refl, rfl, hdepth, hf.symm⟩
    rw [Heap.parent?_newFrame, if_pos hf]

end GrowsWithin

theorem growsWithin_history : History GrowsWithin where
  refl t h := .of_size_le (.refl h) (Nat.le_refl _)
  trans := .trans
  part := .part
  declare heq := by
    refine .of_size_le (Heap.grows_declare heq) ?_
    obtain ⟨-, rfl⟩ := Heap.declare_ok heq
    simp
  assign heq := by
    refine .of_size_le (Heap.grows_assign heq) ?_
    obtain ⟨g, -, -, rfl⟩ := Heap.assign_ok heq
    simp
  write heq := by
    refine .of_size_le (Heap.grows_write heq) ?_
    rcases Heap.write_ok heq with
      ⟨label, written, key, -, -, rfl⟩ | ⟨label, written, i, -, -, -, -, rfl⟩
    · exact Nat.le_refl _
    · exact Nat.le_refl _
  enter := .enter

/-! ### Chains of frames -/

namespace Heap

/-- No chain of frames comes back to where it started. -/
def Acyclic (h : Heap) : Prop :=
  ∀ f, ¬Relation.TransGen (fun a b => h.parent? a = some b) f f

/-- Frames that can be reached are there. -/
def Complete (h : Heap) (roots : Set Location) : Prop :=
  ∀ f, .frame f ∈ h.Reaches roots → f < h.frames.size

/-- Frames that are made inside older ones do not close a chain. -/
theorem Acyclic.of_older {h h' : Heap} (hacyclic : h.Acyclic) (hg : h.Grows h')
    (hthere : ∀ f g, f < h.frames.size → h.parent? f = some g → g < h.frames.size)
    (holder : ∀ f g, h.frames.size ≤ f → h'.parent? f = some g → g < f) : h'.Acyclic := by
  intro f hcycle
  by_cases hf : f < h.frames.size
  · -- from a frame that was there, a chain leads where it led before
    have hbefore : ∀ g, Relation.TransGen (fun a b => h'.parent? a = some b) f g →
        g < h.frames.size ∧ Relation.TransGen (fun a b => h.parent? a = some b) f g := by
      intro g hpath
      induction hpath with
      | single hstep =>
        rw [hg.parent f hf] at hstep
        exact ⟨hthere f _ hf hstep, .single hstep⟩
      | tail _ hstep ih =>
        rw [hg.parent _ ih.1] at hstep
        exact ⟨hthere _ _ ih.1 hstep, .tail ih.2 hstep⟩
    exact hacyclic f (hbefore f hcycle).2
  · -- from a new frame, a chain leads to older frames only
    have hdown : ∀ g, Relation.TransGen (fun a b => h'.parent? a = some b) f g → g < f := by
      intro g hpath
      induction hpath with
      | single hstep => exact holder f _ (Nat.le_of_not_lt hf) hstep
      | @tail b c _ hstep ih =>
        by_cases hb : b < h.frames.size
        · rw [hg.parent b hb] at hstep
          exact Nat.lt_of_lt_of_le (hthere b c hb hstep) (Nat.le_of_not_lt hf)
        · exact Nat.lt_trans (holder b c (Nat.le_of_not_lt hb) hstep) ih
    exact Nat.lt_irrefl f (hdown f hcycle)

end Heap

/-! ### The evolution of the heap -/

namespace Task

/-- The locations from which a task, and all that comes after it, can set out in a heap: every frame
that is there, and what the task is given. -/
def roots (t : Task) (h : Heap) : Set Location :=
  {q | (∃ f, q = .frame f ∧ f < h.frames.size) ∨ q = .frame t.frame ∨ q ∈ t.work.locations}

/-- The locations from which one can set out when the task is done: also those of its value. -/
def rootsAfter (t : Task) : Set Location :=
  {q | q ∈ t.roots t.after.heap ∨ ∃ v u, t.run = .ok v u ∧ q ∈ v.locations}

/-- The region of what can be reached before the task. -/
def region (t : Task) : Region := .reachable t.state.heap (t.roots t.state.heap)

theorem region_confined (t : Task) :
    t.region.Closed t.after.heap ∧ t.region.Spares t.state.heap t.after.heap ∧
      ∀ v u, t.run = .ok v u → t.region.Holds u.heap v := by
  apply t.confined (Region.reachable_closed _ _)
  · exact .inl (Heap.subset_reaches (.inr (.inl rfl)))
  · intro q hq
    exact .inl (Heap.subset_reaches (.inr (.inr hq)))

/-- What can be reached when the task is done could be reached before, or is a frame that is new. -/
theorem reaches_after (t : Task) {q : Location} (hq : q ∈ t.after.heap.Reaches t.rootsAfter) :
    q ∈ t.region.area t.after.heap := by
  obtain ⟨hclosed, hspares, hvalue⟩ := t.region_confined
  refine hclosed.reaches ?_ hq
  rintro p ((⟨f, rfl, hf⟩ | hp) | ⟨v, u, hrun, hp⟩)
  · by_cases hnew : f < t.state.heap.frames.size
    · exact .inl (Heap.subset_reaches (.inl ⟨f, rfl, hnew⟩))
    · exact .inr ⟨f, rfl, Nat.le_of_not_lt hnew, hf⟩
  · exact .inl (Heap.subset_reaches (.inr hp))
  · have hafter : t.after = u := Eval.after_ok hrun
    rw [hafter]
    exact hvalue v u hrun p hp

end Task

/-- **How the heap evolves.**  Compare the heaps before and after any task, whichever way it ends.

Every frame is there, inside the same frame, and owns the names that it owned; every object has its
entries in their places, and new keys only behind them; every array has its elements in their
places; what is not as it was in them has been assigned; and no label has been handed out.

A frame that is new was made by a call within the task, inside the frame of the function that was
called.  If the frames that can be reached are there before, then they are there afterwards, and
chains of frames do not come back to where they started if they did not before.

An object or array that can be reached afterwards, from the value of the task too, could be reached
before. -/
theorem heap_only_grows (t : Task) :
    t.state.heap.Grows t.after.heap ∧
    (∀ f, t.state.heap.frames.size ≤ f → f < t.after.heap.frames.size →
      ∃ outer, t.after.heap.parent? f = some outer ∧ t.Makes f outer) ∧
    (t.state.heap.Complete (t.roots t.state.heap) →
      t.after.heap.Complete t.rootsAfter ∧ (t.state.heap.Acyclic → t.after.heap.Acyclic)) ∧
    ∀ q, q.IsList → q ∈ t.after.heap.Reaches t.rootsAfter →
      q ∈ t.state.heap.Reaches (t.roots t.state.heap) := by
  obtain ⟨hgrows, hmade⟩ := growsWithin_history.task t
  refine ⟨hgrows, hmade, ?_, ?_⟩
  · intro hcomplete
    constructor
    · intro f hf
      rcases t.reaches_after hf with hf | ⟨g, heq, -, hlt⟩
      · exact Nat.lt_of_lt_of_le (hcomplete f hf) hgrows.size_le
      · cases heq
        exact hlt
    · intro hacyclic
      refine hacyclic.of_older hgrows ?_ (t.region_confined.1.older hcomplete)
      intro f g hf hparent
      apply hcomplete g
      exact Heap.Reaches.step (Heap.subset_reaches (.inl ⟨f, rfl, hf⟩)) (.enclosing hparent)
  · intro q hlist hq
    exact Region.mem_locations_of_isList hlist (t.reaches_after hq)

/-- The countdown in an empty heap makes three frames, one for each call, and chains of frames do
not come back. -/
theorem heap_only_grows_countdown :
    let t : Task := ⟨⟨3, 3⟩, Heap.root, .program countdown, .empty⟩
    t.state.heap.Complete (t.roots t.state.heap) ∧ t.after.heap.frames.size = 4 ∧
      (∃ outer, t.after.heap.parent? 3 = some outer ∧ t.Makes 3 outer) ∧ t.after.heap.Acyclic := by
  intro t
  obtain ⟨-, hmade, hframes, -⟩ := heap_only_grows t
  have hsize : t.after.heap.frames.size = 4 := by decide +kernel
  have hcode : t.work.locations = [] := List.isEmpty_iff.1 (by decide +kernel)
  have hparent (f : FrameId) : t.state.heap.parent? f = none := by
    cases f <;> rfl
  -- nothing but the one frame can be reached
  have hcomplete : t.state.heap.Complete (t.roots t.state.heap) := by
    intro f hf
    have honly : (.frame f : Location) ∈ ({.frame 0} : Set Location) := by
      refine Heap.Reaches.of_closed ?_ ?_ hf
      · rintro p (⟨g, rfl, hg⟩ | rfl | hp)
        · exact congrArg Location.frame (Nat.lt_one_iff.1 hg)
        · rfl
        · rw [hcode] at hp
          exact absurd hp List.not_mem_nil
      · rintro p q rfl hstep
        cases hstep with
        | enclosing hstep =>
          rw [hparent] at hstep
          cases hstep
        | binding hb _ => exact absurd hb List.not_mem_nil
    cases honly
    exact Nat.zero_lt_one
  refine ⟨hcomplete, hsize, hmade 3 (by decide) (by rw [hsize]; decide), (hframes hcomplete).2 ?_⟩
  intro f hcycle
  obtain ⟨g, hstep, -⟩ := Relation.TransGen.head'_iff.1 hcycle
  rw [hparent] at hstep
  cases hstep

end Primer
