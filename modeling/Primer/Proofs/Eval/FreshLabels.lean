/-
  Primer/Proofs/Eval/FreshLabels.lean
  ===================================
  **A label that is yet to be handed out stands nowhere.**

  What has been assigned to a literal is found under its label, so a program that is loaded has to
  get labels under which nothing is found (`Heap.LabelsAreFree`).  That alone does not last, since
  an evaluation assigns to whatever literals it can reach.  What lasts is that it can reach none
  with a label that is yet to be handed out (`Heap.Labelled`).  Loading brings new literals, and
  hands out their labels (`Heap.Labelled.load`); an evaluation comes to no literal that could not be
  reached before, and hands out no labels (`Task.labelled`).  So labels are free in every state that
  comes about when sources are run (`Eval.State.Arises.labelsAreFree`).
-/
import Primer.Proofs.Eval.Growth
import Primer.Proofs.Eval.Loading

namespace Primer

variable {ι : Type}

/-- Is the label of the list below `n`?  A frame has none. -/
def Location.isBelow (n : Label) : Location → Bool
  | .frame _ => true
  | .object label _ => decide (label < n)
  | .array label _ => decide (label < n)

theorem Location.isBelow_mono {n k : Label} (hle : n ≤ k) {q : Location} (h : q.isBelow n) :
    q.isBelow k := by
  cases q with
  | frame f => rfl
  | object label _ => exact decide_eq_true (Nat.lt_of_lt_of_le (of_decide_eq_true h) hle)
  | array label _ => exact decide_eq_true (Nat.lt_of_lt_of_le (of_decide_eq_true h) hle)

namespace Heap

/-- What a running program sets out from: the frames, and what it is given. -/
def starts (given : List Location) : Set Location := {q | (∃ f, q = .frame f) ∨ q ∈ given}

/-- Labels that are yet to be handed out are free, and no list that has one can be reached, from
frames or from what is given. -/
structure Labelled (h : Heap) (given : List Location) : Prop where
  free : h.LabelsAreFree
  below : ∀ q ∈ h.Reaches (starts given), q.isBelow h.nextLabel

variable {h : Heap}

theorem empty_labelled : empty.Labelled [] where
  free := empty_labelsAreFree
  below q hq := by
    -- the one frame is empty, so nothing but frames can be reached
    have hframe : q ∈ {q : Location | ∃ f, q = .frame f} := by
      refine Reaches.of_closed ?_ ?_ hq
      · rintro p (hp | hp)
        · exact hp
        · exact absurd hp List.not_mem_nil
      · rintro p q ⟨f, rfl⟩ hstep
        cases hstep with
        | @enclosing _ g _ => exact ⟨g, rfl⟩
        | binding hb _ => cases f <;> exact absurd hb List.not_mem_nil
    obtain ⟨f, rfl⟩ := hframe
    rfl

/-- Loading leads nowhere that the heap did not lead before. -/
theorem Leads.of_load {p : Program ι} {q r : Location} (hstep : (h.load p).2.Leads q r) :
    h.Leads q r :=
  hstep.mono rfl rfl (fun _ _ hparent => hparent) fun _ => List.Subset.refl _

/-- The literals of a program that was just loaded got their labels from it. -/
theorem Labelled.load (hh : h.Labelled []) (p : Program ι) :
    (h.load p).2.Labelled (literalsOfStmts (h.load p).1.statements) := by
  let k := (h.load p).2.nextLabel
  let test (q : Location) : Bool := h.isUntouched q && q.isBelow k
  have htest : PassesBetween h.nextLabel k test := by
    have huntouched := hh.free.passesBetween k
    constructor
    · intro label properties hn hk
      exact Bool.and_eq_true_iff.2 ⟨huntouched.object label properties hn hk, decide_eq_true hk⟩
    · intro label elements hn hk
      exact Bool.and_eq_true_iff.2 ⟨huntouched.array label elements hn hk, decide_eq_true hk⟩
  have hlabels := labelStmts_labels htest p.statements
  have hle : h.nextLabel ≤ k := hlabels.mono h.nextLabel
  have hliterals : ∀ q ∈ literalsOfStmts (h.load p).1.statements, q.Passes test :=
    passes_of_everyLiteralOfStmts _ (hlabels.holds h.nextLabel (Nat.le_refl _) (Nat.le_refl _)).2
  refine ⟨fun label hlabel => hh.free label (Nat.le_trans hle hlabel), ?_⟩
  intro q hq
  -- nothing has been assigned to the new literals, so they lead to each other only
  have hreach : q ∈ {q | q ∈ h.Reaches (starts []) ∨ q.Passes test} := by
    refine Reaches.of_closed ?_ ?_ hq
    · rintro q (hframe | hliteral)
      · exact .inl (subset_reaches (.inl hframe))
      · exact .inr (hliterals q hliteral)
    · rintro q r (hold | hnew) hstep
      · exact .inl (Reaches.step hold hstep.of_load)
      · have huntouched := (Bool.and_eq_true_iff.1 hnew.1).1
        obtain ⟨e, he, hr⟩ := leads_of_isUntouched huntouched hstep.of_load
        exact .inr (e.passes_of_everyLiteral (hnew.2 e he) r hr)
  rcases hreach with hold | hnew
  · exact Location.isBelow_mono hle (hh.below q hold)
  · exact (Bool.and_eq_true_iff.1 hnew.1).2

end Heap

/-- However a task ends, it has brought no label within reach that is yet to be handed out, nor does
its value lead to one. -/
theorem Task.labelled {t : Task} (h : t.state.heap.Labelled t.work.locations) :
    t.after.heap.Labelled [] ∧ ∀ v u, t.run = .ok v u → u.heap.Labelled v.locations := by
  let N := Region.reachable t.state.heap (Heap.starts t.work.locations)
  have hstart {q : Location} (hq : q ∈ Heap.starts t.work.locations) : q ∈ N.area t.state.heap :=
    .inl (Heap.subset_reaches hq)
  obtain ⟨hclosed, hspares, hvalue⟩ := t.confined (Region.reachable_closed _ _)
    (hstart (.inl ⟨t.frame, rfl⟩)) fun q hq => hstart (.inr hq)
  have hnext : t.after.heap.nextLabel = t.state.heap.nextLabel :=
    (growsWithin_history.task t).grows.nextLabel
  have hfree : t.after.heap.LabelsAreFree := by
    intro label hlabel
    rw [hnext] at hlabel
    have hout (q : Location) (hq : ¬q.isBelow t.state.heap.nextLabel) : q ∉ N.locations :=
      fun hmem => hq (h.below q hmem)
    obtain ⟨hproperties, hslots⟩ := h.free label hlabel
    constructor
    · rw [hspares.properties label fun written => hout _ (by simpa [Location.isBelow] using hlabel)]
      exact hproperties
    · rw [hspares.slots label fun written => hout _ (by simpa [Location.isBelow] using hlabel)]
      exact hslots
  have hlabelled {given : List Location} (hgiven : ∀ q ∈ given, q ∈ N.area t.after.heap) :
      t.after.heap.Labelled given := by
    refine ⟨hfree, fun q hq => ?_⟩
    have hreach : q ∈ N.area t.after.heap := by
      refine hclosed.reaches ?_ hq
      rintro p (hframe | hp)
      · exact .inl (Heap.subset_reaches (.inl hframe))
      · exact hgiven p hp
    rw [hnext]
    rcases hreach with hreach | ⟨f, rfl, -⟩
    · exact h.below q hreach
    · rfl
  refine ⟨hlabelled fun _ hq => absurd hq List.not_mem_nil, fun v u hrun => ?_⟩
  have hafter : t.after = u := Eval.after_ok hrun
  rw [← hafter]
  apply hlabelled
  rw [hafter]
  exact hvalue v u hrun

/-- A source that is read, loaded and run leaves labels as it found them, also where it is rejected
or its run halts. -/
theorem runSource_labelled (bounds : Bounds) (frame : FrameId) (source : String) {s : Eval.State}
    (h : s.heap.Labelled []) : (Eval.after (runSource bounds frame source) s).heap.Labelled [] := by
  cases hparse : parseWith { strict := true } source with
  | error rejection =>
    have hrun : runSource bounds frame source s = .ok (.error rejection) s := by
      unfold runSource
      rw [hparse]
      rfl
    rw [Eval.after_ok hrun]
    exact h
  | ok r =>
    let t : Task := ⟨bounds, frame, .program (s.heap.load r.1).1,
      { s with heap := (s.heap.load r.1).2 }⟩
    have hafter : Eval.after (runSource bounds frame source) s = t.after := by
      unfold runSource
      rw [hparse]
      show Eval.after (t.work.run bounds frame >>= fun v => pure (Except.ok v)) t.state = _
      unfold Task.after
      cases hrun : t.work.run bounds frame t.state with
      | ok v u =>
        rw [Eval.after_ok hrun]
        exact Eval.after_ok (Eval.bind_of_ok hrun)
      | error halt u =>
        rw [Eval.after_error hrun]
        exact Eval.after_error (Eval.bind_of_error hrun)
    rw [hafter]
    exact (Task.labelled (t := t) (h.load r.1)).1

/-! ### Runs one after another -/

namespace Eval.State

/-- The state with an empty frame that is inside of no other. -/
def addFrame (s : Eval.State) : Eval.State :=
  { s with heap := { s.heap with frames := s.heap.frames.push ⟨[], none⟩ } }

/-- The state comes about when sources are run one after another, whatever their bounds, each in a
frame that is made for it or that was there. -/
inductive Arises : Eval.State → Prop where
  | empty : Arises .empty
  | addFrame {s} (hs : Arises s) : Arises s.addFrame
  | runSource {s} (hs : Arises s) (bounds : Bounds) (frame : FrameId) (source : String) :
    Arises (Eval.after (Primer.runSource bounds frame source) s)

variable {s : Eval.State}

/-- The new frame leads nowhere. -/
theorem leads_of_addFrame {q r : Location} (hstep : s.addFrame.heap.Leads q r) :
    s.heap.Leads q r := by
  refine hstep.mono rfl rfl (fun f g hparent => ?_) fun f b hb => ?_
  · simp only [Heap.parent?, addFrame, Array.getElem?_push] at hparent ⊢
    split at hparent
    · cases hparent
    · exact hparent
  · simp only [Heap.bindings, addFrame, Array.getElem?_push] at hb ⊢
    split at hb
    · exact absurd hb List.not_mem_nil
    · exact hb

theorem labelled_addFrame (h : s.heap.Labelled []) : s.addFrame.heap.Labelled [] where
  free := h.free
  below q hq := by
    apply h.below
    exact Heap.Reaches.of_closed (fun p hp => Heap.subset_reaches hp)
      (fun hp hstep => Heap.Reaches.step hp (leads_of_addFrame hstep)) hq

theorem Arises.labelled (hs : s.Arises) : s.heap.Labelled [] := by
  induction hs with
  | empty => exact Heap.empty_labelled
  | addFrame _ ih => exact labelled_addFrame ih
  | runSource _ bounds frame source ih => exact runSource_labelled bounds frame source ih

/-- **Labels are free whenever a program is loaded.**  Whatever sources have been run before, nothing
has been assigned to a literal with a label that is yet to be handed out. -/
theorem Arises.labelsAreFree (hs : s.Arises) : s.heap.LabelsAreFree := hs.labelled.free

end Eval.State

end Primer
