/-
  Primer/Proofs/Eval/Repetition.lean
  ==================================
  **A program that assigns to no entry can be run again.**

  The value of a literal is the literal itself, and whatever is assigned to its entries is there for
  all runs of the program.  A run in a frame of its own can leave traces for the next run in this
  way only: an empty frame and literals to which nothing has been assigned reach nothing else
  (`Heap.passes_of_reaches`).  So two runs that start so, each in its own heap, go the same way up
  to the numbers of frames (`evaluate_sameEnd`).  A program that assigns to no entry leaves its
  literals alone (`evaluate_keeps_literals`), and a second run finds them as the first one did
  (`evaluate_again`).
-/
import Primer.Proofs.Eval.Noninterference
import Primer.Proofs.Eval.Untouched

namespace Primer

/-! ### Two heaps in which a program starts afresh -/

/-- What a program is given: the frame that it runs in, and its literals. -/
def programRoots (frame : FrameId) (p : Program Label) : Set Location :=
  {q | q = .frame frame ∨ q ∈ literalsOfStmts p.statements}

/-- The program can start in an empty frame, and nothing has been assigned to its literals. -/
structure Program.Fresh (p : Program Label) (frame : FrameId) (h : Heap) : Prop where
  frame : h.frames[frame]? = some ⟨[], none⟩
  literals : everyLiteralOfStmts h.isUntouched p.statements

/-- The numbers of frames in a second run: it starts in the frame `frame'`, and makes its frames
when there are `size'` of them. -/
def restart (frame size frame' size' f : Nat) : Nat :=
  if f = frame then frame' else size' + (f - size)

namespace Heap

variable {h h' : Heap} {label : Label}

theorem assignedProperties_of_isUntouched {written : List (Property (Option (Expr Label)))}
    (hq : h.isUntouched (.object label written)) : h.assignedProperties label = [] := by
  have hnone : h.properties.get? label = none := Option.isNone_iff_eq_none.1 hq
  simp [assignedProperties, hnone]

theorem arraySlots_of_isUntouched {written : List (Expr Label)}
    (hq : h.isUntouched (.array label written)) :
    h.arraySlots label written = List.replicate written.length none := by
  have hnone : h.slots.get? label = none := Option.isNone_iff_eq_none.1 hq
  simp [arraySlots, hnone]

theorem isUntouched_congr (hproperties : h'.properties = h.properties)
    (hslots : h'.slots = h.slots) : h'.isUntouched = h.isUntouched := by
  funext q
  unfold isUntouched
  rw [hproperties, hslots]

theorem overlay_congr (hproperties : h'.properties = h.properties)
    (hslots : h'.slots = h.slots) : h'.overlay = h.overlay := by
  unfold overlay
  rw [hproperties, hslots]

/-- An empty frame, and lists to which nothing has been assigned, are the same in both heaps. -/
theorem agree_of_untouched {ρ : Nat → Nat} {area : Set Location} {frame : FrameId}
    (hframe : h.frames[frame]? = some ⟨[], none⟩)
    (hframe' : h'.frames[ρ frame]? = some ⟨[], none⟩)
    (harea : ∀ q ∈ area, q = .frame frame ∨ h.isUntouched q ∧ h'.isUntouched q) :
    Agree ρ area h h' := by
  have hown {f : Nat} (hf : .frame f ∈ area) : f = frame := by
    rcases harea _ hf with heq | ⟨huntouched, -⟩
    · exact Location.frame.inj heq
    · exact absurd huntouched Bool.false_ne_true
  have hlist {q : Location} (hq : q ∈ area) (hlist : q.IsList) :
      h.isUntouched q ∧ h'.isUntouched q := by
    rcases harea q hq with rfl | huntouched
    · exact absurd hlist id
    · exact huntouched
  refine ⟨fun hf => ?_, fun hf => ?_, fun hf name => ?_, fun hq => ?_, fun hq key => ?_,
    fun hq => ?_⟩
  · obtain rfl := hown hf
    exact ⟨(Array.getElem?_eq_some_iff.1 hframe).1, (Array.getElem?_eq_some_iff.1 hframe').1⟩
  · obtain rfl := hown hf
    simp [parent?, hframe, hframe']
  · obtain rfl := hown hf
    simp [own?, bindings, hframe, hframe', Table.get?]
  · obtain ⟨huntouched, huntouched'⟩ := hlist hq trivial
    simp [objectHeads, objectCells, assignedProperties_of_isUntouched huntouched,
      assignedProperties_of_isUntouched huntouched']
  · obtain ⟨huntouched, huntouched'⟩ := hlist hq trivial
    simp [assigned?, assignedProperties_of_isUntouched huntouched,
      assignedProperties_of_isUntouched huntouched', Property.find?]
  · obtain ⟨huntouched, huntouched'⟩ := hlist hq trivial
    simp [arraySlots_of_isUntouched huntouched, arraySlots_of_isUntouched huntouched']

end Heap

namespace Program.Fresh

variable {p : Program Label} {frame frame' : FrameId} {h h' : Heap} (hp : p.Fresh frame h)
  (hp' : p.Fresh frame' h')
include hp

theorem lt : frame < h.frames.size := (Array.getElem?_eq_some_iff.1 hp.frame).1

include hp'

/-- What can be reached is the frame, and lists that are untouched in both heaps. -/
theorem untouched {q : Location} (hq : q ∈ h.Reaches (programRoots frame p)) :
    q = .frame frame ∨ h.isUntouched q ∧ h'.isUntouched q := by
  rcases Heap.passes_of_reaches hp.frame hp'.literals hp.literals hq with rfl | ⟨hq', hq⟩
  · exact .inl rfl
  · exact .inr ⟨hq.1, hq'.1⟩

theorem frame_eq {f : Nat} (hf : .frame f ∈ h.Reaches (programRoots frame p)) : f = frame := by
  rcases hp.untouched hp' hf with heq | ⟨huntouched, -⟩
  · exact Location.frame.inj heq
  · exact absurd huntouched Bool.false_ne_true

/-- The frame of the first run is that of the second, and new frames are numbered behind those that
are there in either heap. -/
def numbers : (Region.reachable h (programRoots frame p)).Renaming where
  frame := restart frame h.frames.size frame' h'.frames.size
  base := h'.frames.size
  made f hf := by
    have hne : f ≠ frame := Nat.ne_of_gt (Nat.lt_of_lt_of_le hp.lt hf)
    exact if_neg hne
  there f hf := by
    obtain rfl := hp.frame_eq hp' hf
    exact ⟨hp.lt, by simpa [restart] using hp'.lt⟩
  mono f g hf hg hlt := by
    obtain rfl := hp.frame_eq hp' hf
    obtain rfl := hp.frame_eq hp' hg
    exact absurd hlt (Nat.lt_irrefl _)

theorem numbers_frame : (hp.numbers hp').frame frame = frame' := if_pos rfl

theorem twin : (hp.numbers hp').Twin h h' := by
  refine ⟨rfl, ?_⟩
  apply Heap.agree_of_untouched hp.frame
  · rw [hp.numbers_frame hp']
    exact hp'.frame
  · rintro q (hq | ⟨f, -, hle, hlt⟩)
    · exact hp.untouched hp' hq
    · exact absurd hlt (Nat.not_lt.2 hle)

end Program.Fresh

/-! ### Two runs -/

/-- From two heaps in which it starts afresh, a program comes to the same end. -/
theorem evaluate_sameEnd (bounds : Bounds) {p : Program Label} {frame frame' : FrameId}
    {s s' : Eval.State} (hp : p.Fresh frame s.heap) (hp' : p.Fresh frame' s'.heap) :
    SameEnd (restart frame s.heap.frames.size frame' s'.heap.frames.size) (programRoots frame p)
      (bounds.evaluate frame p s) (bounds.evaluate frame' p s') := by
  let N := Region.reachable s.heap (programRoots frame p)
  let ρ : N.Renaming := hp.numbers hp'
  have hready : N.Ready 0 frame (literalsOfStmts p.statements) { s with depth := 0 } :=
    ⟨Region.reachable_closed _ _, .inl (Heap.subset_reaches (.inl rfl)),
      fun q hq => .inl (Heap.subset_reaches (.inr hq)), rfl⟩
  have hj := jump_tracks ρ bounds.calls bounds.fuel 0
  have hab : ρ.Abreast { s with depth := 0 } { s' with depth := 0 } := ⟨hp.twin hp', rfl⟩
  have hconfined := Confined.operand
    (hj.confined.execAll (Region.holds_undefined _) p.statements hready)
  have hfollows := Region.Renaming.Follows.operand (hj.execAll .undefined p.statements hready hab)
  have hframe : ρ.frame frame = frame' := hp.numbers_frame hp'
  rw [hframe] at hfollows
  exact hfollows.sameEnd (fun q hq => Heap.subset_reaches hq) hconfined

/-- A frame that both runs were given has the same names after both. -/
theorem SameEnd.owns {ρ : Nat → Nat} {roots : Set Location} {x x' : Eval Value} {s s' : Eval.State}
    (h : SameEnd ρ roots (x s) (x' s')) {f : Nat} (hf : .frame f ∈ roots) (name : String) :
    (Eval.after x' s').heap.owns (ρ f) name = (Eval.after x s).heap.owns f name := by
  unfold SameEnd at h
  unfold Eval.after Heap.owns
  cases hx : x s with
  | ok v t =>
    cases hx' : x' s' with
    | ok v' t' =>
      rw [hx, hx'] at h
      simp [h.2.2.bound (Heap.subset_reaches (.inl hf)) name]
    | error halt' t' =>
      rw [hx, hx'] at h
      exact absurd h id
  | error halt t =>
    cases hx' : x' s' with
    | ok v' t' =>
      rw [hx, hx'] at h
      exact absurd h id
    | error halt' t' =>
      rw [hx, hx'] at h
      simp [h.2.2.bound (Heap.subset_reaches hf) name]

/-- **A program that assigns to no entry can be run again.**  Let a program be loaded, and let it be
run in a frame that is empty.  However the run ends, all that has been assigned to objects and
arrays is as it was before, and so the tree is shown as before.  A run of the same program in
another empty frame, whatever has become of other frames in the meantime, then comes to the same end
as the first: it gives the same value, up to the numbers of frames, or halts for the same cause, and
its frame owns the same names. -/
theorem evaluate_again (bounds : Bounds) (q : Program Unit) (frame : FrameId) (s : Eval.State)
    (hassigns : assignsNoEntryInStmts q.statements) (hlabels : s.heap.LabelsAreFree)
    (hframe : s.heap.frames[frame]? = some ⟨[], none⟩) :
    let p := (s.heap.load q).1
    let first := bounds.evaluate frame p
    let loaded : Eval.State := { s with heap := (s.heap.load q).2 }
    let after := Eval.after first loaded
    after.heap.properties = s.heap.properties ∧ after.heap.slots = s.heap.slots ∧
    p.sexprWith after.heap.overlay = p.sexprWith loaded.heap.overlay ∧
    ∀ (again : Eval.State) (frame' : FrameId),
      again.heap.properties = after.heap.properties → again.heap.slots = after.heap.slots →
      again.heap.frames[frame']? = some ⟨[], none⟩ →
      let second := bounds.evaluate frame' p
      SameEnd (restart frame s.heap.frames.size frame' again.heap.frames.size)
        (programRoots frame p) (first loaded) (second again) ∧
      ∀ name, (Eval.after second again).heap.owns frame' name = after.heap.owns frame name := by
  intro p first loaded after
  obtain ⟨hliterals, hsame⟩ := hlabels.load q
  rw [← hsame] at hassigns
  have hp : p.Fresh frame loaded.heap := ⟨hframe, hliterals⟩
  obtain ⟨hproperties, hslots⟩ := evaluate_keeps_literals bounds hassigns hp.frame hp.literals
  refine ⟨hproperties, hslots, ?_, ?_⟩
  · rw [Heap.overlay_congr hproperties hslots]
  · intro again frame' hproperties' hslots' hframe' second
    have hp' : p.Fresh frame' again.heap := by
      refine ⟨hframe', ?_⟩
      rw [Heap.isUntouched_congr (hproperties'.trans hproperties) (hslots'.trans hslots)]
      exact hp.literals
    have hend := evaluate_sameEnd bounds hp hp'
    refine ⟨hend, ?_⟩
    intro name
    have howns := hend.owns (.inl rfl) name
    rwa [restart, if_pos rfl] at howns

/-- Functions that count up a variable; one of them is an entry of an object. -/
def counters : Program Unit :=
  (parse ("let n = 0; let o = \x7bnext: function(k) \x7b n = n + k; return n; \x7d\x7d;" ++
    "function twice() \x7b o['next'](2); return o['next'](n); \x7d twice(); twice;")).1

/-- The counters are run in the frame of the empty heap, and then in a new frame. -/
theorem evaluate_again_counters :
    let p := (Heap.empty.load counters).1
    let loaded : Eval.State := ⟨(Heap.empty.load counters).2, 0⟩
    let after := Eval.after (Bounds.evaluate {} Heap.root p) loaded
    let frame' := after.heap.frames.size
    let again : Eval.State :=
      ⟨{ after.heap with frames := after.heap.frames.push ⟨[], none⟩ }, 0⟩
    assignsNoEntryInStmts counters.statements ∧ Heap.empty.LabelsAreFree ∧
    Heap.empty.frames[Heap.root]? = some ⟨[], none⟩ ∧
    again.heap.frames[frame']? = some ⟨[], none⟩ ∧
    p.sexprWith after.heap.overlay = p.sexprWith loaded.heap.overlay ∧
    SameEnd (restart Heap.root 1 frame' again.heap.frames.size) (programRoots Heap.root p)
      (Bounds.evaluate {} Heap.root p loaded) (Bounds.evaluate {} frame' p again) ∧
    ∀ name, (Eval.after (Bounds.evaluate {} frame' p) again).heap.owns frame' name =
      after.heap.owns Heap.root name := by
  intro p loaded after frame' again
  have hassigns : assignsNoEntryInStmts counters.statements := by decide +kernel
  have hframe' : again.heap.frames[frame']? = some ⟨[], none⟩ := Array.getElem?_push_size
  obtain ⟨-, -, htree, hagain⟩ :=
    evaluate_again {} counters Heap.root .empty hassigns Heap.empty_labelsAreFree rfl
  exact ⟨hassigns, Heap.empty_labelsAreFree, rfl, hframe', htree,
    hagain again frame' rfl rfl hframe'⟩

end Primer
