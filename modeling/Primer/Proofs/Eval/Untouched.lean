/-
  Primer/Proofs/Eval/Untouched.lean
  =================================
  **Literals stay as they were written if no entry is ever assigned to.**

  Objects and arrays are changed by assignments to entries and by nothing else.  But the code that
  runs is not only the code of the program: it is also found in functions that variables hold and in
  entries of literals.  So it is an invariant of the run that all of it comes from the program: the
  variables that can be seen from the frame of the run, and from frames made since, hold values that
  are `Calm`.  Their code assigns to no entry, and nothing has been assigned to their literals.

  What has been assigned to literals is part of the invariant (`Heap.Calm`), so it is the same after
  a run as before, however the run ends (`evaluate_keeps_literals`).
-/
import Primer.Proofs.Eval.Loading

namespace Primer

variable {α β : Type}

/-! ### Calm code and values -/

/-- The frame in which a run starts, and the heap that it finds. -/
structure Start where
  heap : Heap
  frame : FrameId

/-- The frame is that of the run, or was made by it. -/
def Start.Owns (start : Start) (f : FrameId) : Prop :=
  f = start.frame ∨ start.heap.frames.size ≤ f

section

variable (start : Start)

/-- The expression assigns to no entry, and nothing had been assigned to the literals in it. -/
def Expr.Calm (e : Expr Label) : Prop := e.assignsNoEntry ∧ e.everyLiteral start.heap.isUntouched

def Stmt.Calm (x : Stmt Label) : Prop := x.assignsNoEntry ∧ x.everyLiteral start.heap.isUntouched

def Block.Calm (b : Block Label) : Prop := b.assignsNoEntry ∧ b.everyLiteral start.heap.isUntouched

def Function.Calm (fn : Function Label) : Prop :=
  fn.assignsNoEntry ∧ fn.everyLiteral start.heap.isUntouched

def Code.Calm : Code → Prop
  | .expr e => e.Calm start
  | .block b => b.Calm start

/-- The code of the value is calm, and a function was made in one of the run's own frames. -/
def Value.Calm : Value → Prop
  | .returned v => v.Calm
  | .closure fn f => fn.Calm start ∧ start.Owns f
  | .object label properties => Expr.Calm start (.object .zero label properties)
  | .array label elements => Expr.Calm start (.array .zero label elements)
  | _ => True

/-- What a run makes of the heap if all its code is calm: the variables of its own frames hold calm
values, and nothing is assigned to literals. -/
structure Heap.Calm (h : Heap) : Prop where
  size_le : start.heap.frames.size ≤ h.frames.size
  parent : ∀ {f g}, start.Owns f → h.parent? f = some g → start.Owns g
  bound : ∀ {f}, start.Owns f → ∀ b ∈ h.bindings f, b.2.Calm start
  properties : h.properties = start.heap.properties
  slots : h.slots = start.heap.slots

end

variable {start : Start}

theorem Value.Calm.unwrap {v : Value} (h : v.Calm start) : v.unwrap.Calm start := by
  cases v <;> exact h

/-- A value that stands for no location has no code. -/
theorem Value.calm_of_locations {v : Value} (h : v.locations = []) : v.Calm start := by
  induction v with
  | returned v ih => exact ih h
  | closure | object | array => exact absurd h (List.cons_ne_nil _ _)
  | _ => trivial

namespace Heap.Calm

variable {h h' : Heap} (hh : h.Calm start)
include hh

theorem newFrame {parent : FrameId} (hparent : start.Owns parent) :
    (h.newFrame parent).2.Calm start where
  size_le := by
    rw [size_newFrame]
    exact Nat.le_succ_of_le hh.size_le
  parent hf hg := by
    rw [parent?_newFrame] at hg
    split at hg
    next =>
      cases hg
      exact hparent
    next => exact hh.parent hf hg
  bound hf := by
    rw [bindings_newFrame]
    exact hh.bound hf
  properties := hh.properties
  slots := hh.slots

theorem bindIn (f : FrameId) (name : String) {v : Value} (hv : v.Calm start) :
    (h.bindIn f name v).Calm start where
  size_le := by
    rw [size_bindIn]
    exact hh.size_le
  parent hf hg := by
    rw [parent?_bindIn] at hg
    exact hh.parent hf hg
  bound hf b hb := by
    rcases mem_bindings_bindIn hb with rfl | hb
    · exact hv
    · exact hh.bound hf b hb
  properties := hh.properties
  slots := hh.slots

theorem declare {f : FrameId} {name : String} {v : Value} (hv : v.Calm start)
    (heq : h.declare f name v = .ok h') : h'.Calm start := by
  obtain ⟨-, rfl⟩ := declare_ok heq
  exact hh.bindIn f name hv

theorem assign {f : FrameId} {name : String} {v : Value} (hv : v.Calm start)
    (heq : h.assign f name v = .ok h') : h'.Calm start := by
  obtain ⟨g, -, -, rfl⟩ := assign_ok heq
  exact hh.bindIn g name hv

theorem lookup {f : FrameId} {name : String} {v : Value} (hf : start.Owns f)
    (heq : h.lookup f name = .ok v) : v.Calm start := by
  obtain ⟨g, hg, hb⟩ := lookup_ok heq
  have hown : start.Owns g := by
    have hpath := mem_chain hg
    clear hg hb
    induction hpath with
    | refl => exact hf
    | tail _ hparent ih => exact hh.parent ih hparent
  exact hh.bound hown _ hb

/-- An entry of a calm list is as it was written, and calm. -/
theorem read {c k : Value} {entry : Entry} (hc : c.Calm start)
    (heq : h.read c k = .ok (some entry)) : ∃ e, entry = .written e ∧ e.Calm start := by
  cases entry with
  | written e =>
    refine ⟨e, rfl, ?_⟩
    rcases read_written heq with
      ⟨label, written, key, p, rfl, hp, rfl, -⟩ | ⟨label, written, i, rfl, he, -⟩
    · have hmem : p ∈ written := List.mem_of_find?_eq_some hp
      obtain ⟨hassigns, hliterals⟩ := hc
      rw [Expr.assignsNoEntry] at hassigns
      rw [Expr.everyLiteral, Bool.and_eq_true] at hliterals
      exact ⟨assignsNoEntry_of_mem_properties hassigns p hmem,
        everyLiteral_of_mem_properties hliterals.2 _ (List.mem_map_of_mem hmem)⟩
    · have hmem : e ∈ written := List.mem_of_getElem? he
      obtain ⟨hassigns, hliterals⟩ := hc
      rw [Expr.assignsNoEntry] at hassigns
      rw [Expr.everyLiteral, Bool.and_eq_true] at hliterals
      exact ⟨assignsNoEntry_of_mem_exprs hassigns e hmem,
        everyLiteral_of_mem_exprs hliterals.2 e hmem⟩
  | assigned v =>
    -- nothing has been assigned to the list, then as now
    rcases read_assigned heq with
      ⟨label, written, p, rfl, hp, -⟩ | ⟨label, written, a, rfl, ha, -⟩
    · obtain ⟨-, hliterals⟩ := hc
      rw [Expr.everyLiteral, Bool.and_eq_true] at hliterals
      have hnone := Option.isNone_iff_eq_none.1 hliterals.1
      simp [assignedProperties, hh.properties, hnone] at hp
    · obtain ⟨-, hliterals⟩ := hc
      rw [Expr.everyLiteral, Bool.and_eq_true] at hliterals
      have hnone := Option.isNone_iff_eq_none.1 hliterals.1
      simp [arraySlots, hh.slots, hnone] at ha

end Heap.Calm

/-! ### Calm computations -/

section

variable (start)

/-- From a calm heap the computation leads to one, whether it ends in a value or halts, and its
value is as `Q` says. -/
def Calms (x : Eval α) (Q : α → Prop) : Prop :=
  ∀ s : Eval.State, s.heap.Calm start →
    match x s with
    | .ok a t => t.heap.Calm start ∧ Q a
    | .error _ t => t.heap.Calm start

end

namespace Calms

variable {x : Eval α} {f : α → Eval β} {P Q : α → Prop} {R : β → Prop} {s : Eval.State}

theorem ok (h : Calms start x Q) (hs : s.heap.Calm start) {a : α} {t : Eval.State}
    (hx : x s = .ok a t) : t.heap.Calm start ∧ Q a := by
  have hrun := h s hs
  rw [hx] at hrun
  exact hrun

theorem error (h : Calms start x Q) (hs : s.heap.Calm start) {halt : Halt} {t : Eval.State}
    (hx : x s = .error halt t) : t.heap.Calm start := by
  have hrun := h s hs
  rw [hx] at hrun
  exact hrun

theorem after (h : Calms start x Q) (hs : s.heap.Calm start) :
    (Eval.after x s).heap.Calm start := by
  unfold Eval.after
  cases hx : x s with
  | ok a t => exact (h.ok hs hx).1
  | error halt t => exact h.error hs hx

theorem pure {a : α} (h : Q a) : Calms start (pure a) Q := fun _ hs => ⟨hs, h⟩

theorem throw (halt : Halt) : Calms start (throw halt : Eval α) Q := fun _ hs => hs

theorem bind (hx : Calms start x P) (hf : ∀ a, P a → Calms start (f a) R) :
    Calms start (x >>= f) R := by
  intro s hs
  show match EStateM.bind x f s with
    | .ok b t => t.heap.Calm start ∧ R b
    | .error _ t => t.heap.Calm start
  unfold EStateM.bind
  cases hrun : x s with
  | error halt t => exact hx.error hs hrun
  | ok a t =>
    obtain ⟨ht, ha⟩ := hx.ok hs hrun
    exact hf a ha t ht

theorem ite {c : Prop} [Decidable c] {y : Eval α} (hx : Calms start x Q)
    (hy : Calms start y Q) : Calms start (if c then x else y) Q := by
  split
  · exact hx
  · exact hy

theorem ofExcept {r : Except RuntimeError α} (h : ∀ a, r = .ok a → Q a) :
    Calms start (Eval.ofExcept r) Q := by
  cases r with
  | ok a => exact pure (h a rfl)
  | error cause => exact throw _

theorem look {g : Heap → Except RuntimeError α}
    (h : ∀ {h a}, h.Calm start → g h = .ok a → Q a) : Calms start (Eval.look g) Q := by
  intro s hs
  unfold Eval.look
  cases hg : g s.heap with
  | ok a => exact ⟨hs, h hs hg⟩
  | error cause => exact hs

theorem change {g : Heap → Except RuntimeError Heap}
    (h : ∀ {h h'}, h.Calm start → g h = .ok h' → h'.Calm start) :
    Calms start (Eval.change g) fun _ => True := by
  rintro ⟨heap, depth⟩ hs
  unfold Eval.change
  dsimp only
  cases hg : g heap with
  | ok heap' => exact ⟨h hs hg, trivial⟩
  | error cause => exact hs

theorem declare (frame : FrameId) (name : String) {v : Value} (hv : v.Calm start) :
    Calms start (Eval.declare frame name v) (Value.Calm start) :=
  bind (change fun hh heq => hh.declare hv heq) fun _ _ => pure hv

theorem assign (frame : FrameId) (name : String) {v : Value} (hv : v.Calm start) :
    Calms start (Eval.assign frame name v) (Value.Calm start) :=
  bind (change fun hh heq => hh.assign hv heq) fun _ _ => pure hv

theorem lookup {frame : FrameId} (hframe : start.Owns frame) (name : String) :
    Calms start (Eval.lookup frame name) (Value.Calm start) :=
  look fun hh heq => hh.lookup hframe heq

theorem newFrame {parent : FrameId} (hparent : start.Owns parent) :
    Calms start (Eval.newFrame parent) (start.Owns) :=
  fun _ hs => ⟨hs.newFrame hparent, .inr hs.size_le⟩

theorem operand {x : Eval Value} (h : Calms start x (Value.Calm start)) :
    Calms start (Eval.operand x) (Value.Calm start) :=
  bind h fun _ hv => pure hv.unwrap

theorem calling (h : Calms start x Q) : Calms start (Eval.calling x) Q := by
  intro s hs
  unfold Eval.calling
  cases hx : x { s with depth := s.depth + 1 } with
  | ok a t =>
    have ht := h.ok (s := { s with depth := s.depth + 1 }) hs hx
    exact ht
  | error halt t =>
    have ht := h.error (s := { s with depth := s.depth + 1 }) hs hx
    exact ht

end Calms

/-! ### The evaluator -/

section

variable (start)

/-- Jumps into calm code from the run's own frames are calm. -/
def Jump.Calm (jump : Jump) : Prop :=
  ∀ {frame code}, start.Owns frame → code.Calm start →
    Calms start (jump frame code) (Value.Calm start)

end

variable {limit : Nat} {jump : Jump} {frame : FrameId}

theorem bindParams_calm (frame : FrameId) (xs : List Ident) {args : List Value}
    (hargs : ∀ a ∈ args, a.Calm start) :
    Calms start (Eval.bindParams frame xs args) fun _ => True := by
  induction xs generalizing args with
  | nil => exact .pure trivial
  | cons x xs ih =>
    have hfirst : (args.headD .undefined).Calm start := by
      cases args with
      | nil => trivial
      | cons a args => exact hargs a List.mem_cons_self
    apply Calms.bind (.declare frame x.name hfirst)
    intro _ _
    exact ih fun a ha => hargs a (List.mem_of_mem_tail ha)

theorem apply_calm (hj : jump.Calm start) {callee : Value} (hcallee : callee.Calm start)
    {args : List Value} (hargs : ∀ a ∈ args, a.Calm start) :
    Calms start (Eval.apply limit jump callee args) (Value.Calm start) := by
  unfold Eval.apply
  cases callee with
  | closure fn outer =>
    obtain ⟨hfn, houter⟩ := hcallee
    refine .bind (P := fun _ => True) (fun _ hs => ⟨hs, trivial⟩) fun s _ => ?_
    apply Calms.ite (.throw _)
    apply Calms.bind (.newFrame houter)
    intro inner hinner
    apply Calms.bind (bindParams_calm inner fn.params hargs)
    intro _ _
    have hbody : fn.body.Calm start := by
      obtain ⟨_, _, _, _, body⟩ := fn
      exact hfn
    exact .operand (.calling (hj hinner hbody))
  | _ => exact .throw _

theorem readEntry_calm (hj : jump.Calm start) (hframe : start.Owns frame)
    {c : Value} (hc : c.Calm start) (k : Value) :
    Calms start (Eval.readEntry jump frame c k) (Value.Calm start) := by
  have hread : Calms start (Eval.look (·.read c k))
      fun r => ∀ entry, r = some entry → ∃ e, entry = .written e ∧ e.Calm start := by
    apply Calms.look
    intro h r hh heq entry hentry
    exact hh.read hc (hentry ▸ heq)
  apply Calms.bind hread
  intro r hr
  match r with
  | none => exact .pure trivial
  | some entry =>
    obtain ⟨e, rfl, he⟩ := hr entry rfl
    exact .operand (hj hframe he)

mutual

theorem eval_calm (hj : jump.Calm start) (hframe : start.Owns frame) (e : Expr Label)
    (he : e.Calm start) :
    Calms start (e.eval limit jump frame) (Value.Calm start) := by
  cases e with
  | ident _ name =>
    rw [Expr.eval]
    exact .lookup hframe name
  | str | int | bool =>
    rw [Expr.eval]
    exact .pure trivial
  | unary _ op e =>
    simp only [Expr.Calm, Expr.assignsNoEntry, Expr.everyLiteral] at he
    rw [Expr.eval]
    apply Calms.bind (.operand (eval_calm hj hframe e he))
    intro v _
    exact .ofExcept fun _ heq => Value.calm_of_locations (UnaryOp.apply_locations heq)
  | binary _ op left right =>
    simp only [Expr.Calm, Expr.assignsNoEntry, Expr.everyLiteral, Bool.and_eq_true] at he
    rw [Expr.eval]
    apply Calms.bind (.operand (eval_calm hj hframe left ⟨he.1.1, he.2.1⟩))
    intro a _
    apply Calms.bind (.operand (eval_calm hj hframe right ⟨he.1.2, he.2.2⟩))
    intro b _
    exact .ofExcept fun _ heq => Value.calm_of_locations (BinaryOp.apply_locations heq)
  | cond _ condition consequence alternative =>
    cases alternative with
    | none =>
      simp only [Expr.Calm, Expr.assignsNoEntry, Expr.everyLiteral, Bool.and_eq_true] at he
      rw [Expr.eval]
      apply Calms.bind (.operand (eval_calm hj hframe condition ⟨he.1.1, he.2.1⟩))
      intro v _
      exact .ite (block_calm hj hframe consequence ⟨he.1.2, he.2.2⟩) (.pure trivial)
    | some alternative =>
      simp only [Expr.Calm, Expr.assignsNoEntry, Expr.everyLiteral, Bool.and_eq_true] at he
      rw [Expr.eval]
      apply Calms.bind (.operand (eval_calm hj hframe condition ⟨he.1.1.1, he.2.1.1⟩))
      intro v _
      exact .ite (block_calm hj hframe consequence ⟨he.1.1.2, he.2.1.2⟩)
        (block_calm hj hframe alternative ⟨he.1.2, he.2.2⟩)
  | function _ fn =>
    rw [Expr.eval]
    exact .pure ⟨he, hframe⟩
  | call _ callee args =>
    simp only [Expr.Calm, Expr.assignsNoEntry, Expr.everyLiteral, Bool.and_eq_true] at he
    rw [Expr.eval]
    apply Calms.bind (.operand (eval_calm hj hframe callee ⟨he.1.1, he.2.1⟩))
    intro f hf
    apply Calms.bind (args_calm hj hframe args ⟨he.1.2, he.2.2⟩)
    intro vs hvs
    exact apply_calm hj hf hvs
  | index _ container key =>
    simp only [Expr.Calm, Expr.assignsNoEntry, Expr.everyLiteral, Bool.and_eq_true] at he
    rw [Expr.eval]
    apply Calms.bind (.operand (eval_calm hj hframe container ⟨he.1.1, he.2.1⟩))
    intro c hc
    apply Calms.bind (.operand (eval_calm hj hframe key ⟨he.1.2, he.2.2⟩))
    intro k _
    exact readEntry_calm hj hframe hc k
  | assign _ target value =>
    simp only [Expr.Calm, Expr.assignsNoEntry, Expr.everyLiteral, Bool.and_eq_true] at he
    cases target with
    | ident _ name =>
      rw [Expr.eval]
      apply Calms.bind (.operand (eval_calm hj hframe value ⟨he.1.2, he.2.2⟩))
      intro v hv
      exact .assign frame name hv
    | index => exact absurd he.1.1.1 Bool.false_ne_true
    | _ => exact .throw _
  | object _ label properties =>
    rw [Expr.eval]
    exact .pure he
  | array _ label elements =>
    rw [Expr.eval]
    exact .pure he

theorem stmt_calm (hj : jump.Calm start) (hframe : start.Owns frame) (x : Stmt Label)
    (hx : x.Calm start) :
    Calms start (x.exec limit jump frame) (Value.Calm start) := by
  cases x with
  | declare _ _ name value =>
    cases value with
    | none =>
      rw [Stmt.exec]
      exact .declare frame name.name trivial
    | some value =>
      rw [Stmt.exec]
      apply Calms.bind (eval_calm hj hframe value hx)
      intro v hv
      exact .ite (.pure hv) (.declare frame name.name hv)
  | function _ name fn =>
    rw [Stmt.exec]
    exact .declare frame name.name ⟨hx, hframe⟩
  | ret _ value =>
    rw [Stmt.exec]
    apply Calms.bind (.operand (eval_calm hj hframe value hx))
    intro v hv
    exact .pure hv
  | expr _ value =>
    rw [Stmt.exec]
    exact eval_calm hj hframe value hx

theorem block_calm (hj : jump.Calm start) (hframe : start.Owns frame) (b : Block Label)
    (hb : b.Calm start) :
    Calms start (b.exec limit jump frame) (Value.Calm start) := by
  cases b with
  | mk _ statements =>
    rw [Block.exec]
    exact execAll_calm hj hframe .undefined trivial statements hb

theorem execAll_calm (hj : jump.Calm start) (hframe : start.Owns frame) (last : Value)
    (hlast : last.Calm start) (xs : List (Stmt Label))
    (hxs : assignsNoEntryInStmts xs ∧ everyLiteralOfStmts start.heap.isUntouched xs) :
    Calms start (execAll limit jump frame last xs) (Value.Calm start) := by
  cases xs with
  | nil =>
    rw [execAll]
    exact .pure hlast
  | cons x xs =>
    simp only [assignsNoEntryInStmts, everyLiteralOfStmts, Bool.and_eq_true] at hxs
    rw [execAll]
    apply Calms.bind (stmt_calm hj hframe x ⟨hxs.1.1, hxs.2.1⟩)
    intro v hv
    exact .ite (.pure hv) (execAll_calm hj hframe v hv xs ⟨hxs.1.2, hxs.2.2⟩)

theorem args_calm (hj : jump.Calm start) (hframe : start.Owns frame)
    (es : List (Expr Label))
    (hes : assignsNoEntryInExprs es ∧ everyLiteralOfExprs start.heap.isUntouched es) :
    Calms start (evalArgs limit jump frame es) fun vs => ∀ v ∈ vs, v.Calm start := by
  cases es with
  | nil =>
    rw [evalArgs]
    exact .pure nofun
  | cons e es =>
    simp only [assignsNoEntryInExprs, everyLiteralOfExprs, Bool.and_eq_true] at hes
    rw [evalArgs]
    apply Calms.bind (.operand (eval_calm hj hframe e ⟨hes.1.1, hes.2.1⟩))
    intro v hv
    apply Calms.bind (args_calm hj hframe es ⟨hes.1.2, hes.2.2⟩)
    intro vs hvs
    exact .pure (List.forall_mem_cons.2 ⟨hv, hvs⟩)

end

theorem jump_calm (limit fuel : Nat) : (Primer.jump limit fuel).Calm start := by
  induction fuel with
  | zero =>
    intro frame code _ _
    exact .throw _
  | succ fuel ih =>
    intro frame code hframe hcode
    cases code with
    | expr e => exact eval_calm ih hframe e hcode
    | block b => exact block_calm ih hframe b hcode

/-! ### Programs -/

/-- A heap in which a frame is empty is a calm start for a run in that frame. -/
theorem Heap.calm_of_empty {h : Heap} {frame : FrameId}
    (hframe : h.frames[frame]? = some ⟨[], none⟩) : h.Calm ⟨h, frame⟩ where
  size_le := Nat.le_refl _
  parent := by
    rintro f g (rfl | hf) hg
    · simp [parent?, hframe] at hg
    · simp [parent?, Array.getElem?_eq_none hf] at hg
  bound := by
    rintro f (rfl | hf) b hb
    · simp [bindings, hframe] at hb
    · simp [bindings, Array.getElem?_eq_none hf] at hb
  properties := rfl
  slots := rfl

/-- A program that assigns to no entry leaves all that has been assigned to literals as it is. -/
theorem evaluate_keeps_literals (bounds : Bounds) {p : Program Label} {frame : FrameId}
    {s : Eval.State} (hassigns : assignsNoEntryInStmts p.statements)
    (hframe : s.heap.frames[frame]? = some ⟨[], none⟩)
    (hfresh : everyLiteralOfStmts s.heap.isUntouched p.statements) :
    (Eval.after (bounds.evaluate frame p) s).heap.properties = s.heap.properties ∧
      (Eval.after (bounds.evaluate frame p) s).heap.slots = s.heap.slots := by
  have hrun : Calms ⟨s.heap, frame⟩ (bounds.evaluate frame p) (Value.Calm ⟨s.heap, frame⟩) := by
    refine .bind (P := fun _ => True) (fun _ hs => ⟨hs, trivial⟩) fun _ _ => ?_
    apply Calms.operand
    exact execAll_calm (jump_calm _ _) (.inl rfl) .undefined trivial p.statements
      ⟨hassigns, hfresh⟩
  have hcalm := hrun.after (Heap.calm_of_empty hframe)
  exact ⟨hcalm.properties, hcalm.slots⟩

end Primer
