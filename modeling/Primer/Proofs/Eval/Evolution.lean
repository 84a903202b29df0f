/-
  Primer/Proofs/Eval/Evolution.lean
  =================================
  **What an evaluation does to the state, whatever it evaluates.**

  The state is changed in five ways only: a name is declared or assigned, an entry of a literal is
  written, a frame is made, and a call counts itself while it is under way.  A relation between
  states that holds over each of these changes, and can be followed along a sequence of them, is an
  `Evolution`; it holds over every evaluation, whether it ends in a value or halts
  (`Evolution.eval`, `Evolution.execAll`).  So a property of this kind takes five small
  proofs and no induction.

  The first one is that an evaluation is `Steady`: it leaves the number of calls under way as it
  found it, on every way out, and hands out no labels.
-/
import Primer.Eval.Run

namespace Primer

variable {α β : Type} {R : Eval.State → Eval.State → Prop}

/-- However the computation ends, `R` leads from the state before to the state behind. -/
def Evolves (R : Eval.State → Eval.State → Prop) (x : Eval α) : Prop :=
  ∀ s, match x s with
    | .ok _ t => R s t
    | .error _ t => R s t

/-- The state that a computation leads to, whether it ends in a value or halts. -/
def Eval.after (x : Eval α) (s : Eval.State) : Eval.State :=
  match x s with
  | .ok _ t => t
  | .error _ t => t

/-- A relation that holds over every change that an evaluation makes. -/
structure Evolution (R : Eval.State → Eval.State → Prop) : Prop where
  refl : ∀ s, R s s
  trans : ∀ {s t u}, R s t → R t u → R s u
  declare : ∀ {s frame name v heap}, s.heap.declare frame name v = .ok heap → R s { s with heap }
  assign : ∀ {s frame name v heap}, s.heap.assign frame name v = .ok heap → R s { s with heap }
  write : ∀ {s c k a span keySpan heap}, s.heap.write c k a span keySpan = .ok heap →
    R s { s with heap }
  newFrame : ∀ s parent, R s { s with heap := (s.heap.newFrame parent).2 }
  call : ∀ {s t}, R { s with depth := s.depth + 1 } t → R s { t with depth := t.depth - 1 }

namespace Evolves

variable {x : Eval α} {f : α → Eval β} {s t : Eval.State}

theorem ok (h : Evolves R x) {a : α} (hx : x s = .ok a t) : R s t := by
  have hs := h s
  rw [hx] at hs
  exact hs

theorem error (h : Evolves R x) {e : Halt} (hx : x s = .error e t) : R s t := by
  have hs := h s
  rw [hx] at hs
  exact hs

theorem after (h : Evolves R x) (s : Eval.State) : R s (Eval.after x s) := by
  unfold Eval.after
  cases hx : x s with
  | ok a t => exact h.ok hx
  | error e t => exact h.error hx

variable (h : Evolution R)
include h

theorem pure (a : α) : Evolves R (pure a) := by
  intro s
  exact h.refl s

theorem throw (e : Halt) : Evolves R (throw e : Eval α) := by
  intro s
  exact h.refl s

theorem bind (hx : Evolves R x) (hf : ∀ a, Evolves R (f a)) : Evolves R (x >>= f) := by
  intro s
  show match EStateM.bind x f s with
    | .ok _ t => R s t
    | .error _ t => R s t
  unfold EStateM.bind
  cases hs : x s with
  | error e t => exact hx.error hs
  | ok a t =>
    have hst := hx.ok hs
    dsimp only
    cases ht : f a t with
    | ok b u => exact h.trans hst ((hf a).ok ht)
    | error e u => exact h.trans hst ((hf a).error ht)

omit h in
theorem ite {c : Prop} [Decidable c] {y : Eval α} (hx : Evolves R x) (hy : Evolves R y) :
    Evolves R (if c then x else y) := by
  split
  · exact hx
  · exact hy

theorem ofExcept (r : Except RuntimeError α) : Evolves R (Eval.ofExcept r) := by
  cases r with
  | ok a => exact pure h a
  | error cause => exact throw h _

theorem look (g : Heap → Except RuntimeError α) : Evolves R (Eval.look g) := by
  intro s
  unfold Eval.look
  cases g s.heap with
  | ok a => exact h.refl s
  | error cause => exact h.refl s

theorem change {g : Heap → Except RuntimeError Heap}
    (hg : ∀ {s heap}, g s.heap = .ok heap → R s { s with heap }) : Evolves R (Eval.change g) := by
  rintro ⟨heap, depth⟩
  unfold Eval.change
  dsimp only
  cases hheap : g heap with
  | ok heap' => exact hg (s := ⟨heap, depth⟩) hheap
  | error cause => exact h.refl _

theorem declare (frame : FrameId) (name : String) (v : Value) :
    Evolves R (Eval.declare frame name v) :=
  bind h (change h h.declare) fun _ => pure h v

theorem assign (frame : FrameId) (name : String) (v : Value) :
    Evolves R (Eval.assign frame name v) :=
  bind h (change h h.assign) fun _ => pure h v

theorem newFrame (parent : FrameId) : Evolves R (Eval.newFrame parent) := by
  rintro ⟨heap, depth⟩
  exact h.newFrame ⟨heap, depth⟩ parent

theorem operand {x : Eval Value} (hx : Evolves R x) : Evolves R (Eval.operand x) :=
  bind h hx fun v => pure h v.unwrap

theorem calling (hx : Evolves R x) : Evolves R (Eval.calling x) := by
  intro s
  unfold Eval.calling
  cases hs : x { s with depth := s.depth + 1 } with
  | ok a t => exact h.call (hx.ok hs)
  | error e t => exact h.call (hx.error hs)

end Evolves

/-- So does code that is jumped to. -/
def Jump.Evolves (R : Eval.State → Eval.State → Prop) (jump : Jump) : Prop :=
  ∀ frame code, Primer.Evolves R (jump frame code)

namespace Evolution

variable {limit : Nat} {jump : Jump}

theorem bindParams (h : Evolution R) (frame : FrameId) (xs : List Ident) (args : List Value) :
    Evolves R (Eval.bindParams frame xs args) := by
  induction xs generalizing args with
  | nil => exact .pure h ()
  | cons x xs ih =>
    apply Evolves.bind h (.declare h frame x.name _)
    intro _
    exact ih args.tail

theorem apply (h : Evolution R) (hj : jump.Evolves R) (callee : Value) (args : List Value) :
    Evolves R (Eval.apply limit jump callee args) := by
  unfold Eval.apply
  cases callee with
  | closure fn frame =>
    apply Evolves.bind h (fun s => h.refl s)
    intro s
    apply Evolves.ite (.throw h _)
    apply Evolves.bind h (.newFrame h frame)
    intro inner
    apply Evolves.bind h (h.bindParams inner fn.params args)
    intro _
    exact .operand h (.calling h (hj inner _))
  | _ => exact .throw h _

theorem readEntry (h : Evolution R) (hj : jump.Evolves R) (frame : FrameId)
    (container key : Value) :
    Evolves R (Eval.readEntry jump frame container key) := by
  apply Evolves.bind h (.look h _)
  intro r
  match r with
  | some (.written e) => exact .operand h (hj frame _)
  | some (.assigned v) => exact .pure h _
  | none => exact .pure h _

mutual

theorem eval (h : Evolution R) (hj : jump.Evolves R) (frame : FrameId) (e : Expr Label) :
    Evolves R (e.eval limit jump frame) := by
  cases e with
  | ident _ name =>
    rw [Expr.eval]
    exact .look h _
  | str | int | bool | function | object | array =>
    rw [Expr.eval]
    exact .pure h _
  | unary _ op e =>
    rw [Expr.eval]
    apply Evolves.bind h (.operand h (eval h hj frame e))
    intro v
    exact .ofExcept h _
  | binary _ op left right =>
    rw [Expr.eval]
    apply Evolves.bind h (.operand h (eval h hj frame left))
    intro a
    apply Evolves.bind h (.operand h (eval h hj frame right))
    intro b
    exact .ofExcept h _
  | cond _ condition consequence alternative =>
    have hcondition := Evolves.operand h (eval h hj frame condition)
    cases alternative with
    | none =>
      rw [Expr.eval]
      apply Evolves.bind h hcondition
      intro v
      exact .ite (block h hj frame consequence) (.pure h _)
    | some alternative =>
      rw [Expr.eval]
      apply Evolves.bind h hcondition
      intro v
      exact .ite (block h hj frame consequence) (block h hj frame alternative)
  | call _ callee args =>
    rw [Expr.eval]
    apply Evolves.bind h (.operand h (eval h hj frame callee))
    intro f
    apply Evolves.bind h (evalArgs h hj frame args)
    intro vs
    exact apply h hj f vs
  | index _ container key =>
    rw [Expr.eval]
    apply Evolves.bind h (.operand h (eval h hj frame container))
    intro c
    apply Evolves.bind h (.operand h (eval h hj frame key))
    intro k
    exact readEntry h hj frame c k
  | assign _ target value =>
    have hvalue := Evolves.operand h (eval h hj frame value)
    cases target with
    | ident _ name =>
      rw [Expr.eval]
      apply Evolves.bind h hvalue
      intro v
      exact .assign h frame name v
    | index span container key =>
      have hkey := Evolves.operand h (eval h hj frame key)
      cases container with
      | ident _ name =>
        rw [Expr.eval]
        apply Evolves.bind h (.look h _)
        intro c
        apply Evolves.bind h hkey
        intro k
        apply Evolves.bind h hvalue
        intro v
        apply Evolves.bind h (.change h h.write)
        intro _
        apply Evolves.bind h (.assign h frame name c)
        intro _
        exact .pure h v
      | _ => exact .throw h _
    | _ => exact .throw h _

theorem stmt (h : Evolution R) (hj : jump.Evolves R) (frame : FrameId) (x : Stmt Label) :
    Evolves R (x.exec limit jump frame) := by
  cases x with
  | declare _ _ name value =>
    cases value with
    | none =>
      rw [Stmt.exec]
      exact .declare h frame name.name _
    | some value =>
      rw [Stmt.exec]
      apply Evolves.bind h (eval h hj frame value)
      intro v
      exact .ite (.pure h v) (.declare h frame name.name v)
  | function _ name fn =>
    rw [Stmt.exec]
    exact .declare h frame name.name _
  | ret _ value =>
    rw [Stmt.exec]
    apply Evolves.bind h (.operand h (eval h hj frame value))
    intro v
    exact .pure h _
  | expr _ value =>
    rw [Stmt.exec]
    exact eval h hj frame value

theorem block (h : Evolution R) (hj : jump.Evolves R) (frame : FrameId) (b : Block Label) :
    Evolves R (b.exec limit jump frame) := by
  cases b with
  | mk _ statements =>
    rw [Block.exec]
    exact execAll h hj frame .undefined statements

theorem execAll (h : Evolution R) (hj : jump.Evolves R) (frame : FrameId) (last : Value)
    (xs : List (Stmt Label)) :
    Evolves R (execAll limit jump frame last xs) := by
  cases xs with
  | nil =>
    rw [Primer.execAll]
    exact .pure h last
  | cons x xs =>
    rw [Primer.execAll]
    apply Evolves.bind h (stmt h hj frame x)
    intro v
    exact .ite (.pure h v) (execAll h hj frame v xs)

theorem evalArgs (h : Evolution R) (hj : jump.Evolves R) (frame : FrameId)
    (es : List (Expr Label)) :
    Evolves R (evalArgs limit jump frame es) := by
  cases es with
  | nil =>
    rw [Primer.evalArgs]
    exact .pure h []
  | cons e es =>
    rw [Primer.evalArgs]
    apply Evolves.bind h (.operand h (eval h hj frame e))
    intro v
    apply Evolves.bind h (evalArgs h hj frame es)
    intro vs
    exact .pure h _

end

end Evolution

theorem Evolution.jump (h : Evolution R) (limit fuel : Nat) : (jump limit fuel).Evolves R := by
  induction fuel with
  | zero =>
    intro frame code
    exact .throw h _
  | succ fuel ih =>
    intro frame code
    cases code with
    | expr e => exact h.eval ih frame e
    | block b => exact h.block ih frame b

/-! ### Calls under way and labels -/

/-- As many calls are under way, and the same labels have been handed out. -/
structure Eval.State.Steady (s t : Eval.State) : Prop where
  depth : t.depth = s.depth
  nextLabel : t.heap.nextLabel = s.heap.nextLabel

/-- An evaluation leaves the calls that are under way as it found them. -/
theorem Eval.State.steady : Evolution Eval.State.Steady where
  refl s := ⟨rfl, rfl⟩
  trans h h' := ⟨h'.depth.trans h.depth, h'.nextLabel.trans h.nextLabel⟩
  declare heq := by
    unfold Heap.declare at heq
    split at heq
    · cases heq
    · cases heq
      exact ⟨rfl, rfl⟩
  assign heq := by
    unfold Heap.assign at heq
    split at heq
    · cases heq
      exact ⟨rfl, rfl⟩
    · cases heq
  write heq := by
    unfold Heap.write at heq
    dsimp only at heq
    split at heq
    · cases heq
      exact ⟨rfl, rfl⟩
    · cases heq
    · split at heq
      · cases heq
      · split at heq
        · cases heq
        · cases heq
          exact ⟨rfl, rfl⟩
    · cases heq
    · cases heq
  newFrame _ _ := ⟨rfl, rfl⟩
  call {s t} h := by
    have hdepth : t.depth = s.depth + 1 := h.depth
    constructor
    · show t.depth - 1 = s.depth
      omega
    · exact h.nextLabel

end Primer
