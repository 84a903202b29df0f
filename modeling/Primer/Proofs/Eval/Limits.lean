/-
  Primer/Proofs/Eval/Limits.lean
  ==============================
  **What the bounds of a run decide.**

  A run is bounded in two ways: by the number of calls that may be under way, and by the fuel for
  jumps.  Either bound can only cut a run short.  A run that gets by with a bound is the same with
  any larger one, and a run that is cut short at some number of calls is cut short at every smaller
  number too, for then it comes to a call that is one too many at the same place or before.

  Both facts compare two runs from the same state, and both are cases of one relation: `Outlasts`
  says that a computation ends as another does unless the other gives up.  The number of calls under
  way is counted by the state; that this count is right at every moment of a run, and is left as it
  was found by everything that runs, is `ActiveCalls.depth_eq` together with `Eval.State.steady`.
-/
import Primer.Proofs.Eval.Evolution
import Primer.Proofs.Eval.Tasks

namespace Primer

/-! ### Causes of halts -/

/-- The cause is another one than too many calls. -/
def RuntimeError.Ordinary : RuntimeError → Prop
  | .callDepthExceeded _ => False
  | _ => True

theorem checked_ordinary {a b r : Int} {op : BinaryOp} {cause : RuntimeError}
    (h : checked a op b r = .error cause) : cause.Ordinary := by
  unfold checked at h
  split at h
  · cases h
  · cases h
    trivial

theorem UnaryOp.apply_ordinary {op : UnaryOp} {v : Value} {cause : RuntimeError}
    (h : op.apply v = .error cause) : cause.Ordinary := by
  unfold apply at h
  split at h
  · cases h
  · exact checked_ordinary h
  · cases h
    trivial

theorem BinaryOp.apply_ordinary {op : BinaryOp} {v w : Value} {cause : RuntimeError}
    (h : op.apply v w = .error cause) : cause.Ordinary := by
  unfold apply at h
  split at h
  · unfold applyIntegers at h
    split at h
    case h_1 | h_2 | h_3 => exact checked_ordinary h
    case h_4 =>
      split at h
      · cases h
        trivial
      · exact checked_ordinary h
    all_goals cases h
  · split at h <;> cases h

namespace Heap

variable {h : Heap} {cause : RuntimeError}

theorem declare_ordinary {f : FrameId} {name : String} {v : Value}
    (heq : h.declare f name v = .error cause) : cause.Ordinary := by
  unfold declare at heq
  split at heq
  · cases heq
    trivial
  · cases heq

theorem lookup_ordinary {f : FrameId} {name : String}
    (heq : h.lookup f name = .error cause) : cause.Ordinary := by
  unfold lookup at heq
  split at heq
  · cases heq
  · cases heq
    trivial

theorem assign_ordinary {f : FrameId} {name : String} {v : Value}
    (heq : h.assign f name v = .error cause) : cause.Ordinary := by
  unfold assign at heq
  split at heq
  · cases heq
  · cases heq
    trivial

theorem read_ordinary {c k : Value} (heq : h.read c k = .error cause) : cause.Ordinary := by
  unfold read at heq
  split at heq <;> cases heq <;> trivial

theorem write_ordinary {c k : Value} {a : Assigned} {span keySpan : Span}
    (heq : h.write c k a span keySpan = .error cause) : cause.Ordinary := by
  unfold write at heq
  dsimp only at heq
  split at heq
  case h_3 =>
    split at heq
    · cases heq
      trivial
    · split at heq
      · cases heq
        trivial
      · cases heq
  all_goals
    cases heq
    try trivial

end Heap

/-! ### Computations that go on where others give up -/

variable {α β : Type} {gaveUp other : Halt → Prop}

/-- Unless `x` halts because it `gaveUp`, `y` ends as `x` does; and when `x` halts for a cause of
another kind, it is as `other` says. -/
def Outlasts (gaveUp other : Halt → Prop) (x y : Eval α) : Prop :=
  ∀ s, match x s with
    | .ok a t => y s = .ok a t
    | .error halt t => gaveUp halt ∨ other halt ∧ y s = .error halt t

namespace Outlasts

variable {x y : Eval α} {f g : α → Eval β}

/-- A computation outlasts itself. -/
theorem self (h : ∀ {s halt t}, x s = .error halt t → other halt) : Outlasts gaveUp other x x := by
  intro s
  cases hs : x s with
  | ok a t => rfl
  | error halt t => exact .inr ⟨h hs, rfl⟩

theorem pure (a : α) : Outlasts gaveUp other (pure a) (Pure.pure a) := by
  intro s
  rfl

theorem throw {halt : Halt} (h : other halt) :
    Outlasts gaveUp other (throw halt : Eval α) (MonadExcept.throw halt) := by
  intro s
  exact .inr ⟨h, rfl⟩

theorem giveUp {halt : Halt} (h : gaveUp halt) :
    Outlasts gaveUp other (MonadExcept.throw halt) y := by
  intro s
  exact .inl h

theorem bind (hx : Outlasts gaveUp other x y) (hf : ∀ a, Outlasts gaveUp other (f a) (g a)) :
    Outlasts gaveUp other (x >>= f) (y >>= g) := by
  intro s
  show match EStateM.bind x f s with
    | .ok a t => EStateM.bind y g s = .ok a t
    | .error halt t => gaveUp halt ∨ other halt ∧ EStateM.bind y g s = .error halt t
  unfold EStateM.bind
  have hs := hx s
  cases hxs : x s with
  | ok a t =>
    rw [hxs] at hs
    dsimp only at hs ⊢
    rw [hs]
    exact hf a t
  | error halt t =>
    rw [hxs] at hs
    dsimp only at hs ⊢
    rcases hs with hs | ⟨hother, hs⟩
    · exact .inl hs
    · rw [hs]
      exact .inr ⟨hother, rfl⟩

theorem ite {c : Prop} [Decidable c] {x' y' : Eval α} (hx : Outlasts gaveUp other x y)
    (hy : Outlasts gaveUp other x' y') :
    Outlasts gaveUp other (if c then x else x') (if c then y else y') := by
  split
  · exact hx
  · exact hy

theorem operand {x y : Eval Value} (h : Outlasts gaveUp other x y) :
    Outlasts gaveUp other (Eval.operand x) (Eval.operand y) := by
  apply bind h
  intro v
  exact pure v.unwrap

theorem calling (h : Outlasts gaveUp other x y) :
    Outlasts gaveUp other (Eval.calling x) (Eval.calling y) := by
  intro s
  unfold Eval.calling
  have hs := h { s with depth := s.depth + 1 }
  cases hx : x { s with depth := s.depth + 1 } with
  | ok a t =>
    rw [hx] at hs
    dsimp only at hs ⊢
    rw [hs]
  | error halt t =>
    rw [hx] at hs
    dsimp only at hs ⊢
    rcases hs with hs | ⟨hother, hs⟩
    · exact .inl hs
    · rw [hs]
      exact .inr ⟨hother, rfl⟩

variable (hordinary : ∀ cause, RuntimeError.Ordinary cause → other (.error cause))
include hordinary

theorem ofExcept {r : Except RuntimeError α} (h : ∀ {cause}, r = .error cause → cause.Ordinary) :
    Outlasts gaveUp other (Eval.ofExcept r) (Eval.ofExcept r) := by
  cases r with
  | ok a => exact pure a
  | error cause => exact throw (hordinary cause (h rfl))

theorem look {l : Heap → Except RuntimeError α}
    (h : ∀ {heap cause}, l heap = .error cause → cause.Ordinary) :
    Outlasts gaveUp other (Eval.look l) (Eval.look l) := by
  apply self
  intro s halt t hs
  unfold Eval.look at hs
  split at hs
  next => cases hs
  next cause hl =>
    cases hs
    exact hordinary cause (h hl)

theorem change {l : Heap → Except RuntimeError Heap}
    (h : ∀ {heap cause}, l heap = .error cause → cause.Ordinary) :
    Outlasts gaveUp other (Eval.change l) (Eval.change l) := by
  apply self
  intro s halt t hs
  unfold Eval.change at hs
  dsimp only at hs
  split at hs
  next => cases hs
  next cause hl =>
    cases hs
    exact hordinary cause (h hl)

theorem declare (frame : FrameId) (name : String) (v : Value) :
    Outlasts gaveUp other (Eval.declare frame name v) (Eval.declare frame name v) := by
  apply bind (change hordinary Heap.declare_ordinary)
  intro _
  exact pure v

theorem lookup (frame : FrameId) (name : String) :
    Outlasts gaveUp other (Eval.lookup frame name) (Eval.lookup frame name) :=
  look hordinary Heap.lookup_ordinary

theorem assign (frame : FrameId) (name : String) (v : Value) :
    Outlasts gaveUp other (Eval.assign frame name v) (Eval.assign frame name v) := by
  apply bind (change hordinary Heap.assign_ordinary)
  intro _
  exact pure v

theorem bindParams (frame : FrameId) (xs : List Ident) (args : List Value) :
    Outlasts gaveUp other (Eval.bindParams frame xs args) (Eval.bindParams frame xs args) := by
  induction xs generalizing args with
  | nil => exact pure ()
  | cons x xs ih =>
    apply bind (declare hordinary frame x.name _)
    intro _
    exact ih args.tail

end Outlasts

/-! ### The evaluator -/

/-- Evaluation with the second limit and jump outlasts evaluation with the first: jumps do, and a
call that is refused by the first limit is refused by the second, or else gives up. -/
structure Surpasses (gaveUp other : Halt → Prop) (limit limit' : Nat) (jump jump' : Jump) :
    Prop where
  ordinary : ∀ cause, RuntimeError.Ordinary cause → other (.error cause)
  calls : limit = limit' ∧ other (.error (.callDepthExceeded limit)) ∨
    limit ≤ limit' ∧ gaveUp (.error (.callDepthExceeded limit))
  jumps : ∀ frame code, Outlasts gaveUp other (jump frame code) (jump' frame code)

namespace Surpasses

variable {limit limit' : Nat} {jump jump' : Jump}

theorem apply (h : Surpasses gaveUp other limit limit' jump jump') (callee : Value)
    (args : List Value) :
    Outlasts gaveUp other (Eval.apply limit jump callee args)
      (Eval.apply limit' jump' callee args) := by
  cases callee with
  | closure fn outer =>
    have henter : Outlasts gaveUp other (Eval.enter jump fn outer args)
        (Eval.enter jump' fn outer args) := by
      apply Outlasts.bind (.self nofun)
      intro inner
      apply Outlasts.bind (.bindParams h.ordinary inner fn.params args)
      intro _
      exact .operand (.calling (h.jumps inner _))
    intro s
    rw [Eval.apply_closure, Eval.apply_closure]
    by_cases hlimit : limit ≤ s.depth
    · rw [if_pos hlimit]
      rcases h.calls with ⟨rfl, hother⟩ | ⟨-, hgaveUp⟩
      · rw [if_pos hlimit]
        exact .inr ⟨hother, rfl⟩
      · -- the first gives up here, whatever the second does
        exact .inl hgaveUp
    · have hlimit' : ¬limit' ≤ s.depth := by
        rcases h.calls with ⟨rfl, -⟩ | ⟨hle, -⟩ <;> omega
      rw [if_neg hlimit, if_neg hlimit']
      exact henter s
  | _ => exact .throw (h.ordinary _ trivial)

theorem readEntry (h : Surpasses gaveUp other limit limit' jump jump') (frame : FrameId)
    (container key : Value) :
    Outlasts gaveUp other (Eval.readEntry jump frame container key)
      (Eval.readEntry jump' frame container key) := by
  apply Outlasts.bind (.look h.ordinary Heap.read_ordinary)
  intro r
  match r with
  | some (.written e) => exact .operand (h.jumps frame _)
  | some (.assigned v) => exact .pure v.unwrap
  | none => exact .pure Value.undefined

mutual

theorem eval (h : Surpasses gaveUp other limit limit' jump jump') (frame : FrameId)
    (e : Expr Label) :
    Outlasts gaveUp other (e.eval limit jump frame) (e.eval limit' jump' frame) := by
  cases e with
  | ident _ name =>
    rw [Expr.eval, Expr.eval]
    exact .lookup h.ordinary frame name
  | str | int | bool | function | object | array =>
    rw [Expr.eval, Expr.eval]
    exact .pure _
  | unary _ op e =>
    rw [Expr.eval, Expr.eval]
    apply Outlasts.bind (.operand (eval h frame e))
    intro v
    exact .ofExcept h.ordinary UnaryOp.apply_ordinary
  | binary _ op left right =>
    rw [Expr.eval, Expr.eval]
    apply Outlasts.bind (.operand (eval h frame left))
    intro a
    apply Outlasts.bind (.operand (eval h frame right))
    intro b
    exact .ofExcept h.ordinary BinaryOp.apply_ordinary
  | cond _ condition consequence alternative =>
    have hcondition := Outlasts.operand (eval h frame condition)
    cases alternative with
    | none =>
      rw [Expr.eval, Expr.eval]
      apply Outlasts.bind hcondition
      intro v
      exact .ite (block h frame consequence) (.pure _)
    | some alternative =>
      rw [Expr.eval, Expr.eval]
      apply Outlasts.bind hcondition
      intro v
      exact .ite (block h frame consequence) (block h frame alternative)
  | call _ callee args =>
    rw [Expr.eval, Expr.eval]
    apply Outlasts.bind (.operand (eval h frame callee))
    intro f
    apply Outlasts.bind (evalArgs h frame args)
    intro vs
    exact apply h f vs
  | index _ container key =>
    rw [Expr.eval, Expr.eval]
    apply Outlasts.bind (.operand (eval h frame container))
    intro c
    apply Outlasts.bind (.operand (eval h frame key))
    intro k
    exact readEntry h frame c k
  | assign _ target value =>
    have hvalue := Outlasts.operand (eval h frame value)
    cases target with
    | ident _ name =>
      rw [Expr.eval, Expr.eval]
      apply Outlasts.bind hvalue
      intro v
      exact .assign h.ordinary frame name v
    | index span container key =>
      have hkey := Outlasts.operand (eval h frame key)
      cases container with
      | ident _ name =>
        rw [Expr.eval, Expr.eval]
        apply Outlasts.bind (.lookup h.ordinary frame name)
        intro c
        apply Outlasts.bind hkey
        intro k
        apply Outlasts.bind hvalue
        intro v
        apply Outlasts.bind (.change h.ordinary Heap.write_ordinary)
        intro _
        apply Outlasts.bind (.assign h.ordinary frame name c)
        intro _
        exact .pure v
      | _ => exact .throw (h.ordinary _ trivial)
    | _ => exact .throw (h.ordinary _ trivial)

theorem stmt (h : Surpasses gaveUp other limit limit' jump jump') (frame : FrameId)
    (x : Stmt Label) :
    Outlasts gaveUp other (x.exec limit jump frame) (x.exec limit' jump' frame) := by
  cases x with
  | declare _ _ name value =>
    cases value with
    | none =>
      rw [Stmt.exec, Stmt.exec]
      exact .declare h.ordinary frame name.name _
    | some value =>
      rw [Stmt.exec, Stmt.exec]
      apply Outlasts.bind (eval h frame value)
      intro v
      exact .ite (.pure v) (.declare h.ordinary frame name.name v)
  | function _ name fn =>
    rw [Stmt.exec, Stmt.exec]
    exact .declare h.ordinary frame name.name _
  | ret _ value =>
    rw [Stmt.exec, Stmt.exec]
    apply Outlasts.bind (.operand (eval h frame value))
    intro v
    exact .pure _
  | expr _ value =>
    rw [Stmt.exec, Stmt.exec]
    exact eval h frame value

theorem block (h : Surpasses gaveUp other limit limit' jump jump') (frame : FrameId)
    (b : Block Label) :
    Outlasts gaveUp other (b.exec limit jump frame) (b.exec limit' jump' frame) := by
  cases b with
  | mk _ statements =>
    rw [Block.exec, Block.exec]
    exact execAll h frame .undefined statements

theorem execAll (h : Surpasses gaveUp other limit limit' jump jump') (frame : FrameId)
    (last : Value) (xs : List (Stmt Label)) :
    Outlasts gaveUp other (execAll limit jump frame last xs)
      (execAll limit' jump' frame last xs) := by
  cases xs with
  | nil =>
    rw [Primer.execAll, Primer.execAll]
    exact .pure last
  | cons x xs =>
    rw [Primer.execAll, Primer.execAll]
    apply Outlasts.bind (stmt h frame x)
    intro v
    exact .ite (.pure v) (execAll h frame v xs)

theorem evalArgs (h : Surpasses gaveUp other limit limit' jump jump') (frame : FrameId)
    (es : List (Expr Label)) :
    Outlasts gaveUp other (evalArgs limit jump frame es) (evalArgs limit' jump' frame es) := by
  cases es with
  | nil =>
    rw [Primer.evalArgs, Primer.evalArgs]
    exact .pure []
  | cons e es =>
    rw [Primer.evalArgs, Primer.evalArgs]
    apply Outlasts.bind (.operand (eval h frame e))
    intro v
    apply Outlasts.bind (evalArgs h frame es)
    intro vs
    exact .pure _

end

end Surpasses

/-! ### Larger bounds -/

/-- Jumps with more fuel outlast jumps with less, which give up where they run out of it. -/
theorem jump_outlasts_fuel (limit : Nat) {fuel fuel' : Nat} (h : fuel ≤ fuel') :
    Surpasses (· = .exhausted) (fun _ => True) limit limit (jump limit fuel)
      (jump limit fuel') := by
  induction fuel generalizing fuel' with
  | zero => exact ⟨fun _ _ => trivial, .inl ⟨rfl, trivial⟩, fun _ _ => .giveUp rfl⟩
  | succ fuel ih =>
    obtain ⟨fuel', rfl⟩ := Nat.exists_eq_add_of_le h
    rw [Nat.add_right_comm]
    have hjump := ih (Nat.le_add_right fuel fuel')
    refine ⟨fun _ _ => trivial, .inl ⟨rfl, trivial⟩, ?_⟩
    intro frame code
    cases code with
    | expr e => exact hjump.eval frame e
    | block b => exact hjump.block frame b

/-- The halt is not because of too many calls. -/
def Halt.Ordinary : Halt → Prop
  | .error cause => cause.Ordinary
  | .exhausted => True

/-- With a larger limit, evaluation outlasts evaluation with a smaller one, which gives up at the
first call that is one too many for it; that is the only cause of this kind there is. -/
theorem jump_outlasts_limit {limit limit' : Nat} (h : limit ≤ limit') (fuel : Nat) :
    Surpasses (· = .error (.callDepthExceeded limit)) Halt.Ordinary limit limit'
      (jump limit fuel) (jump limit' fuel) := by
  induction fuel with
  | zero => exact ⟨fun _ h => h, .inr ⟨h, rfl⟩, fun _ _ => .throw trivial⟩
  | succ fuel ih =>
    refine ⟨fun _ h => h, .inr ⟨h, rfl⟩, ?_⟩
    intro frame code
    cases code with
    | expr e => exact ih.eval frame e
    | block b => exact ih.block frame b

/-- What holds of jumps holds of all work. -/
theorem Surpasses.work (bounds bounds' : Bounds)
    (h : Surpasses gaveUp other bounds.calls bounds'.calls (jump bounds.calls bounds.fuel)
      (jump bounds'.calls bounds'.fuel)) (frame : FrameId) (w : Work) :
    Outlasts gaveUp other (w.run bounds frame) (w.run bounds' frame) := by
  cases w with
  | program p =>
    apply Outlasts.bind (.self nofun)
    intro _
    exact .operand (h.execAll frame .undefined p.statements)
  | expr e => exact h.eval frame e
  | stmt x => exact h.stmt frame x
  | block b => exact h.block frame b
  | statements last xs => exact h.execAll frame last xs
  | call callee args => exact h.apply callee args
  | parameters xs args =>
    apply Outlasts.bind (.bindParams h.ordinary frame xs args)
    intro _
    exact .pure _
  | entry container key => exact h.readEntry frame container key
  | restore name container => exact .assign h.ordinary frame name container

/-! ### Calls under way -/

namespace Evolution

variable {R : Eval.State → Eval.State → Prop} {bounds : Bounds} {frame : FrameId} {w w' : Work}

/-- All work but that of a program evolves the state; a program also sets the number of calls under
way to zero. -/
theorem work (h : Evolution R) (hw : ∀ p, w ≠ .program p) : Evolves R (w.run bounds frame) := by
  have hj := h.jump bounds.calls bounds.fuel
  cases w with
  | program p => exact absurd rfl (hw p)
  | expr e => exact h.eval hj frame e
  | stmt x => exact h.stmt hj frame x
  | block b => exact h.block hj frame b
  | statements last xs => exact h.execAll hj frame last xs
  | call callee args => exact h.apply hj callee args
  | parameters xs args =>
    apply Evolves.bind h (h.bindParams frame xs args)
    intro _
    exact .pure h _
  | entry container key => exact h.readEntry hj frame container key
  | restore name container => exact .assign h frame name container

/-- The state in which a part of the work is begun has evolved from the state in which the work
was begun. -/
theorem inner (h : Evolution R) {s s' : Eval.State} (hw : ∀ p, w ≠ .program p)
    (hinner : Inner bounds frame w s w' s') : R s s' := by
  have hexpr {e : Expr Label} {s t : Eval.State} {v : Value}
      (hrun : (Work.expr e).run bounds frame s = .ok v t) : R s t :=
    (h.work (w := .expr e) nofun).ok hrun
  have hargs {es : List (Expr Label)} {s t : Eval.State} {vs : List Value}
      (hrun : Primer.evalArgs bounds.calls (Primer.jump bounds.calls bounds.fuel) frame es s =
        .ok vs t) : R s t :=
    (h.evalArgs (h.jump _ _) frame es).ok hrun
  have hlookup {name : String} {s t : Eval.State} {v : Value}
      (hrun : Eval.lookup frame name s = .ok v t) : R s t :=
    (Evolves.look h _).ok hrun
  cases hinner with
  | program => exact absurd rfl (hw _)
  | operand | left | condition | callee | container | value | declared | returned | expr | block
  | first => exact h.refl s
  | right hleft => exact hexpr hleft
  | consequence hcondition _ => exact hexpr hcondition
  | alternative hcondition _ => exact hexpr hcondition
  | argument hcallee hbefore => exact h.trans (hexpr hcallee) (hargs hbefore)
  | call hcallee hall => exact h.trans (hexpr hcallee) (hargs hall)
  | parameter hfirst => exact (Evolves.declare h frame _ _).ok hfirst
  | key hcontainer => exact hexpr hcontainer
  | entry hcontainer hkey => exact h.trans (hexpr hcontainer) (hexpr hkey)
  | entryKey hname => exact hlookup hname
  | entryValue hname hkey => exact h.trans (hlookup hname) (hexpr hkey)
  | restore hname hkey hvalue hwrite =>
    have hbefore := h.trans (hlookup hname) (h.trans (hexpr hkey) (hexpr hvalue))
    exact h.trans hbefore ((Evolves.change h h.write).ok hwrite)
  | rest hfirst _ => exact (h.work (w := .stmt _) nofun).ok hfirst

end Evolution

/-- How many calls become active by going from some work to a part of it: a call is active while
the body of the function is run. -/
def Work.enters : Work → Work → Nat
  | .call .., .block _ => 1
  | _, _ => 0

/-- The task `u` is done within `t`, and of the calls between them `n` are active. -/
inductive ActiveCalls (t : Task) : Nat → Task → Prop where
  | start : ActiveCalls t 0 t
  | part {n : Nat} {u v : Task} (h : ActiveCalls t n u) (hpart : Part u v) :
    ActiveCalls t (n + u.work.enters v.work) v

/-- Every task within another has a number of active calls. -/
theorem Within.activeCalls {t u : Task} (h : Within t u) : ∃ n, ActiveCalls t n u := by
  induction h with
  | refl => exact ⟨0, .start⟩
  | tail _ hpart ih =>
    obtain ⟨n, hn⟩ := ih
    exact ⟨_, .part hn hpart⟩

namespace Task

/-- The number of calls under way once the task is begun; a program starts from none. -/
def depth (t : Task) : Nat :=
  match t.work with
  | .program _ => 0
  | _ => t.state.depth

theorem depth_of_ne_program {t : Task} (h : ∀ p, t.work ≠ .program p) :
    t.depth = t.state.depth := by
  unfold depth
  split
  next p hp => exact absurd hp (h p)
  next => rfl

/-- However a task ends, as many calls are under way as when it was begun. -/
theorem depth_after (t : Task) : t.after.depth = t.depth := by
  obtain ⟨bounds, frame, w, s⟩ := t
  by_cases hw : ∃ p, w = .program p
  · obtain ⟨p, rfl⟩ := hw
    have hsteady : Evolves Eval.State.Steady
        (Eval.operand (execAll bounds.calls (jump bounds.calls bounds.fuel) frame .undefined
          p.statements)) :=
      .operand Eval.State.steady (Eval.State.steady.execAll (Eval.State.steady.jump _ _) _ _ _)
    exact (hsteady.after { s with depth := 0 }).depth
  · have hw' : ∀ p, w ≠ .program p := fun p hp => hw ⟨p, hp⟩
    rw [depth_of_ne_program hw']
    exact ((Eval.State.steady.work hw').after s).depth

end Task

/-- A part of a task is begun with the calls of the task under way, and one more if it is the body
of a function; the limit admits that one. -/
theorem Part.depth_eq {t u : Task} (h : Part t u) :
    u.bounds.calls = t.bounds.calls ∧ u.depth = t.depth + t.work.enters u.work ∧
      (t.depth ≤ t.bounds.calls → u.depth ≤ u.bounds.calls) := by
  cases h with
  | @inner bounds frame w s w' s' h =>
    have hnone : w.enters w' = 0 := by cases h <;> rfl
    have hnext : ∀ p, w' ≠ .program p := by cases h <;> exact nofun
    have hdepth : s'.depth = Task.depth ⟨bounds, frame, w, s⟩ := by
      by_cases hw : ∃ p, w = .program p
      · obtain ⟨p, rfl⟩ := hw
        cases h
        rfl
      · have hw' : ∀ p, w ≠ .program p := fun p hp => hw ⟨p, hp⟩
        rw [Task.depth_of_ne_program hw']
        exact (Eval.State.steady.inner hw' h).depth
    refine ⟨rfl, ?_, ?_⟩
    · rw [Task.depth_of_ne_program hnext, hnone, hdepth]
      rfl
    · intro hle
      rw [Task.depth_of_ne_program hnext, hdepth]
      exact hle
  | parameters hdepth hframe =>
    have hsteady := (Evolves.newFrame Eval.State.steady _).ok hframe
    refine ⟨rfl, hsteady.depth, ?_⟩
    intro hle
    exact Nat.le_trans (Nat.le_of_eq hsteady.depth) hle
  | @body bounds frame fn outer args s inner t u fuel hdepth hframe hparams _ =>
    have hframe' := (Evolves.newFrame Eval.State.steady _).ok hframe
    have hparams' := (Eval.State.steady.bindParams _ _ _).ok hparams
    have heq : u.depth = s.depth := hparams'.depth.trans hframe'.depth
    refine ⟨rfl, congrArg (· + 1) heq, ?_⟩
    intro _
    show u.depth + 1 ≤ bounds.calls
    omega
  | written => exact ⟨rfl, rfl, id⟩

/-- At every moment of a task the count of calls under way is right, and within the limit. -/
theorem ActiveCalls.depth_eq {t u : Task} {n : Nat} (h : ActiveCalls t n u) :
    u.bounds.calls = t.bounds.calls ∧ u.depth = t.depth + n ∧
      (t.depth ≤ t.bounds.calls → u.depth ≤ t.bounds.calls) := by
  induction h with
  | start => exact ⟨rfl, rfl, id⟩
  | @part n u v h hpart ih =>
    obtain ⟨hcalls, hdepth, hle⟩ := ih
    obtain ⟨hcalls', hdepth', hle'⟩ := hpart.depth_eq
    refine ⟨hcalls'.trans hcalls, by omega, ?_⟩
    intro ht
    have hu := hle' (by rw [hcalls]; exact hle ht)
    rwa [hcalls', hcalls] at hu

/-! ### The limit of calls -/

/-- Has the run come to an end of its own, and not to the end of its fuel? -/
def ended {α : Type} : EStateM.Result Halt Eval.State α → Bool
  | .error .exhausted _ => false
  | _ => true

/-- Was the run ended by a call too many? -/
def overrun {α : Type} : EStateM.Result Halt Eval.State α → Bool
  | .error (.error (.callDepthExceeded _)) _ => true
  | _ => false

section

variable (w : Work) (frame : FrameId) (s : Eval.State) {limit limit' fuel fuel' : Nat}

/-- A run that comes to an end is the same with more fuel. -/
theorem run_of_more_fuel (hended : ended (w.run ⟨limit, fuel⟩ frame s)) (hfuel : fuel ≤ fuel') :
    w.run ⟨limit, fuel'⟩ frame s = w.run ⟨limit, fuel⟩ frame s := by
  have h := Surpasses.work ⟨limit, fuel⟩ ⟨limit, fuel'⟩ (jump_outlasts_fuel limit hfuel) frame w s
  cases hrun : w.run ⟨limit, fuel⟩ frame s with
  | ok v t =>
    rw [hrun] at h
    exact h
  | error halt t =>
    rw [hrun] at h hended
    rcases h with rfl | ⟨-, h⟩
    · exact absurd hended Bool.false_ne_true
    · exact h

/-- A run that is not ended by a call too many is the same with a larger limit. -/
theorem run_of_larger_limit (hrun : overrun (w.run ⟨limit, fuel⟩ frame s) = false)
    (hlimit : limit ≤ limit') :
    w.run ⟨limit', fuel⟩ frame s = w.run ⟨limit, fuel⟩ frame s := by
  have h := Surpasses.work ⟨limit, fuel⟩ ⟨limit', fuel⟩ (jump_outlasts_limit hlimit fuel) frame w s
  cases hresult : w.run ⟨limit, fuel⟩ frame s with
  | ok v t =>
    rw [hresult] at h
    exact h
  | error halt t =>
    rw [hresult] at h hrun
    rcases h with rfl | ⟨-, h⟩
    · simp [overrun] at hrun
    · exact h

/-- A run that is ended by a call too many is ended so with a smaller limit too, and the limit in
the error is the limit of the run. -/
theorem run_of_smaller_limit {n : Nat} {t : Eval.State}
    (hrun : w.run ⟨limit, fuel⟩ frame s = .error (.error (.callDepthExceeded n)) t)
    (hlimit : limit' ≤ limit) :
    ∃ t', w.run ⟨limit', fuel⟩ frame s = .error (.error (.callDepthExceeded limit')) t' := by
  have h := Surpasses.work ⟨limit', fuel⟩ ⟨limit, fuel⟩ (jump_outlasts_limit hlimit fuel) frame w s
  cases hresult : w.run ⟨limit', fuel⟩ frame s with
  | ok v u =>
    rw [hresult, hrun] at h
    cases h
  | error halt u =>
    rw [hresult, hrun] at h
    rcases h with rfl | ⟨hother, h⟩
    · exact ⟨u, rfl⟩
    · -- the larger limit is named by an error that the smaller one does not give
      cases h
      exact absurd hother id

end

/-- **The limit of calls is a threshold.**  A run that ends, and not by a call too many, ends the
same way and in the same state with any larger limit.  A run that is ended by a call too many is
ended so with any smaller limit, and the error names the limit.  At every moment of a run the calls
under way are those of its beginning and the active ones, and no more than the limit admits; and
whatever is begun in a run leaves their number as it found it, in whichever way it ends. -/
theorem call_limit_is_threshold (w : Work) (frame : FrameId) (s : Eval.State) (limit fuel : Nat) :
    (ended (w.run ⟨limit, fuel⟩ frame s) → overrun (w.run ⟨limit, fuel⟩ frame s) = false →
      ∀ limit' fuel', limit ≤ limit' → fuel ≤ fuel' →
        w.run ⟨limit', fuel'⟩ frame s = w.run ⟨limit, fuel⟩ frame s) ∧
    (∀ n t, w.run ⟨limit, fuel⟩ frame s = .error (.error (.callDepthExceeded n)) t →
      n = limit ∧ ∀ limit' fuel', limit' ≤ limit → fuel ≤ fuel' →
        ∃ t', w.run ⟨limit', fuel'⟩ frame s = .error (.error (.callDepthExceeded limit')) t') ∧
    let start : Task := ⟨⟨limit, fuel⟩, frame, w, s⟩
    ∀ u, Within start u →
      (∃ n, ActiveCalls start n u) ∧ (∀ n, ActiveCalls start n u → u.depth = start.depth + n) ∧
        (start.depth ≤ limit → u.depth ≤ limit) ∧ u.after.depth = u.depth := by
  refine ⟨?_, ?_, ?_⟩
  · intro hended hrun limit' fuel' hlimit hfuel
    rw [← run_of_more_fuel w frame s hended hfuel] at hrun
    rw [run_of_larger_limit w frame s hrun hlimit, run_of_more_fuel w frame s hended hfuel]
  · intro n t hrun
    have hended : ended (w.run ⟨limit, fuel⟩ frame s) := by rw [hrun]; rfl
    constructor
    · obtain ⟨t', hrun'⟩ := run_of_smaller_limit w frame s hrun (Nat.le_refl limit)
      rw [hrun] at hrun'
      cases hrun'
      rfl
    · intro limit' fuel' hlimit hfuel
      have hrun' := (run_of_more_fuel w frame s hended hfuel).trans hrun
      exact run_of_smaller_limit w frame s hrun' hlimit
  · intro start u hu
    obtain ⟨n, hn⟩ := hu.activeCalls
    exact ⟨⟨n, hn⟩, fun _ hm => hm.depth_eq.2.1, hn.depth_eq.2.2, u.depth_after⟩

/-- A program that calls a function which calls itself twice. -/
def countdown : Program Label :=
  (Heap.empty.load
    (parse "function f(n) { if (n > 0) { return f(n - 1); } return n; } f(2);").1).1

/-- Three calls are enough for the countdown, and two are not. -/
theorem call_limit_is_threshold_countdown :
    (match (Work.program countdown).run ⟨3, 3⟩ Heap.root .empty with
      | .ok v _ => v.text
      | .error _ _ => "") = "0 : integer" ∧
    (∀ limit' fuel', 3 ≤ limit' → 3 ≤ fuel' →
      (Work.program countdown).run ⟨limit', fuel'⟩ Heap.root .empty =
        (Work.program countdown).run ⟨3, 3⟩ Heap.root .empty) ∧
    ∀ limit' fuel', limit' ≤ 2 → 3 ≤ fuel' →
      ∃ t', (Work.program countdown).run ⟨limit', fuel'⟩ Heap.root .empty =
        .error (.error (.callDepthExceeded limit')) t' := by
  have hended : ended ((Work.program countdown).run ⟨3, 3⟩ Heap.root .empty) := by decide +kernel
  have henough : overrun ((Work.program countdown).run ⟨3, 3⟩ Heap.root .empty) = false := by
    decide +kernel
  have htoofew : overrun ((Work.program countdown).run ⟨2, 3⟩ Heap.root .empty) := by
    decide +kernel
  refine ⟨by decide +kernel, ?_, ?_⟩
  · exact (call_limit_is_threshold _ Heap.root .empty 3 3).1 hended henough
  · unfold overrun at htoofew
    split at htoofew
    next n t hrun => exact ((call_limit_is_threshold _ Heap.root .empty 2 3).2.1 n t hrun).2
    next => exact absurd htoofew Bool.false_ne_true

end Primer
