/-
  Primer/Proofs/Eval/Tasks.lean
  =============================
  **What an evaluation is busy with, and when.**

  A computation is a function from states to results and does not show the states in between.
  A `Task` is a piece of work with the bounds, the frame and the state in which it is begun,
  and `Part t u` says that `u` is begun while `t` is done: a part of an expression once the
  parts before it have their values, a statement once those before it are done, the body of a
  function once its parameters are declared, and so on.  The tasks within a task
  (`Within`) are all that an evaluation does on the way.  The heap is changed by nothing but
  a declaration, an assignment, a write to an entry or a new frame, and each of these ends a
  task or comes right before one is begun; so what holds at the beginning and at the end of
  every task within an evaluation holds throughout it.
-/
import Mathlib.Logic.Relation
import Primer.Proofs.Eval.Evolution

namespace Primer

/-- Something that an evaluation can be busy with. -/
inductive Work where
  | program (p : Program Label)
  | expr (e : Expr Label)
  | stmt (x : Stmt Label)
  | block (b : Block Label)
  /-- statements behind others, of which the last gave `last` -/
  | statements (last : Value) (xs : List (Stmt Label))
  | call (callee : Value) (args : List Value)
  /-- the declarations of parameters in a new frame -/
  | parameters (xs : List Ident) (args : List Value)
  /-- the reading of `container[key]` -/
  | entry (container key : Value)
  /-- the end of an assignment to an entry, which assigns the container to its name again -/
  | restore (name : String) (container : Value)

/-- The computation that does the work. -/
def Work.run (bounds : Bounds) (frame : FrameId) : Work → Eval Value
  | program p => bounds.evaluate frame p
  | expr e => e.eval bounds.calls (jump bounds.calls bounds.fuel) frame
  | stmt x => bounds.execute frame x
  | block b => bounds.executeBlock frame b
  | statements last xs => execAll bounds.calls (jump bounds.calls bounds.fuel) frame last xs
  | call callee args => bounds.call callee args
  | parameters xs args => do
    Eval.bindParams frame xs args
    return .undefined
  | entry container key => Eval.readEntry (jump bounds.calls bounds.fuel) frame container key
  | restore name container => Eval.assign frame name container

/-- Work to be done in a frame, within bounds, from a state on. -/
structure Task where
  bounds : Bounds
  frame : FrameId
  work : Work
  state : Eval.State

/-- How the task ends. -/
def Task.run (t : Task) : EStateM.Result Halt Eval.State Value :=
  t.work.run t.bounds t.frame t.state

/-- The state that the task leads to, whether it ends in a value or halts. -/
def Task.after (t : Task) : Eval.State := Eval.after (t.work.run t.bounds t.frame) t.state

/-- Work that is begun while other work is done, within the same bounds and in the same frame;
each stands with the state in which it is begun. -/
inductive Inner (bounds : Bounds) (frame : FrameId) :
    Work → Eval.State → Work → Eval.State → Prop where
  | program {p s} : Inner bounds frame (.program p) s
      (.statements .undefined p.statements) { s with depth := 0 }
  -- operators
  | operand {span op e s} : Inner bounds frame (.expr (.unary span op e)) s (.expr e) s
  | left {span op l r s} : Inner bounds frame (.expr (.binary span op l r)) s (.expr l) s
  | right {span op l r s a t} (hleft : (Work.expr l).run bounds frame s = .ok a t) :
    Inner bounds frame (.expr (.binary span op l r)) s (.expr r) t
  -- conditionals
  | condition {span c yes no s} : Inner bounds frame (.expr (.cond span c yes no)) s (.expr c) s
  | consequence {span c yes no s v t} (hcondition : (Work.expr c).run bounds frame s = .ok v t)
      (htrue : v.unwrap.isTruthy = true) :
    Inner bounds frame (.expr (.cond span c yes no)) s (.block yes) t
  | alternative {span c yes no s v t} (hcondition : (Work.expr c).run bounds frame s = .ok v t)
      (hfalse : v.unwrap.isTruthy = false) :
    Inner bounds frame (.expr (.cond span c yes (some no))) s (.block no) t
  -- calls
  | callee {span f args s} : Inner bounds frame (.expr (.call span f args)) s (.expr f) s
  | argument {span f before e after s v t vs u}
      (hcallee : (Work.expr f).run bounds frame s = .ok v t)
      (hbefore : evalArgs bounds.calls (jump bounds.calls bounds.fuel) frame before t = .ok vs u) :
    Inner bounds frame (.expr (.call span f (before ++ e :: after))) s (.expr e) u
  | call {span f args s v t vs u} (hcallee : (Work.expr f).run bounds frame s = .ok v t)
      (hargs : evalArgs bounds.calls (jump bounds.calls bounds.fuel) frame args t = .ok vs u) :
    Inner bounds frame (.expr (.call span f args)) s (.call v.unwrap vs) u
  | parameter {x xs args s v t}
      (hfirst : Eval.declare frame x.name (args.headD .undefined) s = .ok v t) :
    Inner bounds frame (.parameters (x :: xs) args) s (.parameters xs args.tail) t
  -- entries
  | container {span c k s} : Inner bounds frame (.expr (.index span c k)) s (.expr c) s
  | key {span c k s v t} (hcontainer : (Work.expr c).run bounds frame s = .ok v t) :
    Inner bounds frame (.expr (.index span c k)) s (.expr k) t
  | entry {span c k s v t w u} (hcontainer : (Work.expr c).run bounds frame s = .ok v t)
      (hkey : (Work.expr k).run bounds frame t = .ok w u) :
    Inner bounds frame (.expr (.index span c k)) s (.entry v.unwrap w.unwrap) u
  -- assignments to a name, and to an entry of what a name stands for
  | value {span span' name e s} :
    Inner bounds frame (.expr (.assign span (.ident span' name) e)) s (.expr e) s
  | entryKey {span span' span'' name k e s c t} (hname : Eval.lookup frame name s = .ok c t) :
    Inner bounds frame (.expr (.assign span (.index span' (.ident span'' name) k) e)) s (.expr k) t
  | entryValue {span span' span'' name k e s c t w u} (hname : Eval.lookup frame name s = .ok c t)
      (hkey : (Work.expr k).run bounds frame t = .ok w u) :
    Inner bounds frame (.expr (.assign span (.index span' (.ident span'' name) k) e)) s (.expr e) u
  | restore {span span' span'' name k e s c t w u v x y}
      (hname : Eval.lookup frame name s = .ok c t)
      (hkey : (Work.expr k).run bounds frame t = .ok w u)
      (hvalue : (Work.expr e).run bounds frame u = .ok v x)
      (hwrite : Eval.change (·.write c w.unwrap ⟨e.span, v.unwrap⟩ span' k.span) x = .ok () y) :
    Inner bounds frame (.expr (.assign span (.index span' (.ident span'' name) k) e)) s
      (.restore name c) y
  -- statements
  | declared {span isConst name e s} :
    Inner bounds frame (.stmt (.declare span isConst name (some e))) s (.expr e) s
  | returned {span e s} : Inner bounds frame (.stmt (.ret span e)) s (.expr e) s
  | expr {span e s} : Inner bounds frame (.stmt (.expr span e)) s (.expr e) s
  | block {span xs s} : Inner bounds frame (.block ⟨span, xs⟩) s (.statements .undefined xs) s
  | first {last x xs s} : Inner bounds frame (.statements last (x :: xs)) s (.stmt x) s
  | rest {last x xs s v t} (hfirst : (Work.stmt x).run bounds frame s = .ok v t)
      (hgoes : v.isReturned = false) :
    Inner bounds frame (.statements last (x :: xs)) s (.statements v xs) t

/-- The second task is begun while the first is done. A call makes a frame, declares the
parameters there and runs the body there; the body, and an entry of a literal that is read, are
run with less fuel. -/
inductive Part : Task → Task → Prop where
  | inner {bounds frame w s w' s'} (h : Inner bounds frame w s w' s') :
    Part ⟨bounds, frame, w, s⟩ ⟨bounds, frame, w', s'⟩
  | parameters {bounds frame fn outer args s inner t} (hdepth : s.depth < bounds.calls)
      (hframe : Eval.newFrame outer s = .ok inner t) :
    Part ⟨bounds, frame, .call (.closure fn outer) args, s⟩
      ⟨bounds, inner, .parameters fn.params args, t⟩
  | body {bounds frame fn outer args s inner t u fuel} (hdepth : s.depth < bounds.calls)
      (hframe : Eval.newFrame outer s = .ok inner t)
      (hparams : Eval.bindParams inner fn.params args t = .ok () u)
      (hfuel : bounds.fuel = fuel + 1) :
    Part ⟨bounds, frame, .call (.closure fn outer) args, s⟩
      ⟨{ bounds with fuel }, inner, .block fn.body, { u with depth := u.depth + 1 }⟩
  | written {bounds frame c k e s fuel} (hread : s.heap.read c k = .ok (some (.written e)))
      (hfuel : bounds.fuel = fuel + 1) :
    Part ⟨bounds, frame, .entry c k, s⟩ ⟨{ bounds with fuel }, frame, .expr e, s⟩

/-- The second task is the first, or is done on the way. -/
def Within : Task → Task → Prop := Relation.ReflTransGen Part

/-! ### Calls -/

/-- What a call does once it is not refused: it makes a frame, declares the parameters there and
runs the body there. -/
def Eval.enter (jump : Jump) (fn : Function Label) (outer : FrameId) (args : List Value) :
    Eval Value := do
  let inner ← Eval.newFrame outer
  Eval.bindParams inner fn.params args
  Eval.operand (Eval.calling (jump inner (.block fn.body)))

/-- A call of a function is refused, or is entered. -/
theorem Eval.apply_closure (limit : Nat) (jump : Jump) (fn : Function Label) (outer : FrameId)
    (args : List Value) (s : Eval.State) :
    Eval.apply limit jump (.closure fn outer) args s =
      if limit ≤ s.depth then .error (.error (.callDepthExceeded limit)) s
      else Eval.enter jump fn outer args s := by
  show (if limit ≤ s.depth then _ else _ : Eval Value) s = _
  split <;> rfl

end Primer
