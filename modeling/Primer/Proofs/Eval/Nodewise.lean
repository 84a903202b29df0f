/-
  Primer/Proofs/Eval/Nodewise.lean
  ================================
  **Evaluation commutes with translations that go through a tree node by node.**

  A translation is `Nodewise` if it replaces a node by one of the same kind, with the parts of the
  node translated; of a list of statements it may also drop what follows a `return`.  Evaluation is
  recursive on the tree in the same way, and the code that it jumps into is translated as well, so
  it commutes with such a translation (`Nodewise.execAll_commutes`).  What is dropped is never
  reached: a `return` gives a signal or halts (`execAll_ret_cons`).

  So a program and its translation end alike, from one state, if translating a second time changes
  nothing (`Nodewise.evaluate_sameEnd`).
-/
import Primer.Proofs.Eval.Translation

namespace Primer

/-- Is the statement a `return`? -/
def Stmt.isReturn {ι : Type} : Stmt ι → Bool
  | .ret .. => true
  | _ => false

namespace Translation

/-! ### One node -/

section

variable (T : Translation)

/-- An expression whose parts are translated. -/
def node (block : Block Label → Block Label) : Expr Label → Expr Label
  | .ident span name => .ident (T.span span) name
  | .str span text => .str (T.span span) text
  | .int span value => .int (T.span span) value
  | .bool span value => .bool (T.span span) value
  | .unary span op operand => .unary (T.span span) op (T.expr operand)
  | .binary span op left right => .binary (T.span span) op (T.expr left) (T.expr right)
  | .cond span condition consequence alternative =>
    .cond (T.span span) (T.expr condition) (block consequence) (alternative.map block)
  | .function span fn => .function (T.span span) (T.function fn)
  | .call span callee args => .call (T.span span) (T.expr callee) (args.map T.expr)
  | .index span container key => .index (T.span span) (T.expr container) (T.expr key)
  | .assign span target value => .assign (T.span span) (T.expr target) (T.expr value)
  | .object span label properties => .object (T.span span) label (properties.map T.property)
  | .array span label elements => .array (T.span span) label (elements.map T.expr)

/-- A statement whose parts are translated. -/
def statement : Stmt Label → Stmt Label
  | .declare span isConst name value =>
    .declare (T.span span) isConst (name.mapSpans T.span) (value.map T.expr)
  | .function span name fn => .function (T.span span) (name.mapSpans T.span) (T.function fn)
  | .ret span value => .ret (T.span span) (T.expr value)
  | .expr span value => .expr (T.span span) (T.expr value)

/-- The translation replaces nodes one by one; behind a `return` it may drop statements. -/
structure Nodewise where
  block : Block Label → Block Label
  stmts : List (Stmt Label) → List (Stmt Label)
  expr_eq : ∀ e, T.expr e = T.node block e
  body_eq : ∀ fn, (T.function fn).body = block fn.body
  block_eq : ∀ span xs, block ⟨span, xs⟩ = ⟨T.span span, stmts xs⟩
  stmts_nil : stmts [] = []
  stmts_cons : ∀ x xs, stmts (x :: xs) = T.statement x :: stmts xs ∨
    x.isReturn = true ∧ stmts (x :: xs) = [T.statement x]

end

/-! ### Evaluation -/

section

variable {limit : Nat} {jump jump' : Jump}

/-- **Statements behind a `return` are not executed.** -/
theorem execAll_ret_cons (frame : FrameId) (last : Value) (span : Span) (value : Expr Label)
    (xs : List (Stmt Label)) :
    execAll limit jump frame last (.ret span value :: xs) =
      (Stmt.ret span value).exec limit jump frame := by
  rw [execAll, Stmt.exec, bind_assoc]
  simp only [pure_bind, Value.isReturned, if_true]

namespace Nodewise

variable {T : Translation}

theorem span_expr (N : T.Nodewise) (e : Expr Label) : (T.expr e).span = T.span e.span := by
  rw [N.expr_eq]
  cases e <;> rfl

mutual

theorem eval_commutes (N : T.Nodewise) (hj : T.Jumps jump jump') (frame : FrameId)
    (e : Expr Label) : Commutes T T.value (e.eval limit jump frame) ((T.expr e).eval limit jump' frame) := by
  cases e with
  | ident _ name =>
    rw [N.expr_eq, node, Expr.eval, Expr.eval]
    exact .lookup frame name
  | str _ text =>
    rw [N.expr_eq, node, Expr.eval, Expr.eval]
    exact .pure (Value.string text)
  | int _ value =>
    rw [N.expr_eq, node, Expr.eval, Expr.eval]
    exact .pure (Value.integer value)
  | bool _ value =>
    rw [N.expr_eq, node, Expr.eval, Expr.eval]
    exact .pure (Value.boolean value)
  | unary _ op e =>
    rw [N.expr_eq, node, Expr.eval, Expr.eval]
    apply Commutes.bind (.operand (eval_commutes N hj frame e))
    intro v
    exact .ofExcept (T.unaryOp_apply v op)
  | binary _ op left right =>
    rw [N.expr_eq, node, Expr.eval, Expr.eval]
    apply Commutes.bind (.operand (eval_commutes N hj frame left))
    intro a
    apply Commutes.bind (.operand (eval_commutes N hj frame right))
    intro b
    exact .ofExcept (T.binaryOp_apply a b op)
  | cond _ condition consequence alternative =>
    have hcondition := Commutes.operand (eval_commutes N hj frame condition)
    cases alternative with
    | none =>
      rw [N.expr_eq, node, Option.map_none, Expr.eval, Expr.eval]
      apply Commutes.bind hcondition
      intro v
      rw [isTruthy_value]
      exact .ite (block_commutes N hj frame consequence) (.pure Value.null)
    | some alternative =>
      rw [N.expr_eq, node, Option.map_some, Expr.eval, Expr.eval]
      apply Commutes.bind hcondition
      intro v
      rw [isTruthy_value]
      exact .ite (block_commutes N hj frame consequence) (block_commutes N hj frame alternative)
  | function _ fn =>
    rw [N.expr_eq, node, Expr.eval, Expr.eval]
    exact .pure (Value.closure fn frame)
  | call _ callee args =>
    rw [N.expr_eq, node, Expr.eval, Expr.eval]
    apply Commutes.bind (.operand (eval_commutes N hj frame callee))
    intro v
    apply Commutes.bind (evalArgs_commutes N hj frame args)
    intro vs
    exact hj.apply v vs
  | index _ container key =>
    rw [N.expr_eq, node, Expr.eval, Expr.eval]
    apply Commutes.bind (.operand (eval_commutes N hj frame container))
    intro c
    apply Commutes.bind (.operand (eval_commutes N hj frame key))
    intro k
    exact hj.readEntry frame c k
  | assign _ target value =>
    have hvalue := Commutes.operand (eval_commutes N hj frame value)
    rw [N.expr_eq, node, N.expr_eq target]
    cases target with
    | ident _ name =>
      rw [node, Expr.eval, Expr.eval]
      apply Commutes.bind hvalue
      intro v
      exact .assign frame name v
    | index span container key =>
      have hkey := Commutes.operand (eval_commutes N hj frame key)
      rw [node, N.expr_eq container]
      cases container with
      | ident _ name =>
        rw [node, Expr.eval, Expr.eval, N.span_expr, N.span_expr]
        apply Commutes.bind (.lookup frame name)
        intro c
        apply Commutes.bind hkey
        intro k
        apply Commutes.bind hvalue
        intro v
        apply Commutes.bind (.change fun heap => T.write_heap heap c k ⟨value.span, v⟩ span key.span)
        intro _
        apply Commutes.bind (.assign frame name c)
        intro _
        exact .pure v
      | _ =>
        rw [node]
        exact .throw _
    | _ =>
      rw [node]
      exact .throw _
  | object _ label properties =>
    rw [N.expr_eq, node, Expr.eval, Expr.eval]
    exact .pure (Value.object label properties)
  | array _ label elements =>
    rw [N.expr_eq, node, Expr.eval, Expr.eval]
    exact .pure (Value.array label elements)

theorem stmt_commutes (N : T.Nodewise) (hj : T.Jumps jump jump') (frame : FrameId)
    (x : Stmt Label) : Commutes T T.value (x.exec limit jump frame) ((T.statement x).exec limit jump' frame) := by
  cases x with
  | declare _ _ name value =>
    cases value with
    | none =>
      rw [statement, Option.map_none, Stmt.exec, Stmt.exec]
      exact .declare frame name.name .undefined
    | some value =>
      rw [statement, Option.map_some, Stmt.exec, Stmt.exec]
      apply Commutes.bind (eval_commutes N hj frame value)
      intro v
      rw [isReturned_value]
      exact .ite (.pure v) (.declare frame name.name v)
  | function _ name fn =>
    rw [statement, Stmt.exec, Stmt.exec]
    exact .declare frame name.name (.closure fn frame)
  | ret _ value =>
    rw [statement, Stmt.exec, Stmt.exec]
    apply Commutes.bind (.operand (eval_commutes N hj frame value))
    intro v
    exact .pure (Value.returned v)
  | expr _ value =>
    rw [statement, Stmt.exec, Stmt.exec]
    exact eval_commutes N hj frame value

theorem block_commutes (N : T.Nodewise) (hj : T.Jumps jump jump') (frame : FrameId)
    (b : Block Label) : Commutes T T.value (b.exec limit jump frame) ((N.block b).exec limit jump' frame) := by
  cases b with
  | mk _ statements =>
    rw [N.block_eq, Block.exec, Block.exec]
    exact execAll_commutes N hj frame .undefined statements

theorem execAll_commutes (N : T.Nodewise) (hj : T.Jumps jump jump') (frame : FrameId) (last : Value)
    (xs : List (Stmt Label)) :
    Commutes T T.value (execAll limit jump frame last xs)
      (execAll limit jump' frame (T.value last) (N.stmts xs)) := by
  cases xs with
  | nil =>
    rw [N.stmts_nil, execAll, execAll]
    exact .pure last
  | cons x xs =>
    have hx := stmt_commutes N hj frame x
    rcases N.stmts_cons x xs with hkept | ⟨hreturn, hdropped⟩
    · rw [hkept, execAll, execAll]
      apply Commutes.bind hx
      intro v
      rw [isReturned_value]
      exact .ite (.pure v) (execAll_commutes N hj frame v xs)
    · rw [hdropped]
      cases x with
      | ret span value =>
        rw [statement, execAll_ret_cons, execAll_ret_cons]
        exact hx
      | _ => cases hreturn

theorem evalArgs_commutes (N : T.Nodewise) (hj : T.Jumps jump jump') (frame : FrameId)
    (es : List (Expr Label)) : Commutes T (List.map T.value) (evalArgs limit jump frame es)
      (evalArgs limit jump' frame (es.map T.expr)) := by
  cases es with
  | nil =>
    rw [List.map_nil, evalArgs, evalArgs]
    exact .pure []
  | cons e es =>
    rw [List.map_cons, evalArgs, evalArgs]
    apply Commutes.bind (.operand (eval_commutes N hj frame e))
    intro v
    apply Commutes.bind (evalArgs_commutes N hj frame es)
    intro vs
    exact .pure (v :: vs)

end

/-- The knot is tied with the same fuel on both sides. -/
theorem jumps (N : T.Nodewise) (limit fuel : Nat) : T.Jumps (Primer.jump limit fuel) (Primer.jump limit fuel) := by
  induction fuel with
  | zero =>
    constructor
    · intro frame e
      exact .throw _
    · intro frame fn
      exact .throw _
  | succ fuel ih =>
    constructor
    · intro frame e
      exact N.eval_commutes ih frame e
    · intro frame fn
      rw [N.body_eq]
      exact N.block_commutes ih frame fn.body

/-- A program and its translation, whatever becomes of its own span. -/
theorem evaluate_commutes (N : T.Nodewise) (bounds : Bounds) (frame : FrameId)
    {p p' : Program Label} (hp : p'.statements = N.stmts p.statements) :
    Commutes T T.value (bounds.evaluate frame p) (bounds.evaluate frame p') := by
  have hj := N.jumps bounds.calls bounds.fuel
  unfold Bounds.evaluate
  rw [hp]
  have hreset : Commutes T id (modify ({ · with depth := 0 }) : Eval Unit)
      (modify ({ · with depth := 0 })) := fun _ => rfl
  apply Commutes.bind hreset
  intro _
  exact .operand (N.execAll_commutes hj frame .undefined p.statements)

end Nodewise

end

/-! ### Ends that a translation makes equal -/

section

variable (T : Translation)

/-- The heaps have the same frames, with the same names in each, and the same entries assigned to;
values are the same up to the translation. -/
structure SameHeap (h h' : Heap) : Prop where
  size : h'.frames.size = h.frames.size
  parent : ∀ f, h'.parent? f = h.parent? f
  names : ∀ f, (h'.bindings f).keys = (h.bindings f).keys
  values : ∀ f name, (h'.own? f name).map T.value = (h.own? f name).map T.value
  properties : ∀ label,
    (h'.assignedProperties label).map T.record = (h.assignedProperties label).map T.record
  slots : ∀ label, (h'.slots.get? label).map (List.map (Option.map T.assigned)) =
    (h.slots.get? label).map (List.map (Option.map T.assigned))

/-- Both runs give a value, the same up to the translation, or both halt for the same cause. -/
def SameEnd : EStateM.Result Halt Eval.State Value → EStateM.Result Halt Eval.State Value → Prop
  | .ok v s, .ok v' s' => T.value v' = T.value v ∧ s'.depth = s.depth ∧ T.SameHeap s.heap s'.heap
  | .error halt s, .error halt' s' =>
    halt' = halt ∧ s'.depth = s.depth ∧ T.SameHeap s.heap s'.heap
  | _, _ => False

variable {T}

theorem keys_bindings_heap (h : Heap) (f : FrameId) :
    ((T.heap h).bindings f).keys = (h.bindings f).keys := by
  unfold Heap.bindings Table.keys
  rw [frames_heap]
  cases h.frames[f]? with
  | none => rfl
  | some fr => exact List.map_map

theorem sameHeap_of_heap_eq {h h' : Heap} (heq : T.heap h' = T.heap h) : T.SameHeap h h' where
  size := by
    have hsize := congrArg (·.frames.size) heq
    simpa only [heap, Array.size_map] using hsize
  parent f := by rw [← T.parent?_heap h', heq, parent?_heap]
  names f := by rw [← keys_bindings_heap h', heq, keys_bindings_heap]
  values f name := by rw [← T.own?_heap h', heq, own?_heap]
  properties label := by rw [← T.assignedProperties_heap h', heq, assignedProperties_heap]
  slots label := by
    have hslots := congrArg (·.slots.get? label) heq
    simpa only [heap, Table.get?_map] using hslots

theorem sameEnd_of_result_eq {r r' : EStateM.Result Halt Eval.State Value}
    (heq : T.result T.value r' = T.result T.value r) : T.SameEnd r r' := by
  cases r with
  | ok v s =>
    cases r' with
    | ok v' s' =>
      obtain ⟨hv, hs⟩ := EStateM.Result.ok.inj heq
      exact ⟨hv, congrArg (·.depth) hs, sameHeap_of_heap_eq (congrArg (·.heap) hs)⟩
    | error => cases heq
  | error halt s =>
    cases r' with
    | ok => cases heq
    | error halt' s' =>
      obtain ⟨hhalt, hs⟩ := EStateM.Result.error.inj heq
      exact ⟨hhalt, congrArg (·.depth) hs, sameHeap_of_heap_eq (congrArg (·.heap) hs)⟩

namespace Nodewise

/-- **Statements that a translation makes equal end alike, from states that it makes equal.** -/
theorem execAll_alike (N : T.Nodewise) (limit fuel : Nat) (frame : FrameId) {last last' : Value}
    {xs xs' : List (Stmt Label)} {s s' : Eval.State} (hlast : T.value last = T.value last')
    (hxs : N.stmts xs = N.stmts xs') (hs : T.state s = T.state s') :
    T.result T.value (execAll limit (jump limit fuel) frame last xs s) =
      T.result T.value (execAll limit (jump limit fuel) frame last' xs' s') := by
  have hj := N.jumps limit fuel
  calc
    T.result T.value (execAll limit (jump limit fuel) frame last xs s)
    _ = execAll limit (jump limit fuel) frame (T.value last) (N.stmts xs) (T.state s) :=
      (N.execAll_commutes hj frame last xs s).symm
    _ = execAll limit (jump limit fuel) frame (T.value last') (N.stmts xs') (T.state s') := by
      rw [hlast, hxs, hs]
    _ = T.result T.value (execAll limit (jump limit fuel) frame last' xs' s') :=
      N.execAll_commutes hj frame last' xs' s'

/-- **A program ends as its translation does,** if translating it again changes nothing. -/
theorem evaluate_sameEnd (N : T.Nodewise) (bounds : Bounds) (frame : FrameId)
    {p p' : Program Label} (hp : p'.statements = N.stmts p.statements)
    (hp' : p'.statements = N.stmts p'.statements) (s : Eval.State) :
    T.SameEnd (bounds.evaluate frame p s) (bounds.evaluate frame p' s) := by
  apply sameEnd_of_result_eq
  calc
    T.result T.value (bounds.evaluate frame p' s)
    _ = bounds.evaluate frame p' (T.state s) := (N.evaluate_commutes bounds frame hp' s).symm
    _ = T.result T.value (bounds.evaluate frame p s) := N.evaluate_commutes bounds frame hp s

end Nodewise

end

end Translation

end Primer
