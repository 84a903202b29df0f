/-
  Primer/Proofs/Eval/History.lean
  ===============================
  **How the heap after a task comes about.**

  The heap after a task is made from the heap before by the changes of the task itself and by those
  of its parts, one behind the other.  The only changes that a task makes itself are a declaration,
  an assignment and a write to an entry; a call, and nothing else, also makes a frame.  So a
  relation between heaps that is told about a task (`History`) holds over the task as soon as it
  holds over these changes, can be followed along a sequence of them, and is passed on from a part
  to the whole.  Unlike in an `Evolution`, it is known here which task makes a frame.
-/
import Primer.Proofs.Eval.Tasks

namespace Primer

variable {α β : Type} {R : Task → Heap → Heap → Prop}

/-- A relation that holds over every change within a task. -/
structure History (R : Task → Heap → Heap → Prop) : Prop where
  refl : ∀ t h, R t h h
  trans : ∀ {t h h' h''}, R t h h' → R t h' h'' → R t h h''
  part : ∀ {t u h h'}, Part t u → R u h h' → R t h h'
  declare : ∀ {t h frame name v h'}, h.declare frame name v = .ok h' → R t h h'
  assign : ∀ {t h frame name v h'}, h.assign frame name v = .ok h' → R t h h'
  write : ∀ {t h c k a span keySpan h'}, h.write c k a span keySpan = .ok h' → R t h h'
  /-- a call of a function makes a frame, inside the frame of the function -/
  enter : ∀ {bounds frame fn outer args s}, s.depth < bounds.calls →
    R ⟨bounds, frame, .call (.closure fn outer) args, s⟩ s.heap (s.heap.newFrame outer).2

/-- However the computation ends, the relation leads from the heap before to the heap after. -/
def Leaves (R : Task → Heap → Heap → Prop) (t : Task) (x : Eval α) (s : Eval.State) : Prop :=
  R t s.heap (Eval.after x s).heap

namespace Eval

variable {x : Eval α} {f : α → Eval β} {s u : State}

theorem after_ok {a : α} (hx : x s = .ok a u) : after x s = u := by
  unfold after
  rw [hx]

theorem after_error {halt : Halt} (hx : x s = .error halt u) : after x s = u := by
  unfold after
  rw [hx]

theorem bind_of_ok {a : α} (hx : x s = .ok a u) : (x >>= f) s = f a u := by
  show EStateM.bind x f s = f a u
  unfold EStateM.bind
  rw [hx]

theorem bind_of_error {halt : Halt} (hx : x s = .error halt u) : (x >>= f) s = .error halt u := by
  show EStateM.bind x f s = .error halt u
  unfold EStateM.bind
  rw [hx]

theorem bind_ok {b : β} (h : (x >>= f) s = .ok b u) : ∃ a t, x s = .ok a t ∧ f a t = .ok b u := by
  cases hx : x s with
  | ok a t =>
    rw [bind_of_ok hx] at h
    exact ⟨a, t, rfl, h⟩
  | error halt t =>
    rw [bind_of_error hx] at h
    cases h

/-- The value of an operand is that of the computation, without the signal of a `return`. -/
theorem operand_ok {x : Eval Value} {v : Value} (h : operand x s = .ok v u) :
    ∃ w, x s = .ok w u ∧ v = w.unwrap := by
  obtain ⟨w, t, hw, hpure⟩ := bind_ok h
  cases hpure
  exact ⟨w, hw, rfl⟩

theorem operand_of_ok {x : Eval Value} {v : Value} (hx : x s = .ok v u) :
    operand x s = .ok v.unwrap u :=
  bind_of_ok hx

end Eval

/-- The values of arguments and of one behind them. -/
theorem evalArgs_concat {limit : Nat} {jump : Jump} {frame : FrameId} {es : List (Expr Label)}
    {e : Expr Label} {s u x : Eval.State} {vs : List Value} {v : Value}
    (hes : evalArgs limit jump frame es s = .ok vs u) (he : e.eval limit jump frame u = .ok v x) :
    evalArgs limit jump frame (es ++ [e]) s = .ok (vs ++ [v.unwrap]) x := by
  induction es generalizing s vs with
  | nil =>
    rw [evalArgs] at hes
    cases hes
    rw [List.nil_append, evalArgs, Eval.bind_of_ok (Eval.operand_of_ok he), evalArgs]
    rfl
  | cons e' es ih =>
    rw [evalArgs] at hes
    obtain ⟨w, t, hw, hrest⟩ := Eval.bind_ok hes
    obtain ⟨ws, t', hws, hpure⟩ := Eval.bind_ok hrest
    cases hpure
    rw [List.cons_append, evalArgs, Eval.bind_of_ok hw, Eval.bind_of_ok (ih hws)]
    rfl

namespace Leaves

variable {t : Task} {x : Eval α} {f : α → Eval β} {s : Eval.State} (h : History R)
include h

theorem pure (a : α) : Leaves R t (pure a) s := h.refl t s.heap

theorem throw (halt : Halt) : Leaves R t (throw halt : Eval α) s := h.refl t s.heap

theorem bind (hx : Leaves R t x s) (hf : ∀ a u, x s = .ok a u → Leaves R t (f a) u) :
    Leaves R t (x >>= f) s := by
  unfold Leaves at *
  cases hxs : x s with
  | error halt u =>
    rw [Eval.after_error (Eval.bind_of_error hxs)]
    rw [Eval.after_error hxs] at hx
    exact hx
  | ok a u =>
    have hrest : Eval.after (x >>= f) s = Eval.after (f a) u := by
      unfold Eval.after
      rw [Eval.bind_of_ok hxs]
    rw [hrest]
    rw [Eval.after_ok hxs] at hx
    exact h.trans hx (hf a u hxs)

omit h in
theorem ite {c : Prop} [Decidable c] {y : Eval α} (hx : c → Leaves R t x s)
    (hy : ¬c → Leaves R t y s) : Leaves R t (if c then x else y) s := by
  split
  next hc => exact hx hc
  next hc => exact hy hc

theorem ofExcept (r : Except RuntimeError α) : Leaves R t (Eval.ofExcept r) s := by
  cases r with
  | ok a => exact pure h a
  | error cause => exact throw h _

theorem look (g : Heap → Except RuntimeError α) : Leaves R t (Eval.look g) s := by
  unfold Leaves Eval.after Eval.look
  cases g s.heap with
  | ok a => exact h.refl t s.heap
  | error cause => exact h.refl t s.heap

theorem change {g : Heap → Except RuntimeError Heap}
    (hg : ∀ {h'}, g s.heap = .ok h' → R t s.heap h') : Leaves R t (Eval.change g) s := by
  unfold Leaves Eval.after Eval.change
  dsimp only
  cases hheap : g s.heap with
  | ok h' => exact hg hheap
  | error cause => exact h.refl t s.heap

theorem declare (frame : FrameId) (name : String) (v : Value) :
    Leaves R t (Eval.declare frame name v) s :=
  bind h (change h h.declare) fun _ _ _ => pure h v

theorem assign (frame : FrameId) (name : String) (v : Value) :
    Leaves R t (Eval.assign frame name v) s :=
  bind h (change h h.assign) fun _ _ _ => pure h v

theorem operand {x : Eval Value} (hx : Leaves R t x s) : Leaves R t (Eval.operand x) s :=
  bind h hx fun v _ _ => pure h v.unwrap

/-- A computation whose value is used by what comes behind it. -/
theorem used {x : Eval Value} {f : Value → Eval β} (hx : Leaves R t x s)
    (hf : ∀ v u, x s = .ok v u → Leaves R t (f v.unwrap) u) :
    Leaves R t (Eval.operand x >>= f) s := by
  apply bind h (operand h hx)
  intro v u hv
  obtain ⟨w, hw, rfl⟩ := Eval.operand_ok hv
  exact hf w u hw

omit h in
theorem calling (hx : Leaves R t x { s with depth := s.depth + 1 }) :
    Leaves R t (Eval.calling x) s := by
  unfold Leaves Eval.after Eval.calling at *
  cases hs : x { s with depth := s.depth + 1 } with
  | ok a u =>
    rw [hs] at hx
    exact hx
  | error halt u =>
    rw [hs] at hx
    exact hx

/-- What a part of a task does is told about the whole. -/
theorem part {u : Task} (hpart : Part t u) (hx : Leaves R u x s) : Leaves R t x s :=
  h.part hpart hx

end Leaves

/-! ### The evaluator -/

/-- The relation holds over all work with one unit of fuel less. -/
def Bounds.LowerLeaves (R : Task → Heap → Heap → Prop) (bounds : Bounds) : Prop :=
  ∀ fuel, bounds.fuel = fuel + 1 → ∀ frame (w : Work) s,
    Leaves R ⟨{ bounds with fuel }, frame, w, s⟩ (w.run { bounds with fuel } frame) s

namespace History

variable {bounds : Bounds} {frame : FrameId} {s : Eval.State}

theorem bindParams (h : History R) (xs : List Ident) (args : List Value) :
    Leaves R ⟨bounds, frame, .parameters xs args, s⟩ (Eval.bindParams frame xs args) s := by
  induction xs generalizing args s with
  | nil => exact .pure h ()
  | cons x xs ih =>
    apply Leaves.bind h (.declare h frame x.name _)
    intro v u hfirst
    exact .part h (.inner (.parameter hfirst)) (ih args.tail)

theorem apply (h : History R) (hlower : bounds.LowerLeaves R) (callee : Value)
    (args : List Value) :
    Leaves R ⟨bounds, frame, .call callee args, s⟩ (bounds.call callee args) s := by
  cases callee with
  | closure fn outer =>
    by_cases hdepth : bounds.calls ≤ s.depth
    · have hrefused : bounds.call (.closure fn outer) args s =
          .error (.error (.callDepthExceeded bounds.calls)) s := by
        rw [Bounds.call, Eval.apply_closure, if_pos hdepth]
      unfold Leaves
      rw [Eval.after_error hrefused]
      exact h.refl _ _
    · have hlt : s.depth < bounds.calls := Nat.lt_of_not_le hdepth
      have hentered : Eval.after (bounds.call (.closure fn outer) args) s =
          Eval.after (Eval.enter (jump bounds.calls bounds.fuel) fn outer args) s := by
        unfold Eval.after
        rw [Bounds.call, Eval.apply_closure, if_neg hdepth]
      unfold Leaves
      rw [hentered]
      have hnew : Leaves R ⟨bounds, frame, .call (.closure fn outer) args, s⟩
          (Eval.newFrame outer) s := h.enter hlt
      apply Leaves.bind h hnew
      intro inner u hframe
      apply Leaves.bind h (.part h (.parameters hlt hframe) (h.bindParams fn.params args))
      intro _ x hparams
      apply Leaves.operand h
      apply Leaves.calling
      obtain ⟨calls, fuel⟩ := bounds
      cases fuel with
      | zero => exact .throw h _
      | succ fuel =>
        exact .part h (.body hlt hframe hparams rfl) (hlower fuel rfl inner (.block fn.body) _)
  | _ => exact .throw h _

theorem readEntry (h : History R) (hlower : bounds.LowerLeaves R) (c k : Value) :
    Leaves R ⟨bounds, frame, .entry c k, s⟩
      (Eval.readEntry (jump bounds.calls bounds.fuel) frame c k) s := by
  apply Leaves.bind h (.look h _)
  intro r u hlook
  unfold Eval.look at hlook
  split at hlook
  next r' hread =>
    cases hlook
    match r with
    | some (.written e) =>
      apply Leaves.operand h
      obtain ⟨calls, fuel⟩ := bounds
      cases fuel with
      | zero => exact .throw h _
      | succ fuel => exact .part h (.written hread rfl) (hlower fuel rfl frame (.expr e) s)
    | some (.assigned v) => exact .pure h _
    | none => exact .pure h _
  next => cases hlook

mutual

theorem eval (h : History R) (hlower : bounds.LowerLeaves R) (e : Expr Label) (s : Eval.State) :
    Leaves R ⟨bounds, frame, .expr e, s⟩
      (e.eval bounds.calls (jump bounds.calls bounds.fuel) frame) s := by
  cases e with
  | ident _ name =>
    rw [Expr.eval]
    exact .look h _
  | str | int | bool | function | object | array =>
    rw [Expr.eval]
    exact .pure h _
  | unary _ op e =>
    rw [Expr.eval]
    apply Leaves.used h (.part h (.inner .operand) (eval h hlower e s))
    intro v u _
    exact .ofExcept h _
  | binary _ op left right =>
    rw [Expr.eval]
    apply Leaves.used h (.part h (.inner .left) (eval h hlower left s))
    intro a u hleft
    apply Leaves.used h (.part h (.inner (.right hleft)) (eval h hlower right u))
    intro b x _
    exact .ofExcept h _
  | cond _ condition consequence alternative =>
    cases alternative with
    | none =>
      rw [Expr.eval]
      apply Leaves.used h (.part h (.inner .condition) (eval h hlower condition s))
      intro v u hv
      apply Leaves.ite
      · intro htrue
        exact .part h (.inner (.consequence hv htrue)) (block h hlower consequence u)
      · intro _
        exact .pure h _
    | some alternative =>
      rw [Expr.eval]
      apply Leaves.used h (.part h (.inner .condition) (eval h hlower condition s))
      intro v u hv
      apply Leaves.ite
      · intro htrue
        exact .part h (.inner (.consequence hv htrue)) (block h hlower consequence u)
      · intro hfalse
        exact .part h (.inner (.alternative hv (Bool.eq_false_iff.2 hfalse)))
          (block h hlower alternative u)
  | call span callee args =>
    rw [Expr.eval]
    apply Leaves.used h (.part h (.inner .callee) (eval h hlower callee s))
    intro f u hf
    apply Leaves.bind h (evalArgs h hlower span hf [] args rfl)
    intro vs x hvs
    exact .part h (.inner (.call hf hvs)) (apply h hlower f.unwrap vs)
  | index _ container key =>
    rw [Expr.eval]
    apply Leaves.used h (.part h (.inner .container) (eval h hlower container s))
    intro c u hc
    apply Leaves.used h (.part h (.inner (.key hc)) (eval h hlower key u))
    intro k x hk
    exact .part h (.inner (.entry hc hk)) (readEntry h hlower c.unwrap k.unwrap)
  | assign _ target value =>
    cases target with
    | ident _ name =>
      rw [Expr.eval]
      apply Leaves.used h (.part h (.inner .value) (eval h hlower value s))
      intro v u _
      exact .assign h frame name _
    | index span container key =>
      cases container with
      | ident _ name =>
        rw [Expr.eval]
        apply Leaves.bind h (.look h _)
        intro c u hc
        apply Leaves.used h (.part h (.inner (.entryKey hc)) (eval h hlower key u))
        intro k x hk
        apply Leaves.used h (.part h (.inner (.entryValue hc hk)) (eval h hlower value x))
        intro v y _
        apply Leaves.bind h (.change h h.write)
        intro _ z _
        apply Leaves.bind h (.assign h frame name c)
        intro _ _ _
        exact .pure h _
      | _ => exact .throw h _
    | _ => exact .throw h _

theorem stmt (h : History R) (hlower : bounds.LowerLeaves R) (x : Stmt Label) (s : Eval.State) :
    Leaves R ⟨bounds, frame, .stmt x, s⟩
      (x.exec bounds.calls (jump bounds.calls bounds.fuel) frame) s := by
  cases x with
  | declare _ _ name value =>
    cases value with
    | none =>
      rw [Stmt.exec]
      exact .declare h frame name.name _
    | some value =>
      rw [Stmt.exec]
      apply Leaves.bind h (.part h (.inner .declared) (eval h hlower value s))
      intro v u _
      exact .ite (fun _ => .pure h v) fun _ => .declare h frame name.name v
  | function _ name fn =>
    rw [Stmt.exec]
    exact .declare h frame name.name _
  | ret _ value =>
    rw [Stmt.exec]
    apply Leaves.used h (.part h (.inner .returned) (eval h hlower value s))
    intro v u _
    exact .pure h _
  | expr _ value =>
    rw [Stmt.exec]
    exact .part h (.inner .expr) (eval h hlower value s)

theorem block (h : History R) (hlower : bounds.LowerLeaves R) (b : Block Label) (s : Eval.State) :
    Leaves R ⟨bounds, frame, .block b, s⟩
      (b.exec bounds.calls (jump bounds.calls bounds.fuel) frame) s := by
  cases b with
  | mk _ statements =>
    rw [Block.exec]
    exact .part h (.inner .block) (execAll h hlower .undefined statements s)

theorem execAll (h : History R) (hlower : bounds.LowerLeaves R) (last : Value)
    (xs : List (Stmt Label)) (s : Eval.State) :
    Leaves R ⟨bounds, frame, .statements last xs, s⟩
      (execAll bounds.calls (jump bounds.calls bounds.fuel) frame last xs) s := by
  cases xs with
  | nil =>
    rw [Primer.execAll]
    exact .pure h last
  | cons x xs =>
    rw [Primer.execAll]
    apply Leaves.bind h (.part h (.inner .first) (stmt h hlower x s))
    intro v u hv
    apply Leaves.ite
    · intro _
      exact .pure h v
    · intro hgoes
      exact .part h (.inner (.rest hv (Bool.eq_false_iff.2 hgoes))) (execAll h hlower v xs u)

/-- The arguments behind those that have their values. -/
theorem evalArgs (h : History R) (hlower : bounds.LowerLeaves R) (span : Span) {f : Expr Label}
    {v : Value} {s t u : Eval.State} {vs : List Value}
    (hcallee : (Work.expr f).run bounds frame s = .ok v t) (before es : List (Expr Label))
    (hbefore : evalArgs bounds.calls (jump bounds.calls bounds.fuel) frame before t = .ok vs u) :
    Leaves R ⟨bounds, frame, .expr (.call span f (before ++ es)), s⟩
      (evalArgs bounds.calls (jump bounds.calls bounds.fuel) frame es) u := by
  cases es with
  | nil =>
    rw [Primer.evalArgs]
    exact .pure h []
  | cons e es =>
    rw [Primer.evalArgs]
    apply Leaves.used h (.part h (.inner (.argument hcallee hbefore)) (eval h hlower e u))
    intro w x hw
    have hrest := evalArgs h hlower span hcallee (before ++ [e]) es
      (evalArgs_concat hbefore hw)
    rw [List.append_assoc] at hrest
    apply Leaves.bind h hrest
    intro ws _ _
    exact .pure h _

end

/-- What holds over all work with less fuel holds over all work. -/
theorem work (h : History R) (hlower : bounds.LowerLeaves R) (w : Work) :
    Leaves R ⟨bounds, frame, w, s⟩ (w.run bounds frame) s := by
  cases w with
  | program p =>
    exact Leaves.operand h
      (.part h (.inner .program) (h.execAll hlower .undefined p.statements { s with depth := 0 }))
  | expr e => exact h.eval hlower e s
  | stmt x => exact h.stmt hlower x s
  | block b => exact h.block hlower b s
  | statements last xs => exact h.execAll hlower last xs s
  | call callee args => exact h.apply hlower callee args
  | parameters xs args =>
    apply Leaves.bind h (h.bindParams xs args)
    intro _ _ _
    exact .pure h _
  | entry container key => exact h.readEntry hlower container key
  | restore name container => exact .assign h frame name container

/-- A history leads from the heap before any task to the heap after it. -/
theorem task (h : History R) (t : Task) : R t t.state.heap t.after.heap := by
  obtain ⟨⟨calls, fuel⟩, frame, w, s⟩ := t
  induction fuel generalizing frame w s with
  | zero =>
    refine h.work ?_ w
    intro fuel hfuel
    cases hfuel
  | succ fuel ih =>
    refine h.work ?_ w
    intro fuel' hfuel
    cases hfuel
    exact ih

end History

end Primer
