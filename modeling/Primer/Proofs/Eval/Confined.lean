/-
  Primer/Proofs/Eval/Confined.lean
  ================================
  **Evaluation stays within a closed region.**

  Let a region be closed in the heap, and let it have the frame in which something is evaluated and
  the literals in the code.  Then whatever is read belongs to the region, whatever is written is
  written into it, and the value belongs to it too: evaluation leaves the region closed and spares
  all else (`Jump.Confined.eval`).  For jumps this is assumed, so that it can be used in two ways:
  with fuel of any amount (`jump_confined`), and with fuel enough for every jump to come to an end.
  For the second use the causes that a computation may halt for are a parameter.

  The reachable locations are a closed region, so a call touches nothing that cannot be reached from
  the function and its arguments (`call_touches_only_reachable`).
-/
import Primer.Proofs.Eval.Tasks
import Primer.Proofs.Heap.Reach

namespace Primer

variable {α β : Type}

namespace Region

/-- A value of the region. -/
def Holds (N : Region) (h : Heap) (v : Value) : Prop := ∀ q ∈ v.locations, q ∈ N.area h

/-- What a computation within the region makes of a state. -/
structure Step (N : Region) (s t : Eval.State) : Prop where
  closed : N.Closed t.heap
  spares : N.Spares s.heap t.heap
  depth : t.depth = s.depth

/-- The region has what is needed to run code with certain literals in a frame. -/
structure Ready (N : Region) (depth : Nat) (frame : FrameId) (literals : List Location)
    (s : Eval.State) : Prop where
  closed : N.Closed s.heap
  frame : .frame frame ∈ N.area s.heap
  code : ∀ q ∈ literals, q ∈ N.area s.heap
  depth : s.depth = depth

variable {N : Region} {s t u : Eval.State} {depth : Nat} {frame : FrameId} {l l' : List Location}

theorem Holds.after {v : Value} (h : N.Holds s.heap v) (hstep : N.Step s t) :
    N.Holds t.heap v :=
  fun q hq => hstep.spares.area_subset (h q hq)

theorem holds_undefined (h : Heap) : N.Holds h .undefined := nofun

theorem Holds.unwrap {h : Heap} {v : Value} (hv : N.Holds h v) : N.Holds h v.unwrap := by
  unfold Holds
  rw [Value.locations_unwrap]
  exact hv

theorem Step.refl (h : N.Closed s.heap) : N.Step s s := ⟨h, .refl N _, rfl⟩

theorem Step.trans (h : N.Step s t) (h' : N.Step t u) : N.Step s u :=
  ⟨h'.closed, h.spares.trans h'.spares, h'.depth.trans h.depth⟩

theorem Ready.after (h : N.Ready depth frame l s) (hstep : N.Step s t) :
    N.Ready depth frame l t where
  closed := hstep.closed
  frame := hstep.spares.area_subset h.frame
  code q hq := hstep.spares.area_subset (h.code q hq)
  depth := hstep.depth.trans h.depth

theorem Ready.sub (h : N.Ready depth frame l s) (hsub : ∀ q ∈ l', q ∈ l) :
    N.Ready depth frame l' s :=
  ⟨h.closed, h.frame, fun q hq => h.code q (hsub q hq), h.depth⟩

theorem Ready.left (h : N.Ready depth frame (l ++ l') s) : N.Ready depth frame l s :=
  h.sub fun _ => List.mem_append_left l'

theorem Ready.right (h : N.Ready depth frame (l ++ l') s) : N.Ready depth frame l' s :=
  h.sub fun _ => List.mem_append_right l

end Region

/-! ### Confined computations -/

/-- From the state `s` on the computation stays within the region; its value is as `Q` says, and it
halts only for causes that are as `halts` says. -/
def Confined (N : Region) (halts : Halt → Prop) (x : Eval α) (Q : Heap → α → Prop)
    (s : Eval.State) : Prop :=
  match x s with
  | .ok a t => N.Step s t ∧ Q t.heap a
  | .error halt t => N.Step s t ∧ halts halt

namespace Confined

variable {N : Region} {halts : Halt → Prop} {x : Eval α} {f : α → Eval β} {s : Eval.State}
  {P Q : Heap → α → Prop} {R : Heap → β → Prop}

theorem ok (h : Confined N halts x Q s) {a : α} {t : Eval.State} (hx : x s = .ok a t) :
    N.Step s t ∧ Q t.heap a := by
  unfold Confined at h
  rw [hx] at h
  exact h

theorem error (h : Confined N halts x Q s) {halt : Halt} {t : Eval.State}
    (hx : x s = .error halt t) : N.Step s t ∧ halts halt := by
  unfold Confined at h
  rw [hx] at h
  exact h

theorem after (h : Confined N halts x Q s) : N.Step s (Eval.after x s) := by
  unfold Eval.after
  cases hx : x s with
  | ok a t => exact (h.ok hx).1
  | error halt t => exact (h.error hx).1

theorem pure {a : α} (hs : N.Closed s.heap) (ha : Q s.heap a) : Confined N halts (pure a) Q s :=
  ⟨.refl hs, ha⟩

theorem throw {halt : Halt} (hs : N.Closed s.heap) (h : halts halt) :
    Confined N halts (throw halt) Q s :=
  ⟨.refl hs, h⟩

theorem bind (hx : Confined N halts x P s)
    (hf : ∀ a t, N.Step s t → P t.heap a → Confined N halts (f a) R t) :
    Confined N halts (x >>= f) R s := by
  show match EStateM.bind x f s with
    | .ok a t => N.Step s t ∧ R t.heap a
    | .error halt t => N.Step s t ∧ halts halt
  unfold EStateM.bind
  cases hxs : x s with
  | error halt t => exact hx.error hxs
  | ok a t =>
    obtain ⟨hstep, ha⟩ := hx.ok hxs
    have hft := hf a t hstep ha
    dsimp only
    cases hfs : f a t with
    | ok b u =>
      obtain ⟨hstep', hb⟩ := hft.ok hfs
      exact ⟨hstep.trans hstep', hb⟩
    | error halt u =>
      obtain ⟨hstep', hhalt⟩ := hft.error hfs
      exact ⟨hstep.trans hstep', hhalt⟩

theorem ite {c : Prop} [Decidable c] {y : Eval α} (hx : Confined N halts x Q s)
    (hy : Confined N halts y Q s) : Confined N halts (if c then x else y) Q s := by
  split
  · exact hx
  · exact hy

theorem operand {x : Eval Value} (h : Confined N halts x N.Holds s) :
    Confined N halts (Eval.operand x) N.Holds s := by
  apply bind h
  intro v t hstep hv
  exact pure hstep.closed hv.unwrap

theorem calling (h : Confined N halts x Q { s with depth := s.depth + 1 }) :
    Confined N halts (Eval.calling x) Q s := by
  unfold Confined Eval.calling
  cases hx : x { s with depth := s.depth + 1 } with
  | ok a t =>
    obtain ⟨hstep, ha⟩ := h.ok hx
    exact ⟨⟨hstep.closed, hstep.spares, by simp [hstep.depth]⟩, ha⟩
  | error halt t =>
    obtain ⟨hstep, hhalt⟩ := h.error hx
    exact ⟨⟨hstep.closed, hstep.spares, by simp [hstep.depth]⟩, hhalt⟩

theorem newFrame {parent : FrameId} (hs : N.Closed s.heap)
    (hparent : .frame parent ∈ N.area s.heap) :
    Confined N halts (Eval.newFrame parent) (fun h f => .frame f ∈ N.area h) s := by
  obtain ⟨hclosed, hspares, hframe⟩ := hs.newFrame hparent
  exact ⟨⟨hclosed, hspares, rfl⟩, hframe⟩

variable (hs : N.Closed s.heap) (hcauses : ∀ cause, halts (.error cause))
include hs hcauses

theorem ofExcept {r : Except RuntimeError α} (hr : ∀ a, r = .ok a → Q s.heap a) :
    Confined N halts (Eval.ofExcept r) Q s := by
  cases r with
  | ok a => exact pure hs (hr a rfl)
  | error cause => exact throw hs (hcauses cause)

theorem look {g : Heap → Except RuntimeError α} (hg : ∀ a, g s.heap = .ok a → Q s.heap a) :
    Confined N halts (Eval.look g) Q s := by
  unfold Confined Eval.look
  cases hr : g s.heap with
  | ok a => exact ⟨.refl hs, hg a hr⟩
  | error cause => exact ⟨.refl hs, hcauses cause⟩

theorem change {g : Heap → Except RuntimeError Heap}
    (hg : ∀ h, g s.heap = .ok h → N.Closed h ∧ N.Spares s.heap h) :
    Confined N halts (Eval.change g) (fun _ _ => True) s := by
  unfold Confined Eval.change
  dsimp only
  cases hr : g s.heap with
  | ok h =>
    obtain ⟨hclosed, hspares⟩ := hg h hr
    exact ⟨⟨hclosed, hspares, rfl⟩, trivial⟩
  | error cause => exact ⟨.refl hs, hcauses cause⟩

variable {frame : FrameId} (hframe : .frame frame ∈ N.area s.heap)
include hframe

theorem declare (name : String) {v : Value} (hv : N.Holds s.heap v) :
    Confined N halts (Eval.declare frame name v) N.Holds s := by
  apply bind (change hs hcauses fun h heq => hs.declare hframe hv heq)
  intro _ t hstep _
  exact pure hstep.closed (hv.after hstep)

theorem lookup (name : String) : Confined N halts (Eval.lookup frame name) N.Holds s :=
  look hs hcauses fun _ heq => hs.lookup hframe heq

theorem assign (name : String) {v : Value} (hv : N.Holds s.heap v) :
    Confined N halts (Eval.assign frame name v) N.Holds s := by
  apply bind (change hs hcauses fun h heq => hs.assign hframe hv heq)
  intro _ t hstep _
  exact pure hstep.closed (hv.after hstep)

theorem bindParams (xs : List Ident) {args : List Value} (hargs : ∀ a ∈ args, N.Holds s.heap a) :
    Confined N halts (Eval.bindParams frame xs args) (fun _ _ => True) s := by
  induction xs generalizing args s with
  | nil => exact pure hs trivial
  | cons x xs ih =>
    have hfirst : N.Holds s.heap (args.headD .undefined) := by
      cases args with
      | nil => exact nofun
      | cons a args => exact hargs a (List.mem_cons_self ..)
    apply bind (declare hs hcauses hframe x.name hfirst)
    intro _ t hstep _
    apply ih hstep.closed (hstep.spares.area_subset hframe)
    intro a ha
    exact (hargs a (List.mem_of_mem_tail ha)).after hstep

end Confined

/-! ### The evaluator -/

/-- Jumps that are made with `depth` calls under way stay within the region. -/
structure Jump.Confined (N : Region) (halts : Halt → Prop) (limit depth : Nat) (jump : Jump) :
    Prop where
  causes : ∀ cause, halts (.error cause)
  /-- into the body of a function, with one more call under way -/
  body : ∀ {frame b s}, depth < limit → N.Ready (depth + 1) frame b.literals s →
    Primer.Confined N halts (jump frame (.block b)) N.Holds s
  /-- into an entry that was written into a list of the region -/
  entry : ∀ {frame e s}, (∃ p ∈ N.locations, e ∈ p.written) → N.Ready depth frame e.literals s →
    Primer.Confined N halts (jump frame (.expr e)) N.Holds s

theorem checked_locations {a b r : Int} {op : BinaryOp} {v : Value}
    (h : checked a op b r = .ok v) : v.locations = [] := by
  unfold checked at h
  split at h
  · cases h
    rfl
  · cases h

theorem UnaryOp.apply_locations {op : UnaryOp} {v w : Value} (h : op.apply v = .ok w) :
    w.locations = [] := by
  unfold apply at h
  split at h
  · cases h
    rfl
  · exact checked_locations h
  · cases h

theorem BinaryOp.apply_locations {op : BinaryOp} {a b v : Value} (h : op.apply a b = .ok v) :
    v.locations = [] := by
  unfold apply at h
  split at h
  · unfold applyIntegers at h
    split at h
    case h_1 | h_2 | h_3 => exact checked_locations h
    case h_4 =>
      split at h
      · cases h
      · exact checked_locations h
    all_goals
      cases h
      rfl
  · split at h <;> cases h <;> rfl

namespace Jump.Confined

open Region

variable {N : Region} {halts : Halt → Prop} {limit depth : Nat} {jump : Jump} {frame : FrameId}
  {s : Eval.State}

theorem apply (hj : jump.Confined N halts limit depth) (hs : N.Closed s.heap)
    (hdepth : s.depth = depth) {callee : Value} (hcallee : N.Holds s.heap callee)
    {args : List Value} (hargs : ∀ a ∈ args, N.Holds s.heap a) :
    Primer.Confined N halts (Eval.apply limit jump callee args) N.Holds s := by
  cases callee with
  | closure fn outer =>
    have hframe : .frame outer ∈ N.area s.heap := hcallee _ (List.mem_cons_self ..)
    have hbody : ∀ q ∈ fn.body.literals, q ∈ N.area s.heap := by
      intro q hq
      rw [← Function.literals_eq] at hq
      exact hcallee q (List.mem_cons_of_mem _ hq)
    unfold Primer.Confined
    rw [Eval.apply_closure]
    by_cases hlimit : limit ≤ s.depth
    · rw [if_pos hlimit]
      exact ⟨.refl hs, hj.causes _⟩
    · rw [if_neg hlimit]
      show Primer.Confined N halts (Eval.enter jump fn outer args) N.Holds s
      apply Primer.Confined.bind (.newFrame hs hframe)
      intro inner t hstep hinner
      apply Primer.Confined.bind
        (.bindParams hstep.closed hj.causes hinner fn.params fun a ha => (hargs a ha).after hstep)
      intro _ u hstep' _
      have hboth := hstep.trans hstep'
      apply Primer.Confined.operand
      apply Primer.Confined.calling
      apply hj.body (by omega)
      exact ⟨hboth.closed, hstep'.spares.area_subset hinner,
        fun q hq => hboth.spares.area_subset (hbody q hq),
        congrArg (· + 1) (hboth.depth.trans hdepth)⟩
  | _ => exact .throw hs (hj.causes _)

theorem readEntry (hj : jump.Confined N halts limit depth) {l : List Location}
    (hs : N.Ready depth frame l s) {c k : Value} (hc : N.Holds s.heap c) :
    Primer.Confined N halts (Eval.readEntry jump frame c k) N.Holds s := by
  have hread : Primer.Confined N halts (Eval.look (·.read c k)) (fun h r => h.read c k = .ok r) s :=
    .look hs.closed hj.causes fun _ heq => heq
  apply Primer.Confined.bind hread
  intro r t hstep heq
  have hc' : N.Holds t.heap c := hc.after hstep
  match r with
  | some (.written e) =>
    obtain ⟨hentry, hcode⟩ := hstep.closed.read_written hc' heq
    exact .operand (hj.entry hentry ⟨hstep.closed, (hs.after hstep).frame, hcode,
      (hs.after hstep).depth⟩)
  | some (.assigned v) =>
    have hv : N.Holds t.heap v := hstep.closed.read_assigned hc' heq
    exact .pure hstep.closed hv.unwrap
  | none => exact .pure hstep.closed (holds_undefined _)

mutual

theorem eval (hj : jump.Confined N halts limit depth) (e : Expr Label) {s : Eval.State}
    (hs : N.Ready depth frame e.literals s) :
    Primer.Confined N halts (e.eval limit jump frame) N.Holds s := by
  cases e with
  | ident _ name =>
    rw [Expr.eval]
    exact .lookup hs.closed hj.causes hs.frame name
  | str | int | bool =>
    rw [Expr.eval]
    exact .pure hs.closed nofun
  | function _ fn =>
    rw [Expr.eval]
    rw [Expr.literals] at hs
    apply Primer.Confined.pure hs.closed
    intro q hq
    rcases List.mem_cons.1 hq with rfl | hq
    · exact hs.frame
    · exact hs.code q hq
  | object | array =>
    rw [Expr.eval]
    rw [Expr.literals] at hs
    exact .pure hs.closed hs.code
  | unary _ op e =>
    rw [Expr.eval]
    rw [Expr.literals] at hs
    apply Primer.Confined.bind (.operand (eval hj e hs))
    intro v t hstep _
    apply Primer.Confined.ofExcept hstep.closed hj.causes
    intro w hw q hq
    rw [UnaryOp.apply_locations hw] at hq
    exact absurd hq List.not_mem_nil
  | binary _ op left right =>
    rw [Expr.eval]
    rw [Expr.literals] at hs
    apply Primer.Confined.bind (.operand (eval hj left hs.left))
    intro a t hstep _
    apply Primer.Confined.bind (.operand (eval hj right (hs.right.after hstep)))
    intro b u hstep' _
    apply Primer.Confined.ofExcept hstep'.closed hj.causes
    intro w hw q hq
    rw [BinaryOp.apply_locations hw] at hq
    exact absurd hq List.not_mem_nil
  | cond _ condition consequence alternative =>
    cases alternative with
    | none =>
      rw [Expr.eval]
      rw [Expr.literals] at hs
      apply Primer.Confined.bind (.operand (eval hj condition hs.left))
      intro v t hstep _
      exact .ite (block hj consequence (hs.right.after hstep)) (.pure hstep.closed nofun)
    | some alternative =>
      rw [Expr.eval]
      rw [Expr.literals] at hs
      apply Primer.Confined.bind (.operand (eval hj condition hs.left.left))
      intro v t hstep _
      exact .ite (block hj consequence (hs.left.right.after hstep))
        (block hj alternative (hs.right.after hstep))
  | call _ callee args =>
    rw [Expr.eval]
    rw [Expr.literals] at hs
    apply Primer.Confined.bind (.operand (eval hj callee hs.left))
    intro f t hstep hf
    apply Primer.Confined.bind (evalArgs hj args (hs.right.after hstep))
    intro vs u hstep' hvs
    have hdepth : u.depth = depth := ((hs.after hstep).after hstep').depth
    exact apply hj hstep'.closed hdepth (hf.after hstep') hvs
  | index _ container key =>
    rw [Expr.eval]
    rw [Expr.literals] at hs
    apply Primer.Confined.bind (.operand (eval hj container hs.left))
    intro c t hstep hc
    apply Primer.Confined.bind (.operand (eval hj key (hs.right.after hstep)))
    intro k u hstep' _
    exact readEntry hj ((hs.after hstep).after hstep') (hc.after hstep')
  | assign _ target value =>
    cases target with
    | ident _ name =>
      rw [Expr.eval]
      rw [Expr.literals] at hs
      apply Primer.Confined.bind (.operand (eval hj value hs.right))
      intro v t hstep hv
      exact .assign hstep.closed hj.causes (hs.after hstep).frame name hv
    | index span container key =>
      cases container with
      | ident _ name =>
        rw [Expr.eval]
        rw [Expr.literals, Expr.literals] at hs
        apply Primer.Confined.bind (.lookup hs.closed hj.causes hs.frame name)
        intro c t hstep hc
        apply Primer.Confined.bind (.operand (eval hj key (hs.left.right.after hstep)))
        intro k u hstep' _
        have hs' := (hs.after hstep).after hstep'
        apply Primer.Confined.bind (.operand (eval hj value hs'.right))
        intro v x hstep'' hv
        have hc' : N.Holds x.heap c := (hc.after hstep').after hstep''
        apply Primer.Confined.bind (.change hstep''.closed hj.causes fun h heq =>
          hstep''.closed.write (a := ⟨value.span, v⟩) hc' hv heq)
        intro _ y hwrite _
        have hframe := ((hs'.after hstep'').after hwrite).frame
        apply Primer.Confined.bind
          (.assign hwrite.closed hj.causes hframe name (hc'.after hwrite))
        intro _ z hassign _
        exact .pure hassign.closed ((hv.after hwrite).after hassign)
      | _ => exact .throw hs.closed (hj.causes _)
    | _ => exact .throw hs.closed (hj.causes _)

theorem stmt (hj : jump.Confined N halts limit depth) (x : Stmt Label) {s : Eval.State}
    (hs : N.Ready depth frame x.literals s) :
    Primer.Confined N halts (x.exec limit jump frame) N.Holds s := by
  cases x with
  | declare _ _ name value =>
    cases value with
    | none =>
      rw [Stmt.exec]
      exact .declare hs.closed hj.causes hs.frame name.name (holds_undefined _)
    | some value =>
      rw [Stmt.exec]
      rw [Stmt.literals] at hs
      apply Primer.Confined.bind (eval hj value hs)
      intro v t hstep hv
      exact .ite (.pure hstep.closed hv)
        (.declare hstep.closed hj.causes (hs.after hstep).frame name.name hv)
  | function _ name fn =>
    rw [Stmt.exec]
    rw [Stmt.literals] at hs
    apply Primer.Confined.declare hs.closed hj.causes hs.frame
    intro q hq
    rcases List.mem_cons.1 hq with rfl | hq
    · exact hs.frame
    · exact hs.code q hq
  | ret _ value =>
    rw [Stmt.exec]
    rw [Stmt.literals] at hs
    apply Primer.Confined.bind (.operand (eval hj value hs))
    intro v t hstep hv
    exact .pure hstep.closed hv
  | expr _ value =>
    rw [Stmt.exec]
    rw [Stmt.literals] at hs
    exact eval hj value hs

theorem block (hj : jump.Confined N halts limit depth) (b : Block Label) {s : Eval.State}
    (hs : N.Ready depth frame b.literals s) :
    Primer.Confined N halts (b.exec limit jump frame) N.Holds s := by
  cases b with
  | mk _ statements =>
    rw [Block.exec]
    rw [Block.literals] at hs
    exact execAll hj (holds_undefined _) statements hs

theorem execAll (hj : jump.Confined N halts limit depth) {last : Value} {s : Eval.State}
    (hlast : N.Holds s.heap last) (xs : List (Stmt Label))
    (hs : N.Ready depth frame (literalsOfStmts xs) s) :
    Primer.Confined N halts (execAll limit jump frame last xs) N.Holds s := by
  cases xs with
  | nil =>
    rw [Primer.execAll]
    exact .pure hs.closed hlast
  | cons x xs =>
    rw [Primer.execAll]
    rw [literalsOfStmts] at hs
    apply Primer.Confined.bind (stmt hj x hs.left)
    intro v t hstep hv
    exact .ite (.pure hstep.closed hv) (execAll hj hv xs (hs.right.after hstep))

theorem evalArgs (hj : jump.Confined N halts limit depth) (es : List (Expr Label)) {s : Eval.State}
    (hs : N.Ready depth frame (literalsOfExprs es) s) :
    Primer.Confined N halts (evalArgs limit jump frame es)
      (fun h vs => ∀ v ∈ vs, N.Holds h v) s := by
  cases es with
  | nil =>
    rw [Primer.evalArgs]
    exact .pure hs.closed nofun
  | cons e es =>
    rw [Primer.evalArgs]
    rw [literalsOfExprs] at hs
    apply Primer.Confined.bind (.operand (eval hj e hs.left))
    intro v t hstep hv
    apply Primer.Confined.bind (evalArgs hj es (hs.right.after hstep))
    intro vs u hstep' hvs
    exact .pure hstep'.closed (List.forall_mem_cons.2 ⟨hv.after hstep', hvs⟩)

end

end Jump.Confined

/-- With whatever fuel, jumps stay within a region that is closed. -/
theorem jump_confined (N : Region) (limit fuel depth : Nat) :
    (jump limit fuel).Confined N (fun _ => True) limit depth := by
  induction fuel generalizing depth with
  | zero =>
    refine ⟨fun _ => trivial, ?_, ?_⟩
    · intro frame b s _ hs
      exact .throw hs.closed trivial
    · intro frame e s _ hs
      exact .throw hs.closed trivial
  | succ fuel ih =>
    refine ⟨fun _ => trivial, ?_, ?_⟩
    · intro frame b s _ hs
      exact (ih (depth + 1)).block b hs
    · intro frame e s _ hs
      exact (ih depth).eval e hs

/-! ### Work within a region -/

/-- The locations that the work is given: those of its values and the literals in its code. -/
def Work.locations : Work → List Location
  | .program p => literalsOfStmts p.statements
  | .expr e => e.literals
  | .stmt x => x.literals
  | .block b => b.literals
  | .statements last xs => last.locations ++ literalsOfStmts xs
  | .call callee args => callee.locations ++ args.flatMap Value.locations
  | .parameters _ args => args.flatMap Value.locations
  | .entry container _ => container.locations
  | .restore _ container => container.locations

/-- Work stays within a region that has the frame in which it is done and the locations that it is
given. -/
theorem Region.Ready.work {N : Region} {depth : Nat} {frame : FrameId} {s : Eval.State} {w : Work}
    (hs : N.Ready depth frame w.locations s) (hw : ∀ p, w ≠ .program p) (bounds : Bounds) :
    Confined N (fun _ => True) (w.run bounds frame) N.Holds s := by
  have hj := jump_confined N bounds.calls bounds.fuel depth
  have hargs {args : List Value} (h : ∀ q ∈ args.flatMap Value.locations, q ∈ N.area s.heap) :
      ∀ a ∈ args, N.Holds s.heap a :=
    fun a ha q hq => h q (List.mem_flatMap_of_mem ha hq)
  cases w with
  | program p => exact absurd rfl (hw p)
  | expr e => exact hj.eval e hs
  | stmt x => exact hj.stmt x hs
  | block b => exact hj.block b hs
  | statements last xs => exact hj.execAll hs.left.code xs hs.right
  | call callee args => exact hj.apply hs.closed hs.depth hs.left.code (hargs hs.right.code)
  | parameters xs args =>
    apply Confined.bind (.bindParams hs.closed hj.causes hs.frame xs (hargs hs.code))
    intro _ t hstep _
    exact .pure hstep.closed (Region.holds_undefined _)
  | entry container key => exact hj.readEntry hs hs.code
  | restore name container => exact .assign hs.closed hj.causes hs.frame name hs.code

/-- A task leaves a region that has what it is given closed, and spares all else; its value belongs
to the region. -/
theorem Task.confined (t : Task) {N : Region} (hclosed : N.Closed t.state.heap)
    (hframe : .frame t.frame ∈ N.area t.state.heap)
    (hgiven : ∀ q ∈ t.work.locations, q ∈ N.area t.state.heap) :
    N.Closed t.after.heap ∧ N.Spares t.state.heap t.after.heap ∧
      ∀ v u, t.run = .ok v u → N.Holds u.heap v := by
  obtain ⟨bounds, frame, w, s⟩ := t
  by_cases hw : ∃ p, w = .program p
  · obtain ⟨p, rfl⟩ := hw
    -- the heap is as it was when the calls under way are set to none
    have hready : N.Ready 0 frame (literalsOfStmts p.statements) { s with depth := 0 } :=
      ⟨hclosed, hframe, hgiven, rfl⟩
    have hrun := Confined.operand
      ((jump_confined N bounds.calls bounds.fuel 0).execAll (Region.holds_undefined _)
        p.statements hready)
    exact ⟨hrun.after.closed, hrun.after.spares, fun v u heq => (hrun.ok heq).2⟩
  · have hready : N.Ready s.depth frame w.locations s := ⟨hclosed, hframe, hgiven, rfl⟩
    have hrun := hready.work (fun p hp => hw ⟨p, hp⟩) bounds
    exact ⟨hrun.after.closed, hrun.after.spares, fun v u heq => (hrun.ok heq).2⟩

/-- **A call touches only what it can reach.**  Let `reached` be what can be reached from a function
and its arguments.  However a call of the function ends, every frame that was there and is not among
`reached` is as it was, and so is what has been assigned to every object and array of which no list
is among `reached`.  And what can be reached afterwards from the value of the call is among
`reached` or is a frame that the call has made. -/
theorem call_touches_only_reachable (bounds : Bounds) (callee : Value) (args : List Value)
    (s : Eval.State) :
    let reached := s.heap.Reaches {q | q ∈ callee.locations ∨ ∃ a ∈ args, q ∈ a.locations}
    let after := (Eval.after (bounds.call callee args) s).heap
    (∀ f, f < s.heap.frames.size → .frame f ∉ reached → after.frames[f]? = s.heap.frames[f]?) ∧
    (∀ label, (∀ written, .object label written ∉ reached) →
      after.properties.get? label = s.heap.properties.get? label) ∧
    (∀ label, (∀ written, .array label written ∉ reached) →
      after.slots.get? label = s.heap.slots.get? label) ∧
    ∀ v t, bounds.call callee args s = .ok v t → ∀ q ∈ t.heap.Reaches {p | p ∈ v.locations},
      q ∈ reached ∨ ∃ f, q = .frame f ∧ s.heap.frames.size ≤ f ∧ f < t.heap.frames.size := by
  intro reached after
  let N := Region.reachable s.heap {q | q ∈ callee.locations ∨ ∃ a ∈ args, q ∈ a.locations}
  have hcallee : N.Holds s.heap callee := fun q hq => .inl (Heap.subset_reaches (.inl hq))
  have hargs : ∀ a ∈ args, N.Holds s.heap a :=
    fun a ha q hq => .inl (Heap.subset_reaches (.inr ⟨a, ha, hq⟩))
  have hclosed : N.Closed s.heap := Region.reachable_closed s.heap _
  have hcall : Confined N (fun _ => True) (bounds.call callee args) N.Holds s :=
    (jump_confined N bounds.calls bounds.fuel s.depth).apply hclosed rfl hcallee hargs
  have hspares := hcall.after.spares
  refine ⟨hspares.frames, hspares.properties, hspares.slots, ?_⟩
  intro v t hrun q hq
  obtain ⟨hstep, hv⟩ := hcall.ok hrun
  exact hstep.closed.reaches hv hq

end Primer
