/-
  Primer/Proofs/Eval/Noninterference.lean
  =======================================
  **A call depends on nothing but what it can reach.**

  Let two heaps agree on a closed region, up to the numbers of frames.  Code that is run in a frame
  of the region, and in the frame under that number in the other heap, goes the same way: it gives
  the same value or halts for the same cause, and leaves heaps that agree on the region again
  (`Jump.Tracks.eval`).  That the first run stays within the region is known (`Jump.Confined`); so
  whatever it looks up, reads or writes on its way is found alike by the second run.

  What can be reached from a function and its arguments is a closed region.  So nothing else, and no
  variable of a caller in particular, has an influence on a call (`call_depends_only_on_reachable`).
-/
import Primer.Proofs.Eval.Confined
import Primer.Proofs.Eval.Translation
import Primer.Proofs.Heap.Renaming

namespace Primer

variable {α β : Type}

/-! ### Operators -/

theorem map_rename_of_locations (ρ : Nat → Nat) {r : Except RuntimeError Value}
    (h : ∀ v, r = .ok v → v.locations = []) : r.map (·.rename ρ) = r := by
  cases r with
  | ok v => exact congrArg Except.ok (v.rename_of_locations ρ (h v rfl))
  | error cause => rfl

theorem UnaryOp.apply_rename (op : UnaryOp) (ρ : Nat → Nat) (v : Value) :
    op.apply (v.rename ρ) = (op.apply v).map (·.rename ρ) := by
  rw [map_rename_of_locations ρ fun _ => UnaryOp.apply_locations]
  cases op with
  | not => exact congrArg (fun b => Except.ok (Value.boolean !b)) (v.isTruthy_rename ρ)
  | neg => cases v <;> rfl

theorem BinaryOp.apply_rename (op : BinaryOp) {N : Region} (ρ : N.Renaming) {h : Heap} {v w : Value}
    (hv : N.Holds h v) (hw : N.Holds h w) :
    op.apply (v.rename ρ.frame) (w.rename ρ.frame) = (op.apply v w).map (·.rename ρ.frame) := by
  rw [map_rename_of_locations ρ.frame fun _ => BinaryOp.apply_locations]
  by_cases hint : ∃ a b, v = .integer a ∧ w = .integer b
  · obtain ⟨a, b, rfl, rfl⟩ := hint
    rfl
  · have hint' : ¬∃ a b, v.rename ρ.frame = .integer a ∧ w.rename ρ.frame = .integer b := by
      simpa only [Value.rename_eq_integer] using hint
    rw [apply_of_not_integers hint, apply_of_not_integers hint', Region.Renaming.equal_rename hv hw]

/-! ### Two runs -/

namespace Region.Renaming

variable {N : Region}

/-- The states agree on the region, and as many calls are under way in both. -/
structure Abreast (ρ : N.Renaming) (s s' : Eval.State) : Prop where
  heap : ρ.Twin s.heap s'.heap
  depth : s'.depth = s.depth

/-- From the states `s` and `s'` on the second computation does as the first: both give a value, the
second what `φ` makes of the first, or both halt for the same cause. -/
def Follows (ρ : N.Renaming) (φ : α → α) (x x' : Eval α) (s s' : Eval.State) : Prop :=
  match x s, x' s' with
  | .ok a t, .ok a' t' => a' = φ a ∧ ρ.Abreast t t'
  | .error halt t, .error halt' t' => halt' = halt ∧ ρ.Abreast t t'
  | _, _ => False

/-- A value under the numbers of the second run. -/
def value (ρ : N.Renaming) (v : Value) : Value := v.rename ρ.frame

theorem isTruthy_value (ρ : N.Renaming) (v : Value) : (ρ.value v).isTruthy = v.isTruthy :=
  v.isTruthy_rename ρ.frame

theorem isReturned_value (ρ : N.Renaming) (v : Value) : (ρ.value v).isReturned = v.isReturned :=
  v.isReturned_rename ρ.frame

theorem unwrap_value (ρ : N.Renaming) (v : Value) : (ρ.value v).unwrap = ρ.value v.unwrap :=
  v.unwrap_rename ρ.frame

namespace Follows

variable {ρ : N.Renaming} {φ : α → α} {ψ : β → β} {x x' : Eval α} {s s' : Eval.State}

/-- A first run that gives a value is followed by one that does. -/
theorem ok (h : ρ.Follows φ x x' s s') {a : α} {t : Eval.State} (hx : x s = .ok a t) :
    ∃ t', x' s' = .ok (φ a) t' ∧ ρ.Abreast t t' := by
  unfold Follows at h
  rw [hx] at h
  cases hx' : x' s' with
  | ok a' t' =>
    rw [hx'] at h
    obtain ⟨rfl, habreast⟩ := h
    exact ⟨t', rfl, habreast⟩
  | error halt t' =>
    rw [hx'] at h
    exact absurd h id

/-- A first run that halts is followed by one that does. -/
theorem error (h : ρ.Follows φ x x' s s') {halt : Halt} {t : Eval.State}
    (hx : x s = .error halt t) : ∃ t', x' s' = .error halt t' ∧ ρ.Abreast t t' := by
  unfold Follows at h
  rw [hx] at h
  cases hx' : x' s' with
  | ok a' t' =>
    rw [hx'] at h
    exact absurd h id
  | error halt' t' =>
    rw [hx'] at h
    obtain ⟨rfl, habreast⟩ := h
    exact ⟨t', rfl, habreast⟩

theorem pure {a a' : α} (hab : ρ.Abreast s s') (ha : a' = φ a) :
    ρ.Follows φ (pure a) (pure a') s s' :=
  ⟨ha, hab⟩

theorem throw (hab : ρ.Abreast s s') (halt : Halt) : ρ.Follows φ (throw halt) (throw halt) s s' :=
  ⟨rfl, hab⟩

theorem andThen {f f' : α → Eval β} (hx : ρ.Follows φ x x' s s')
    (hf : ∀ a t t', x s = .ok a t → ρ.Abreast t t' → ρ.Follows ψ (f a) (f' (φ a)) t t') :
    ρ.Follows ψ (x >>= f) (x' >>= f') s s' := by
  show match EStateM.bind x f s, EStateM.bind x' f' s' with
    | .ok b t, .ok b' t' => b' = ψ b ∧ ρ.Abreast t t'
    | .error halt t, .error halt' t' => halt' = halt ∧ ρ.Abreast t t'
    | _, _ => False
  unfold EStateM.bind
  cases hxs : x s with
  | ok a t =>
    obtain ⟨t', hxs', hab⟩ := hx.ok hxs
    rw [hxs']
    exact hf a t t' hxs hab
  | error halt t =>
    obtain ⟨t', hxs', hab⟩ := hx.error hxs
    rw [hxs']
    exact ⟨rfl, hab⟩

/-- What is known of the value of the first computation, and of the state that it leaves, is known
because it stays within the region. -/
theorem bind {P : Heap → α → Prop} {f f' : α → Eval β}
    (hconfined : Confined N (fun _ => True) x P s) (hx : ρ.Follows φ x x' s s')
    (hf : ∀ a t t', N.Step s t → P t.heap a → ρ.Abreast t t' →
      ρ.Follows ψ (f a) (f' (φ a)) t t') :
    ρ.Follows ψ (x >>= f) (x' >>= f') s s' := by
  apply hx.andThen
  intro a t t' hxs hab
  obtain ⟨hstep, ha⟩ := hconfined.ok hxs
  exact hf a t t' hstep ha hab

theorem ite {c : Prop} [Decidable c] {y y' : Eval α} (hx : ρ.Follows φ x x' s s')
    (hy : ρ.Follows φ y y' s s') :
    ρ.Follows φ (if c then x else y) (if c then x' else y') s s' := by
  by_cases hc : c
  · rw [if_pos hc, if_pos hc]
    exact hx
  · rw [if_neg hc, if_neg hc]
    exact hy

theorem operand {x x' : Eval Value} (h : ρ.Follows ρ.value x x' s s') :
    ρ.Follows ρ.value (Eval.operand x) (Eval.operand x') s s' := by
  apply h.andThen
  intro v t t' _ hab
  exact pure hab (ρ.unwrap_value v)

theorem calling (h : ρ.Follows φ x x' { s with depth := s.depth + 1 }
    { s' with depth := s'.depth + 1 }) :
    ρ.Follows φ (Eval.calling x) (Eval.calling x') s s' := by
  unfold Follows Eval.calling
  cases hx : x { s with depth := s.depth + 1 } with
  | ok a t =>
    obtain ⟨t', hx', hab⟩ := h.ok hx
    rw [hx']
    exact ⟨rfl, hab.heap, congrArg (· - 1) hab.depth⟩
  | error halt t =>
    obtain ⟨t', hx', hab⟩ := h.error hx
    rw [hx']
    exact ⟨rfl, hab.heap, congrArg (· - 1) hab.depth⟩

section Heap

variable (hab : ρ.Abreast s s')
include hab

theorem newFrame (hs : N.Closed s.heap) (parent : FrameId) :
    ρ.Follows ρ.frame (Eval.newFrame parent) (Eval.newFrame (ρ.frame parent)) s s' := by
  obtain ⟨hframe, htwin⟩ := hab.heap.newFrame (f := parent) hs
  exact ⟨hframe, htwin, hab.depth⟩

theorem ofExcept {r r' : Except RuntimeError α} (hr : r' = r.map φ) :
    ρ.Follows φ (Eval.ofExcept r) (Eval.ofExcept r') s s' := by
  subst hr
  cases r with
  | ok a => exact pure hab rfl
  | error cause => exact throw hab _

theorem look {g g' : Heap → Except RuntimeError α} (hg : g' s'.heap = (g s.heap).map φ) :
    ρ.Follows φ (Eval.look g) (Eval.look g') s s' := by
  unfold Follows Eval.look
  rw [hg]
  cases g s.heap with
  | ok a => exact ⟨rfl, hab⟩
  | error cause => exact ⟨rfl, hab⟩

theorem change {g g' : Heap → Except RuntimeError Heap}
    (hg : ρ.TwinResults (g s.heap) (g' s'.heap)) :
    ρ.Follows id (Eval.change g) (Eval.change g') s s' := by
  unfold Follows Eval.change
  dsimp only
  revert hg
  cases g s.heap <;> cases g' s'.heap <;> intro hg
  case ok.ok => exact ⟨rfl, hg, hab.depth⟩
  case error.error => exact ⟨congrArg Halt.error hg, hab⟩
  all_goals exact hg

variable {frame : FrameId} (hframe : .frame frame ∈ N.area s.heap)
include hframe

theorem declare (name : String) (v : Value) : ρ.Follows ρ.value (Eval.declare frame name v)
    (Eval.declare (ρ.frame frame) name (ρ.value v)) s s' := by
  apply (change hab (hab.heap.declare hframe name v)).andThen
  intro _ t t' _ hab
  exact pure hab rfl

variable (hs : N.Closed s.heap)
include hs

theorem lookup (name : String) :
    ρ.Follows ρ.value (Eval.lookup frame name) (Eval.lookup (ρ.frame frame) name) s s' :=
  look hab (hab.heap.lookup hs hframe name)

theorem assign (name : String) (v : Value) : ρ.Follows ρ.value (Eval.assign frame name v)
    (Eval.assign (ρ.frame frame) name (ρ.value v)) s s' := by
  apply (change hab (hab.heap.assign hs hframe name v)).andThen
  intro _ t t' _ hab
  exact pure hab rfl

theorem bindParams (xs : List Ident) {args : List Value} (hargs : ∀ a ∈ args, N.Holds s.heap a) :
    ρ.Follows id (Eval.bindParams frame xs args)
      (Eval.bindParams (ρ.frame frame) xs (args.map ρ.value)) s s' := by
  induction xs generalizing args s s' with
  | nil => exact pure hab rfl
  | cons x xs ih =>
    have hfirst : N.Holds s.heap (args.headD .undefined) := by
      cases args with
      | nil => exact nofun
      | cons a args => exact hargs a List.mem_cons_self
    have hfirst' : (args.map ρ.value).headD .undefined = ρ.value (args.headD .undefined) := by
      cases args <;> rfl
    rw [Eval.bindParams, Eval.bindParams, hfirst', ← List.map_tail]
    apply bind (.declare hs (fun _ => trivial) hframe x.name hfirst)
      (declare hab hframe x.name _)
    intro _ t t' hstep _ hab
    apply ih hab (hstep.spares.area_subset hframe) hstep.closed
    intro a ha
    exact (hargs a (List.mem_of_mem_tail ha)).after hstep

end Heap

end Follows

end Region.Renaming

/-! ### The evaluator -/

open Region Renaming

/-- Jumps that are made with `depth` calls under way stay within the region, and from a state that
agrees with another they do as from the other. -/
structure Jump.Tracks {N : Region} (ρ : N.Renaming) (limit depth : Nat) (jump : Jump) : Prop where
  confined : jump.Confined N (fun _ => True) limit depth
  body : ∀ {frame b s s'}, depth < limit → N.Ready (depth + 1) frame b.literals s →
    ρ.Abreast s s' →
    ρ.Follows ρ.value (jump frame (.block b)) (jump (ρ.frame frame) (.block b)) s s'
  entry : ∀ {frame e s s'}, (∃ p ∈ N.locations, e ∈ p.written) →
    N.Ready depth frame e.literals s → ρ.Abreast s s' →
    ρ.Follows ρ.value (jump frame (.expr e)) (jump (ρ.frame frame) (.expr e)) s s'

namespace Jump.Tracks

variable {N : Region} {ρ : N.Renaming} {limit depth : Nat} {jump : Jump} {frame : FrameId}
  {s s' : Eval.State}

theorem apply (hj : jump.Tracks ρ limit depth) (hs : N.Closed s.heap) (hdepth : s.depth = depth)
    (hab : ρ.Abreast s s') {callee : Value} (hcallee : N.Holds s.heap callee) {args : List Value}
    (hargs : ∀ a ∈ args, N.Holds s.heap a) :
    ρ.Follows ρ.value (Eval.apply limit jump callee args)
      (Eval.apply limit jump (ρ.value callee) (args.map ρ.value)) s s' := by
  cases callee with
  | closure fn outer =>
    have hframe : .frame outer ∈ N.area s.heap := hcallee _ List.mem_cons_self
    have hbody : ∀ q ∈ fn.body.literals, q ∈ N.area s.heap := by
      intro q hq
      rw [← Function.literals_eq] at hq
      exact hcallee q (List.mem_cons_of_mem _ hq)
    unfold Follows
    -- as many calls are under way in both runs, so both are refused or both are entered
    have hvalue : ρ.value (.closure fn outer) = .closure fn (ρ.frame outer) := rfl
    rw [hvalue, Eval.apply_closure, Eval.apply_closure, hab.depth]
    by_cases hlimit : limit ≤ s.depth
    · rw [if_pos hlimit, if_pos hlimit]
      exact ⟨rfl, hab⟩
    · rw [if_neg hlimit, if_neg hlimit]
      show ρ.Follows ρ.value (Eval.enter jump fn outer args)
        (Eval.enter jump fn (ρ.frame outer) (args.map ρ.value)) s s'
      apply Follows.bind (.newFrame hs hframe) (.newFrame hab hs outer)
      intro inner t t' hstep hinner hab
      have hargs' : ∀ a ∈ args, N.Holds t.heap a := fun a ha => (hargs a ha).after hstep
      apply Follows.bind (.bindParams hstep.closed hj.confined.causes hinner fn.params hargs')
        (.bindParams hab hinner hstep.closed fn.params hargs')
      intro _ u u' hstep' _ hab
      have hboth := hstep.trans hstep'
      apply Follows.operand
      apply Follows.calling
      refine hj.body (by omega) ?_ ⟨hab.heap, congrArg (· + 1) hab.depth⟩
      exact ⟨hboth.closed, hstep'.spares.area_subset hinner,
        fun q hq => hboth.spares.area_subset (hbody q hq),
        congrArg (· + 1) (hboth.depth.trans hdepth)⟩
  | _ => exact .throw hab _

theorem readEntry (hj : jump.Tracks ρ limit depth) {l : List Location}
    (hs : N.Ready depth frame l s) (hab : ρ.Abreast s s') {c : Value} (hc : N.Holds s.heap c)
    (k : Value) : ρ.Follows ρ.value (Eval.readEntry jump frame c k)
      (Eval.readEntry jump (ρ.frame frame) (ρ.value c) (ρ.value k)) s s' := by
  have hread : Primer.Confined N (fun _ => True) (Eval.look (·.read c k))
      (fun h r => h.read c k = .ok r) s :=
    .look hs.closed hj.confined.causes fun _ heq => heq
  apply Follows.bind hread (.look hab (hab.heap.read hc))
  intro r t t' hstep heq hab
  match r with
  | some (.written e) =>
    obtain ⟨hentry, hcode⟩ := hstep.closed.read_written (hc.after hstep) heq
    -- the frame that reads the entry, in which it is evaluated, is one of the region
    have hready := hs.after hstep
    exact .operand (hj.entry hentry ⟨hready.closed, hready.frame, hcode, hready.depth⟩ hab)
  | some (.assigned v) => exact .pure hab (ρ.unwrap_value v)
  | none => exact .pure hab rfl

mutual

theorem eval (hj : jump.Tracks ρ limit depth) (e : Expr Label) {s s' : Eval.State}
    (hs : N.Ready depth frame e.literals s) (hab : ρ.Abreast s s') :
    ρ.Follows ρ.value (e.eval limit jump frame) (e.eval limit jump (ρ.frame frame)) s s' := by
  cases e with
  | ident _ name =>
    rw [Expr.eval, Expr.eval]
    exact .lookup hab hs.frame hs.closed name
  | str | int | bool | function | object | array =>
    rw [Expr.eval, Expr.eval]
    exact .pure hab rfl
  | unary _ op e =>
    rw [Expr.eval, Expr.eval]
    rw [Expr.literals] at hs
    apply (Follows.operand (eval hj e hs hab)).andThen
    intro v t t' _ hab
    exact .ofExcept hab (op.apply_rename ρ.frame v)
  | binary _ op left right =>
    rw [Expr.eval, Expr.eval]
    rw [Expr.literals] at hs
    apply Follows.bind (.operand (hj.confined.eval left hs.left))
      (.operand (eval hj left hs.left hab))
    intro a t t' hstep ha hab
    have hs' := hs.right.after hstep
    apply Follows.bind (.operand (hj.confined.eval right hs')) (.operand (eval hj right hs' hab))
    intro b u u' hstep' hb hab
    exact .ofExcept hab (op.apply_rename ρ (ha.after hstep') hb)
  | cond _ condition consequence alternative =>
    cases alternative with
    | none =>
      rw [Expr.eval, Expr.eval]
      rw [Expr.literals] at hs
      apply Follows.bind (.operand (hj.confined.eval condition hs.left))
        (.operand (eval hj condition hs.left hab))
      intro v t t' hstep _ hab
      rw [isTruthy_value]
      exact .ite (block hj consequence (hs.right.after hstep) hab) (.pure hab rfl)
    | some alternative =>
      rw [Expr.eval, Expr.eval]
      rw [Expr.literals] at hs
      apply Follows.bind (.operand (hj.confined.eval condition hs.left.left))
        (.operand (eval hj condition hs.left.left hab))
      intro v t t' hstep _ hab
      rw [isTruthy_value]
      exact .ite (block hj consequence (hs.left.right.after hstep) hab)
        (block hj alternative (hs.right.after hstep) hab)
  | call _ callee args =>
    rw [Expr.eval, Expr.eval]
    rw [Expr.literals] at hs
    apply Follows.bind (.operand (hj.confined.eval callee hs.left))
      (.operand (eval hj callee hs.left hab))
    intro f t t' hstep hf hab
    have hs' := hs.right.after hstep
    apply Follows.bind (hj.confined.evalArgs args hs') (evalArgs hj args hs' hab)
    intro vs u u' hstep' hvs hab
    exact apply hj hstep'.closed (hs'.after hstep').depth hab (hf.after hstep') hvs
  | index _ container key =>
    rw [Expr.eval, Expr.eval]
    rw [Expr.literals] at hs
    apply Follows.bind (.operand (hj.confined.eval container hs.left))
      (.operand (eval hj container hs.left hab))
    intro c t t' hstep hc hab
    have hs' := hs.right.after hstep
    apply Follows.bind (.operand (hj.confined.eval key hs')) (.operand (eval hj key hs' hab))
    intro k u u' hstep' _ hab
    exact readEntry hj (hs'.after hstep') hab (hc.after hstep') k
  | assign _ target value =>
    cases target with
    | ident _ name =>
      rw [Expr.eval, Expr.eval]
      rw [Expr.literals] at hs
      apply Follows.bind (.operand (hj.confined.eval value hs.right))
        (.operand (eval hj value hs.right hab))
      intro v t t' hstep _ hab
      exact .assign hab (hs.after hstep).frame hstep.closed name v
    | index span container key =>
      cases container with
      | ident _ name =>
        rw [Expr.eval, Expr.eval]
        rw [Expr.literals, Expr.literals] at hs
        apply Follows.bind (.lookup hs.closed hj.confined.causes hs.frame name)
          (.lookup hab hs.frame hs.closed name)
        intro c t t' hstep hc hab
        have hs' := hs.after hstep
        apply Follows.bind (.operand (hj.confined.eval key hs'.left.right))
          (.operand (eval hj key hs'.left.right hab))
        intro k u u' hstep' _ hab
        have hs'' := hs'.after hstep'
        apply Follows.bind (.operand (hj.confined.eval value hs''.right))
          (.operand (eval hj value hs''.right hab))
        intro v x x' hstep'' hv hab
        have hc' : N.Holds x.heap c := (hc.after hstep').after hstep''
        apply Follows.bind (.change hstep''.closed hj.confined.causes fun h heq =>
            hstep''.closed.write (a := ⟨value.span, v⟩) hc' hv heq)
          (.change hab (hab.heap.write hc' ⟨value.span, v⟩ span key.span))
        intro _ y y' hwrite _ hab
        have hframe := ((hs''.after hstep'').after hwrite).frame
        apply (Follows.assign hab hframe hwrite.closed name c).andThen
        intro _ z z' _ hab
        exact .pure hab rfl
      | _ => exact .throw hab _
    | _ => exact .throw hab _

theorem stmt (hj : jump.Tracks ρ limit depth) (x : Stmt Label) {s s' : Eval.State}
    (hs : N.Ready depth frame x.literals s) (hab : ρ.Abreast s s') :
    ρ.Follows ρ.value (x.exec limit jump frame) (x.exec limit jump (ρ.frame frame)) s s' := by
  cases x with
  | declare _ _ name value =>
    cases value with
    | none =>
      rw [Stmt.exec, Stmt.exec]
      exact .declare hab hs.frame name.name .undefined
    | some value =>
      rw [Stmt.exec, Stmt.exec]
      rw [Stmt.literals] at hs
      apply Follows.bind (hj.confined.eval value hs) (eval hj value hs hab)
      intro v t t' hstep _ hab
      rw [isReturned_value]
      exact .ite (.pure hab rfl) (.declare hab (hs.after hstep).frame name.name v)
  | function _ name fn =>
    rw [Stmt.exec, Stmt.exec]
    exact .declare hab hs.frame name.name (.closure fn frame)
  | ret _ value =>
    rw [Stmt.exec, Stmt.exec]
    rw [Stmt.literals] at hs
    apply (Follows.operand (eval hj value hs hab)).andThen
    intro v t t' _ hab
    exact .pure hab rfl
  | expr _ value =>
    rw [Stmt.exec, Stmt.exec]
    rw [Stmt.literals] at hs
    exact eval hj value hs hab

theorem block (hj : jump.Tracks ρ limit depth) (b : Block Label) {s s' : Eval.State}
    (hs : N.Ready depth frame b.literals s) (hab : ρ.Abreast s s') :
    ρ.Follows ρ.value (b.exec limit jump frame) (b.exec limit jump (ρ.frame frame)) s s' := by
  cases b with
  | mk _ statements =>
    rw [Block.exec, Block.exec]
    rw [Block.literals] at hs
    exact execAll hj .undefined statements hs hab

theorem execAll (hj : jump.Tracks ρ limit depth) (last : Value) (xs : List (Stmt Label))
    {s s' : Eval.State} (hs : N.Ready depth frame (literalsOfStmts xs) s)
    (hab : ρ.Abreast s s') :
    ρ.Follows ρ.value (execAll limit jump frame last xs)
      (execAll limit jump (ρ.frame frame) (ρ.value last) xs) s s' := by
  cases xs with
  | nil =>
    rw [Primer.execAll, Primer.execAll]
    exact .pure hab rfl
  | cons x xs =>
    rw [Primer.execAll, Primer.execAll]
    rw [literalsOfStmts] at hs
    apply Follows.bind (hj.confined.stmt x hs.left) (stmt hj x hs.left hab)
    intro v t t' hstep _ hab
    rw [isReturned_value]
    exact .ite (.pure hab rfl) (execAll hj v xs (hs.right.after hstep) hab)

theorem evalArgs (hj : jump.Tracks ρ limit depth) (es : List (Expr Label)) {s s' : Eval.State}
    (hs : N.Ready depth frame (literalsOfExprs es) s) (hab : ρ.Abreast s s') :
    ρ.Follows (List.map ρ.value) (evalArgs limit jump frame es)
      (evalArgs limit jump (ρ.frame frame) es) s s' := by
  cases es with
  | nil =>
    rw [Primer.evalArgs, Primer.evalArgs]
    exact .pure hab rfl
  | cons e es =>
    rw [Primer.evalArgs, Primer.evalArgs]
    rw [literalsOfExprs] at hs
    apply Follows.bind (.operand (hj.confined.eval e hs.left)) (.operand (eval hj e hs.left hab))
    intro v t t' hstep _ hab
    apply (evalArgs hj es (hs.right.after hstep) hab).andThen
    intro vs u u' _ hab
    exact .pure hab rfl

end

end Jump.Tracks

/-- With whatever fuel, jumps from states that agree on a closed region do the same. -/
theorem jump_tracks {N : Region} (ρ : N.Renaming) (limit fuel depth : Nat) :
    (jump limit fuel).Tracks ρ limit depth := by
  induction fuel generalizing depth with
  | zero =>
    refine ⟨jump_confined N limit 0 depth, ?_, ?_⟩
    · intro frame b s s' _ _ hab
      exact .throw hab _
    · intro frame e s s' _ _ hab
      exact .throw hab _
  | succ fuel ih =>
    refine ⟨jump_confined N limit (fuel + 1) depth, ?_, ?_⟩
    · intro frame b s s' _ hs hab
      exact (ih (depth + 1)).block b hs hab
    · intro frame e s s' _ hs hab
      exact (ih depth).eval e hs hab

/-! ### Calls from two states -/

/-- The numbers of frames in a second heap that has those of a first heap under the same numbers, if
as many frames are made in both from now on. -/
def renumber (size size' f : Nat) : Nat := if f < size then f else size' + (f - size)

theorem renumber_of_lt {size f : Nat} (h : f < size) (size' : Nat) :
    renumber size size' f = f :=
  if_pos h

theorem renumber_self (size : Nat) : renumber size size = id := by
  funext f
  unfold renumber
  split
  · rfl
  · exact Nat.add_sub_of_le (Nat.not_lt.1 ‹_›)

/-- The locations that a call is given. -/
def callRoots (callee : Value) (args : List Value) : Set Location :=
  {q | q ∈ callee.locations ∨ ∃ a ∈ args, q ∈ a.locations}

/-- The second end of a run is as the first, up to the numbers of frames: the same value or the same
cause, and heaps that agree on all that can be reached from the roots and from the value. -/
def SameEnd (ρ : Nat → Nat) (roots : Set Location) :
    EStateM.Result Halt Eval.State Value → EStateM.Result Halt Eval.State Value → Prop
  | .ok v t, .ok v' t' => v' = v.rename ρ ∧ t'.depth = t.depth ∧
    Heap.Agree ρ (t.heap.Reaches {q | q ∈ roots ∨ q ∈ v.locations}) t.heap t'.heap
  | .error halt t, .error halt' t' => halt' = halt ∧ t'.depth = t.depth ∧
    Heap.Agree ρ (t.heap.Reaches roots) t.heap t'.heap
  | _, _ => False

/-- A run that stays within a region, and one that follows it, end the same. -/
theorem Region.Renaming.Follows.sameEnd {N : Region} {ρ : N.Renaming} {halts : Halt → Prop}
    {roots : Set Location} (hroots : ∀ q ∈ roots, q ∈ N.locations) {x x' : Eval Value}
    {s s' : Eval.State} (hconfined : Confined N halts x N.Holds s)
    (hfollows : ρ.Follows ρ.value x x' s s') : SameEnd ρ.frame roots (x s) (x' s') := by
  -- the first run never left the region, so what can be reached after it still belongs to it
  cases hrun : x s with
  | ok v t =>
    obtain ⟨t', hrun', hab⟩ := hfollows.ok hrun
    obtain ⟨hstep, hv⟩ := hconfined.ok hrun
    have hgiven : ∀ q ∈ {q | q ∈ roots ∨ q ∈ v.locations}, q ∈ N.area t.heap :=
      fun q hq => hq.elim (fun hq => .inl (hroots q hq)) (hv q)
    rw [hrun']
    exact ⟨rfl, hab.depth, hab.heap.agree.subset fun q hq => hstep.closed.reaches hgiven hq⟩
  | error halt t =>
    obtain ⟨t', hrun', hab⟩ := hfollows.error hrun
    obtain ⟨hstep, -⟩ := hconfined.error hrun
    have hgiven : ∀ q ∈ roots, q ∈ N.area t.heap := fun q hq => .inl (hroots q hq)
    rw [hrun']
    exact ⟨rfl, hab.depth, hab.heap.agree.subset fun q hq => hstep.closed.reaches hgiven hq⟩

namespace Heap.Agree

variable {roots : Set Location} {h h' : Heap}

/-- What can be reached keeps its numbers, and new frames are numbered behind those that are there
in either heap. -/
def numbers (hagree : Agree id (h.Reaches roots) h h') : (Region.reachable h roots).Renaming where
  frame := renumber h.frames.size h'.frames.size
  base := h'.frames.size
  made _ hf := if_neg (Nat.not_lt.2 hf)
  there f hf := by
    obtain ⟨hlt, hlt'⟩ := hagree.there hf
    rw [renumber_of_lt hlt]
    exact ⟨hlt, hlt'⟩
  mono f g hf hg hlt := by
    rw [renumber_of_lt (hagree.there hf).1, renumber_of_lt (hagree.there hg).1]
    exact hlt

theorem twin (hagree : Agree id (h.Reaches roots) h h') : hagree.numbers.Twin h h' := by
  refine ⟨rfl, ?_⟩
  have hclosed := Region.reachable_closed h roots
  have harea : ∀ q ∈ (Region.reachable h roots).area h, q ∈ h.Reaches roots := by
    rintro q (hq | ⟨f, -, hle, hlt⟩)
    · exact hq
    · exact absurd hlt (Nat.not_lt.2 hle)
  apply (hagree.subset harea).congr hclosed.closed
  intro f hf
  exact renumber_of_lt (hagree.there (harea _ hf)).1 _

theorem numbers_value (hagree : Agree id (h.Reaches roots) h h') {v : Value}
    (hv : ∀ q ∈ v.locations, q ∈ roots) : hagree.numbers.value v = v := by
  calc v.rename (renumber h.frames.size h'.frames.size) = v.rename id := by
        apply Value.rename_congr
        intro f hf
        exact renumber_of_lt (hagree.there (Heap.subset_reaches (hv _ hf))).1 _
    _ = v := v.rename_id

end Heap.Agree

/-- A call from two states that agree on what it can reach ends the same. -/
theorem Bounds.call_sameEnd (bounds : Bounds) {callee : Value} {args : List Value}
    {s s' : Eval.State} (hdepth : s'.depth = s.depth)
    (hagree : Heap.Agree id (s.heap.Reaches (callRoots callee args)) s.heap s'.heap) :
    SameEnd (renumber s.heap.frames.size s'.heap.frames.size) (callRoots callee args)
      (bounds.call callee args s) (bounds.call callee args s') := by
  let N := Region.reachable s.heap (callRoots callee args)
  have hroots {h : Heap} : ∀ q ∈ callRoots callee args, q ∈ N.area h :=
    fun q hq => .inl (Heap.subset_reaches hq)
  have hcallee : N.Holds s.heap callee := fun q hq => hroots q (.inl hq)
  have hargs : ∀ a ∈ args, N.Holds s.heap a := fun a ha q hq => hroots q (.inr ⟨a, ha, hq⟩)
  have hclosed : N.Closed s.heap := Region.reachable_closed s.heap _
  have hj := jump_tracks hagree.numbers bounds.calls bounds.fuel s.depth
  have hconfined : Confined N (fun _ => True) (bounds.call callee args) N.Holds s :=
    hj.confined.apply hclosed rfl hcallee hargs
  have hargs' : args.map hagree.numbers.value = args := by
    calc args.map hagree.numbers.value = args.map id :=
          List.map_congr_left fun a ha => hagree.numbers_value fun q hq => .inr ⟨a, ha, hq⟩
      _ = args := List.map_id args
  have hfollows : hagree.numbers.Follows hagree.numbers.value (bounds.call callee args)
      (bounds.call callee args) s s' := by
    have happly := hj.apply hclosed rfl ⟨hagree.twin, hdepth⟩ hcallee hargs
    rw [hagree.numbers_value fun q hq => .inl hq, hargs'] at happly
    exact happly
  exact hfollows.sameEnd (fun q hq => Heap.subset_reaches hq) hconfined

/-- **A call depends only on what it can reach.**  Let `reached` be what can be reached from a
function and its arguments.  From every state that agrees with `s` on `reached`, whatever else is in
it, a call with as many calls under way ends as it does from `s`: with the same value or for the
same cause, up to the numbers of the frames that it makes, and with a heap that agrees again on all
that can then be reached.  In particular, no variable of a frame that is not among `reached` has an
influence. -/
theorem call_depends_only_on_reachable (bounds : Bounds) (callee : Value) (args : List Value)
    (s : Eval.State) :
    let roots := callRoots callee args
    let reached := s.heap.Reaches roots
    (∀ s', s'.depth = s.depth → Heap.Agree id reached s.heap s'.heap →
      SameEnd (renumber s.heap.frames.size s'.heap.frames.size) roots
        (bounds.call callee args s) (bounds.call callee args s')) ∧
    ∀ f name v, (∀ g, .frame g ∈ reached → g < s.heap.frames.size) → .frame f ∉ reached →
      SameEnd id roots (bounds.call callee args s)
        (bounds.call callee args { s with heap := s.heap.bindIn f name v }) := by
  intro roots reached
  refine ⟨fun s' hdepth hagree => bounds.call_sameEnd hdepth hagree, ?_⟩
  intro f name v hthere hf
  have hagree : Heap.Agree id reached s.heap (s.heap.bindIn f name v) := .of_bindIn hthere hf name v
  have hsame : SameEnd (renumber s.heap.frames.size (s.heap.bindIn f name v).frames.size) roots
      (bounds.call callee args s)
      (bounds.call callee args { s with heap := s.heap.bindIn f name v }) :=
    bounds.call_sameEnd rfl hagree
  rw [Heap.size_bindIn, renumber_self] at hsame
  exact hsame

/-- `function (n) { return function () { return n + base; }; }` -/
def sumWithBase : Function Label :=
  ⟨.zero, 0, none, [⟨.zero, "n"⟩], ⟨.zero, [.ret .zero (.function .zero ⟨.zero, 1, none, [],
    ⟨.zero, [.ret .zero (.binary .zero .add (.ident .zero "n") (.ident .zero "base"))]⟩⟩)]⟩⟩

/-- A global variable `base`, and callers that may have their own. -/
def calledFrom (callers : List Frame) : Eval.State :=
  ⟨⟨(⟨[("base", .integer 1)], none⟩ :: callers).toArray, [], [], 0⟩, 0⟩

theorem calledFrom_reached (callers : List Frame) :
    (calledFrom callers).heap.Reaches (callRoots (.closure sumWithBase 0) []) ⊆ {.frame 0} := by
  intro q hq
  refine Heap.Reaches.of_closed ?_ ?_ hq
  · rintro p (hp | ⟨a, ha, -⟩)
    · simpa [Value.locations, Function.literals, sumWithBase, Block.literals, literalsOfStmts,
        Stmt.literals, Expr.literals] using hp
    · exact absurd ha List.not_mem_nil
  · rintro p q rfl hleads
    cases hleads with
    | enclosing hparent => simp [Heap.parent?, calledFrom] at hparent
    | binding hb hq =>
      simp only [Heap.bindings, calledFrom, List.getElem?_toArray, List.getElem?_cons_zero,
        Option.map_some, Option.getD_some, List.mem_singleton] at hb
      subst hb
      exact absurd hq List.not_mem_nil

/-- Where the function is called from, and what is called `base` there, makes no difference. -/
theorem call_depends_only_on_reachable_callers :
    SameEnd (renumber 2 3) (callRoots (.closure sumWithBase 0) [])
      (Bounds.call {} (.closure sumWithBase 0) [] (calledFrom [⟨[], some 0⟩]))
      (Bounds.call {} (.closure sumWithBase 0) []
        (calledFrom [⟨[("base", .integer 7)], some 0⟩, ⟨[("n", .integer 2)], some 1⟩])) ∧
    SameEnd id (callRoots (.closure sumWithBase 0) [])
      (Bounds.call {} (.closure sumWithBase 0) [] (calledFrom [⟨[], some 0⟩]))
      (Bounds.call {} (.closure sumWithBase 0) [] { calledFrom [⟨[], some 0⟩] with
        heap := (calledFrom [⟨[], some 0⟩]).heap.bindIn 1 "base" (.integer 7) }) := by
  have hcall := call_depends_only_on_reachable {} (.closure sumWithBase 0) []
    (calledFrom [⟨[], some 0⟩])
  constructor
  · apply hcall.1 (calledFrom [⟨[("base", .integer 7)], some 0⟩, ⟨[("n", .integer 2)], some 1⟩]) rfl
    apply Heap.Agree.subset _ (calledFrom_reached _)
    refine ⟨?_, ?_, ?_, nofun, nofun, nofun⟩
    · rintro f ⟨⟩
      decide
    · rintro f ⟨⟩
      rfl
    · rintro f ⟨⟩ name
      simp [Heap.own?, Heap.bindings, calledFrom]
  · apply hcall.2 1 "base" (.integer 7)
    · intro g hg
      cases calledFrom_reached _ hg
      decide
    · intro hf
      cases calledFrom_reached _ hf

end Primer
