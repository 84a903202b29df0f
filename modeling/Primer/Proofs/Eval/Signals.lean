/-
  Primer/Proofs/Eval/Signals.lean
  ===============================
  **The signal of a `return` never gets into the heap.**

  A `returned` value is a signal to the nearest call and no value that a program should get
  hold of.  It is made by `return`, passed on by statements, blocks and `if`, and taken off
  where a value is used.  That this is done in all the right places is an invariant of the
  heap (`Heap.Plain`) with what each computation gives (`Keeps`): an expression other than an
  `if` gives no signal, and a signal never wraps another.
-/
import Primer.Proofs.Eval.Tasks
import Primer.Proofs.Heap.Changes

namespace Primer

/-! ### Plain values -/

namespace Value

/-- The value is no signal. -/
def Plain (v : Value) : Prop := v.isReturned = false

/-- The value is no signal, or one around a plain value. -/
def Proper : Value → Prop
  | returned v => v.Plain
  | _ => True

instance (v : Value) : Decidable v.Plain := inferInstanceAs (Decidable (_ = _))

theorem Plain.proper {v : Value} (h : v.Plain) : v.Proper := by
  cases v with
  | returned v => exact absurd h Bool.noConfusion
  | _ => trivial

theorem Proper.unwrap {v : Value} (h : v.Proper) : v.unwrap.Plain := by
  cases v with
  | returned v => exact h
  | _ => rfl

end Value

/-! ### Plain heaps -/

variable {α β : Type}

namespace Heap

/-- No variable and no entry of a literal holds a signal. -/
structure Plain (h : Heap) : Prop where
  frames : ∀ f, ∀ b ∈ h.bindings f, b.2.Plain
  properties : ∀ label, ∀ p ∈ h.assignedProperties label, p.value.value.Plain
  elements : ∀ label written a, some a ∈ h.arraySlots label written → a.value.Plain

variable {h : Heap}

theorem Plain.newFrame (hh : h.Plain) (parent : FrameId) : (h.newFrame parent).2.Plain where
  frames f b hb := by
    refine hh.frames f b ?_
    unfold Heap.newFrame bindings at hb
    unfold bindings
    rw [Array.getElem?_push] at hb
    split at hb
    · exact absurd hb List.not_mem_nil
    · exact hb
  properties := hh.properties
  elements := hh.elements

namespace Plain

theorem bindIn (hh : h.Plain) (f : FrameId) (name : String) {v : Value} (hv : v.Plain) :
    (h.bindIn f name v).Plain where
  frames g b hb := by
    rcases mem_bindings_bindIn hb with rfl | hb
    · exact hv
    · exact hh.frames g b hb
  properties := hh.properties
  elements := hh.elements

theorem setProperty (hh : h.Plain) (label : Label) {p : Property Assigned}
    (hp : p.value.value.Plain) : (h.setProperty label p).Plain where
  frames := hh.frames
  properties l q hq := by
    unfold assignedProperties Heap.setProperty at hq
    by_cases hl : l = label
    · subst hl
      rw [Table.get?_set_self] at hq
      rcases Property.mem_of_mem_put hq with hq | hq
      · rw [hq]
        exact hp
      · exact hh.properties l q hq
    · rw [Table.get?_set_of_ne hl] at hq
      exact hh.properties l q hq
  elements := hh.elements

theorem setElement (hh : h.Plain) (label : Label) (written : List (Expr Label)) (i : Nat)
    {a : Assigned} (ha : a.value.Plain) : (h.setElement label written i a).Plain where
  frames := hh.frames
  properties := hh.properties
  elements l w b hb := by
    unfold arraySlots Heap.setElement at hb
    by_cases hl : l = label
    · subst hl
      rw [Table.get?_set_self] at hb
      rcases mem_of_mem_putSlot hb with rfl | rfl | hb
      · exact ha
      · rfl
      · exact hh.elements l written b hb
    · rw [Table.get?_set_of_ne hl] at hb
      exact hh.elements l w b hb

theorem declare (hh : h.Plain) {f : FrameId} {name : String} {v : Value} (hv : v.Plain) {h' : Heap}
    (heq : h.declare f name v = .ok h') : h'.Plain := by
  unfold Heap.declare at heq
  split at heq
  · exact absurd heq nofun
  · cases heq
    exact hh.bindIn f name hv

theorem assign (hh : h.Plain) {f : FrameId} {name : String} {v : Value} (hv : v.Plain) {h' : Heap}
    (heq : h.assign f name v = .ok h') : h'.Plain := by
  unfold Heap.assign at heq
  split at heq
  · cases heq
    exact hh.bindIn _ name hv
  · cases heq

theorem lookup (hh : h.Plain) {f : FrameId} {name : String} {v : Value}
    (heq : h.lookup f name = .ok v) : v.Plain := by
  unfold Heap.lookup at heq
  split at heq
  next w hw =>
    cases heq
    obtain ⟨g, -, hg⟩ := Option.bind_eq_some_iff.1 hw
    exact hh.frames g _ (Table.mem_of_get? hg)
  next => exact absurd heq nofun

theorem read (hh : h.Plain) {c k v : Value} (heq : h.read c k = .ok (some (.assigned v))) :
    v.Plain := by
  unfold Heap.read at heq
  split at heq
  · unfold property? at heq
    split at heq
    next p hp =>
      cases heq
      exact hh.properties _ p (List.mem_of_find?_eq_some hp)
    next =>
      obtain ⟨q, -, hq⟩ := Option.map_eq_some_iff.1 (Except.ok.inj heq)
      exact absurd hq nofun
  · exact absurd heq nofun
  · split at heq
    · unfold element? at heq
      split at heq
      next a ha =>
        cases heq
        exact hh.elements _ _ a (List.mem_of_getElem? ha)
      next =>
        obtain ⟨q, -, hq⟩ := Option.map_eq_some_iff.1 (Except.ok.inj heq)
        exact absurd hq nofun
      next => exact absurd heq nofun
    · exact absurd heq nofun
  · exact absurd heq nofun
  · exact absurd heq nofun

theorem write (hh : h.Plain) {c k : Value} {a : Assigned} {span keySpan : Span}
    (ha : a.value.Plain) {h' : Heap} (heq : h.write c k a span keySpan = .ok h') : h'.Plain := by
  unfold Heap.write at heq
  split at heq
  · cases heq
    exact hh.setProperty _ ha
  · exact absurd heq nofun
  · dsimp only at heq
    split at heq
    · exact absurd heq nofun
    · split at heq
      · exact absurd heq nofun
      · cases heq
        exact hh.setElement _ _ _ ha
  · exact absurd heq nofun
  · exact absurd heq nofun

end Plain

theorem empty_plain : empty.Plain where
  frames f b hb := by
    cases f with
    | zero => exact absurd hb List.not_mem_nil
    | succ f => exact absurd hb List.not_mem_nil
  properties _ := nofun
  elements label written a ha := absurd (List.eq_of_mem_replicate ha) nofun

end Heap

/-! ### Computations that keep the heap plain -/

/-- From a plain heap the computation leads to one, whether it ends in a value or halts, and
its value is as `Q` says. -/
def Keeps (x : Eval α) (Q : α → Prop) : Prop :=
  ∀ s : Eval.State, s.heap.Plain →
    match x s with
    | .ok a t => t.heap.Plain ∧ Q a
    | .error _ t => t.heap.Plain

namespace Keeps

variable {x : Eval α} {f : α → Eval β} {P Q : α → Prop} {R : β → Prop}

theorem ok (h : Keeps x Q) {s t : Eval.State} {a : α} (hs : s.heap.Plain) (hx : x s = .ok a t) :
    t.heap.Plain ∧ Q a := by
  have := h s hs
  rw [hx] at this
  exact this

theorem error (h : Keeps x Q) {s t : Eval.State} {e : Halt} (hs : s.heap.Plain)
    (hx : x s = .error e t) : t.heap.Plain := by
  have := h s hs
  rw [hx] at this
  exact this

theorem pure {a : α} (h : Q a) : Keeps (pure a) Q := fun _ hs => ⟨hs, h⟩

theorem throw (e : Halt) : Keeps (throw e : Eval α) Q := fun _ hs => hs

theorem bind (hx : Keeps x P) (hf : ∀ a, P a → Keeps (f a) R) : Keeps (x >>= f) R := by
  intro s hs
  show match EStateM.bind x f s with
    | .ok b t => t.heap.Plain ∧ R b
    | .error _ t => t.heap.Plain
  unfold EStateM.bind
  cases h : x s with
  | error e t => exact hx.error hs h
  | ok a t =>
    obtain ⟨ht, ha⟩ := hx.ok hs h
    exact hf a ha t ht

theorem mono (h : Keeps x P) (hPQ : ∀ a, P a → Q a) : Keeps x Q := by
  intro s hs
  cases hx : x s with
  | error e t => exact h.error hs hx
  | ok a t => exact (h.ok hs hx).imp_right (hPQ a)

theorem ite {c : Prop} [Decidable c] {y : Eval α} (hx : c → Keeps x Q) (hy : ¬c → Keeps y Q) :
    Keeps (if c then x else y) Q := by
  split
  next h => exact hx h
  next h => exact hy h

theorem ofExcept {r : Except RuntimeError α} (h : ∀ a, r = .ok a → Q a) :
    Keeps (Eval.ofExcept r) Q := by
  cases r with
  | ok a => exact pure (h a rfl)
  | error cause => exact throw _

theorem look {g : Heap → Except RuntimeError α} (h : ∀ h a, h.Plain → g h = .ok a → Q a) :
    Keeps (Eval.look g) Q := by
  intro s hs
  unfold Eval.look
  cases hg : g s.heap with
  | ok a => exact ⟨hs, h s.heap a hs hg⟩
  | error cause => exact hs

theorem change {g : Heap → Except RuntimeError Heap}
    (h : ∀ h h', h.Plain → g h = .ok h' → h'.Plain) : Keeps (Eval.change g) fun _ => True := by
  rintro ⟨heap, depth⟩ hs
  unfold Eval.change
  dsimp only
  cases hg : g heap with
  | ok heap' => exact ⟨h heap heap' hs hg, trivial⟩
  | error cause => exact hs

theorem declare (frame : FrameId) (name : String) {v : Value} (hv : v.Plain) :
    Keeps (Eval.declare frame name v) Value.Plain :=
  bind (change fun _ _ hh heq => hh.declare hv heq) fun _ _ => pure hv

theorem lookup (frame : FrameId) (name : String) :
    Keeps (Eval.lookup frame name) Value.Plain :=
  look fun _ _ hh heq => hh.lookup heq

theorem assign (frame : FrameId) (name : String) {v : Value} (hv : v.Plain) :
    Keeps (Eval.assign frame name v) Value.Plain :=
  bind (change fun _ _ hh heq => hh.assign hv heq) fun _ _ => pure hv

theorem newFrame (parent : FrameId) : Keeps (Eval.newFrame parent) fun _ => True :=
  fun _ hs => ⟨hs.newFrame parent, trivial⟩

/-- A value that is used has no signal around it. -/
theorem operand {x : Eval Value} (h : Keeps x Value.Proper) : Keeps (Eval.operand x) Value.Plain :=
  bind h fun _ hv => pure hv.unwrap

theorem calling (h : Keeps x Q) : Keeps (Eval.calling x) Q := by
  intro s hs
  unfold Eval.calling
  cases hx : x { s with depth := s.depth + 1 } with
  | ok a t =>
    have ht := h.ok (s := { s with depth := s.depth + 1 }) hs hx
    exact ht
  | error e t =>
    have ht := h.error (s := { s with depth := s.depth + 1 }) hs hx
    exact ht

end Keeps

/-! ### Operators -/

theorem checked_plain {a b r : Int} {op : BinaryOp} {v : Value} (h : checked a op b r = .ok v) :
    v.Plain := by
  unfold checked at h
  split at h
  · cases h
    rfl
  · exact absurd h nofun

theorem UnaryOp.apply_plain {op : UnaryOp} {v w : Value} (h : op.apply v = .ok w) : w.Plain := by
  unfold apply at h
  split at h
  · cases h
    rfl
  · exact checked_plain h
  · exact absurd h nofun

theorem BinaryOp.apply_plain {op : BinaryOp} {a b v : Value} (h : op.apply a b = .ok v) :
    v.Plain := by
  unfold apply at h
  split at h
  · unfold applyIntegers at h
    split at h
    case h_1 | h_2 | h_3 => exact checked_plain h
    case h_4 =>
      split at h
      · cases h
      · exact checked_plain h
    all_goals
      cases h
      rfl
  · split at h <;> cases h <;> rfl

/-! ### The evaluator -/

/-- What an expression may give: only an `if` passes a signal on. -/
def Expr.Gives : Expr Label → Value → Prop
  | .cond .., v => v.Proper
  | _, v => v.Plain

theorem Expr.Gives.proper {e : Expr Label} {v : Value} (h : e.Gives v) : v.Proper := by
  cases e with
  | cond => exact h
  | _ => exact Value.Plain.proper h

/-- What an expression gives can be passed on. -/
theorem Keeps.proper {x : Eval Value} {e : Expr Label} (h : Keeps x e.Gives) :
    Keeps x Value.Proper :=
  h.mono fun _ => Expr.Gives.proper

/-- What an expression gives can be used. -/
theorem Keeps.used {x : Eval Value} {e : Expr Label} (h : Keeps x e.Gives) :
    Keeps (Eval.operand x) Value.Plain :=
  h.proper.operand

/-- Code that is jumped to keeps the heap plain too. -/
def Jump.Keeps (jump : Jump) : Prop := ∀ frame code, Primer.Keeps (jump frame code) Value.Proper

variable {limit : Nat} {jump : Jump}

theorem headD_plain {args : List Value} (hargs : ∀ a ∈ args, a.Plain) :
    (args.headD .undefined).Plain := by
  cases args with
  | nil => rfl
  | cons a args => exact hargs a (List.mem_cons_self ..)

theorem bindParams_keeps (frame : FrameId) (xs : List Ident) {args : List Value}
    (hargs : ∀ a ∈ args, a.Plain) : Keeps (Eval.bindParams frame xs args) fun _ => True := by
  induction xs generalizing args with
  | nil => exact .pure trivial
  | cons x xs ih =>
    refine .bind (.declare frame x.name (headD_plain hargs)) fun _ _ => ?_
    exact ih fun a ha => hargs a (List.mem_of_mem_tail ha)

theorem apply_keeps (hj : jump.Keeps) (callee : Value) {args : List Value}
    (hargs : ∀ a ∈ args, a.Plain) : Keeps (Eval.apply limit jump callee args) Value.Plain := by
  unfold Eval.apply
  cases callee with
  | closure fn frame =>
    refine .bind (P := fun _ => True) (fun _ hs => ⟨hs, trivial⟩) fun s _ => ?_
    refine .ite (fun _ => .throw _) fun _ => ?_
    refine .bind (.newFrame frame) fun inner _ => ?_
    refine .bind (bindParams_keeps inner fn.params hargs) fun _ _ => ?_
    exact .operand (.calling (hj inner _))
  | _ => exact .throw _

theorem readEntry_keeps (hj : jump.Keeps) (frame : FrameId) (container key : Value) :
    Keeps (Eval.readEntry jump frame container key) Value.Plain := by
  have hread : Keeps (Eval.look (·.read container key))
      fun r => ∀ v, r = some (.assigned v) → v.Plain :=
    .look fun h r hh heq v hv => hh.read (hv ▸ heq)
  refine .bind hread fun r hr => ?_
  match r with
  | some (.written e) => exact .operand (hj frame _)
  | some (.assigned v) => exact .pure (hr v rfl).proper.unwrap
  | none => exact .pure rfl

mutual

theorem eval_keeps (hj : jump.Keeps) (frame : FrameId) :
    ∀ e : Expr Label, Keeps (e.eval limit jump frame) e.Gives
  | .ident _ name => .lookup frame name
  | .str .. => .pure rfl
  | .int .. => .pure rfl
  | .bool .. => .pure rfl
  | .unary _ op e =>
    .bind (eval_keeps hj frame e).used fun _ _ => .ofExcept fun _ => UnaryOp.apply_plain
  | .binary _ op left right =>
    .bind (eval_keeps hj frame left).used fun _ _ =>
      .bind (eval_keeps hj frame right).used fun _ _ => .ofExcept fun _ => BinaryOp.apply_plain
  | .cond _ condition consequence none =>
    .bind (eval_keeps hj frame condition).used fun _ _ =>
      .ite (fun _ => block_keeps hj frame consequence) fun _ => .pure trivial
  | .cond _ condition consequence (some alternative) =>
    .bind (eval_keeps hj frame condition).used fun _ _ =>
      .ite (fun _ => block_keeps hj frame consequence) fun _ => block_keeps hj frame alternative
  | .function .. => .pure rfl
  | .call _ callee args =>
    .bind (eval_keeps hj frame callee).used fun f _ =>
      .bind (args_keeps hj frame args) fun vs hvs => apply_keeps hj f hvs
  | .index _ container key =>
    .bind (eval_keeps hj frame container).used fun c _ =>
      .bind (eval_keeps hj frame key).used fun k _ => readEntry_keeps hj frame c k
  | .assign _ target value => by
    cases target with
    | ident _ name =>
      exact .bind (eval_keeps hj frame value).used fun _ hv => .assign frame name hv
    | index span container key =>
      cases container with
      | ident _ name =>
        refine .bind (.lookup frame name) fun c hc => ?_
        refine .bind (eval_keeps hj frame key).used fun k _ => ?_
        refine .bind (eval_keeps hj frame value).used fun v hv => ?_
        refine .bind (.change fun _ _ hh heq => hh.write hv heq) fun _ _ => ?_
        exact .bind (.assign frame name hc) fun _ _ => .pure hv
      | _ => exact .throw _
    | _ => exact .throw _
  | .object .. => .pure rfl
  | .array .. => .pure rfl

theorem stmt_keeps (hj : jump.Keeps) (frame : FrameId) :
    ∀ x : Stmt Label, Keeps (x.exec limit jump frame) Value.Proper
  | .declare _ _ name none =>
    (Keeps.declare frame name.name (v := .undefined) rfl).mono fun _ => Value.Plain.proper
  | .declare _ _ name (some value) =>
    .bind (eval_keeps hj frame value).proper fun _ hv =>
      .ite (fun _ => .pure hv) fun hret =>
        (Keeps.declare frame name.name (Bool.eq_false_iff.2 hret)).mono fun _ => Value.Plain.proper
  | .function _ name fn =>
    (Keeps.declare frame name.name (v := .closure fn frame) rfl).mono fun _ => Value.Plain.proper
  | .ret _ value => .bind (eval_keeps hj frame value).used fun _ hv => .pure hv
  | .expr _ value => (eval_keeps hj frame value).proper

theorem block_keeps (hj : jump.Keeps) (frame : FrameId) :
    ∀ b : Block Label, Keeps (b.exec limit jump frame) Value.Proper
  | ⟨_, statements⟩ => statements_keeps hj frame statements .undefined rfl

theorem statements_keeps (hj : jump.Keeps) (frame : FrameId) :
    ∀ (xs : List (Stmt Label)) (last : Value), last.Plain →
      Keeps (execAll limit jump frame last xs) Value.Proper
  | [], _, hlast => .pure hlast.proper
  | x :: xs, _, _ =>
    .bind (stmt_keeps hj frame x) fun v hv =>
      .ite (fun _ => .pure hv) fun hret => statements_keeps hj frame xs v (Bool.eq_false_iff.2 hret)

theorem args_keeps (hj : jump.Keeps) (frame : FrameId) :
    ∀ es : List (Expr Label), Keeps (evalArgs limit jump frame es) fun vs => ∀ v ∈ vs, v.Plain
  | [] => .pure nofun
  | e :: es =>
    .bind (eval_keeps hj frame e).used fun _ hv =>
      .bind (args_keeps hj frame es) fun _ hvs => .pure (List.forall_mem_cons.2 ⟨hv, hvs⟩)

end

theorem jump_keeps (limit : Nat) : ∀ fuel, (Primer.jump limit fuel).Keeps
  | 0, _, _ => .throw _
  | fuel + 1, frame, .expr e => (eval_keeps (jump_keeps limit fuel) frame e).proper
  | fuel + 1, frame, .block b => block_keeps (jump_keeps limit fuel) frame b

/-! ### Every task within an evaluation -/

namespace Work

/-- No value that the work is given is a signal. -/
def Plain : Work → Prop
  | statements last _ => last.Plain
  | call _ args => ∀ a ∈ args, a.Plain
  | parameters _ args => ∀ a ∈ args, a.Plain
  | restore _ container => container.Plain
  | _ => True

/-- What the work may give: programs, calls and entries give no signal, and of the expressions
only an `if` does. -/
def Gives : Work → Value → Prop
  | expr e, v => e.Gives v
  | stmt _, v | block _, v | statements .., v => v.Proper
  | _, v => v.Plain

variable {bounds : Bounds} {frame : FrameId} {w w' : Work} {s t : Eval.State}

theorem keeps (h : w.Plain) : Keeps (w.run bounds frame) w.Gives := by
  have hj := jump_keeps bounds.calls bounds.fuel
  cases w with
  | program p =>
    refine .bind (P := fun _ => True) (fun s hs => ⟨hs, trivial⟩) fun _ _ => ?_
    exact .operand (statements_keeps hj frame p.statements .undefined rfl)
  | expr e => exact eval_keeps hj frame e
  | stmt x => exact stmt_keeps hj frame x
  | block b => exact block_keeps hj frame b
  | statements last xs => exact statements_keeps hj frame xs last h
  | call callee args => exact apply_keeps hj callee h
  | parameters xs args => exact .bind (bindParams_keeps frame xs h) fun _ _ => .pure rfl
  | entry container key => exact readEntry_keeps hj frame container key
  | restore name container => exact .assign frame name h

theorem Gives.proper {v : Value} (h : w.Gives v) : v.Proper := by
  cases w with
  | expr e => exact Expr.Gives.proper h
  | stmt | block | statements => exact h
  | _ => exact Value.Plain.proper h

end Work

/-- The task starts from a plain heap, and no value that it is given is a signal. -/
structure Task.Plain (t : Task) : Prop where
  heap : t.state.heap.Plain
  work : t.work.Plain

theorem Inner.plain {bounds : Bounds} {frame : FrameId} {w w' : Work} {s s' : Eval.State}
    (h : Inner bounds frame w s w' s') (hs : s.heap.Plain) (hw : w.Plain) :
    s'.heap.Plain ∧ w'.Plain := by
  have hj := jump_keeps bounds.calls bounds.fuel
  -- the state behind an expression
  have hexpr {e : Expr Label} {s t : Eval.State} {v : Value} (hs : s.heap.Plain)
      (h : (Work.expr e).run bounds frame s = .ok v t) : t.heap.Plain :=
    ((Work.keeps (w := .expr e) trivial).ok hs h).1
  cases h with
  | program => exact ⟨hs, rfl⟩
  | operand | left | condition | callee | container | value | declared | returned | expr =>
    exact ⟨hs, trivial⟩
  | right hleft => exact ⟨hexpr hs hleft, trivial⟩
  | consequence hcondition _ => exact ⟨hexpr hs hcondition, trivial⟩
  | alternative hcondition _ => exact ⟨hexpr hs hcondition, trivial⟩
  | argument hcallee hbefore =>
    exact ⟨((args_keeps hj frame _).ok (hexpr hs hcallee) hbefore).1, trivial⟩
  | call hcallee hargs => exact (args_keeps hj frame _).ok (hexpr hs hcallee) hargs
  | @parameter x xs args s v t hfirst =>
    have ht := (Keeps.declare frame x.name (headD_plain hw)).ok hs hfirst
    exact ⟨ht.1, fun a ha => hw a (List.mem_of_mem_tail ha)⟩
  | key hcontainer => exact ⟨hexpr hs hcontainer, trivial⟩
  | entry hcontainer hkey => exact ⟨hexpr (hexpr hs hcontainer) hkey, trivial⟩
  | entryKey hname => exact ⟨((Keeps.lookup frame _).ok hs hname).1, trivial⟩
  | entryValue hname hkey =>
    exact ⟨hexpr ((Keeps.lookup frame _).ok hs hname).1 hkey, trivial⟩
  | @restore span span' span'' name k e s c t w u v x y hname hkey hvalue hwrite =>
    obtain ⟨ht, hc⟩ := (Keeps.lookup frame name).ok hs hname
    obtain ⟨hx, hv⟩ := (Work.keeps (w := .expr e) trivial).ok (hexpr ht hkey) hvalue
    have hkeeps : Keeps (Eval.change (·.write c w.unwrap ⟨e.span, v.unwrap⟩ span' k.span))
        fun _ => True :=
      .change fun _ _ hh heq => hh.write hv.proper.unwrap heq
    exact ⟨(hkeeps.ok hx hwrite).1, hc⟩
  | block => exact ⟨hs, rfl⟩
  | first => exact ⟨hs, trivial⟩
  | rest hfirst hgoes => exact ⟨((Work.keeps (w := .stmt _) trivial).ok hs hfirst).1, hgoes⟩

theorem Part.plain {t u : Task} (h : Part t u) (ht : t.Plain) : u.Plain := by
  cases h with
  | inner h =>
    obtain ⟨hs, hw⟩ := h.plain ht.heap ht.work
    exact ⟨hs, hw⟩
  | parameters _ hframe => exact ⟨((Keeps.newFrame _).ok ht.heap hframe).1, ht.work⟩
  | body _ hframe hparams _ =>
    have hframe' := ((Keeps.newFrame _).ok ht.heap hframe).1
    exact ⟨((bindParams_keeps _ _ ht.work).ok hframe' hparams).1, trivial⟩
  | written => exact ⟨ht.heap, trivial⟩

/-- **Signals never leak.**  Let a task start from a heap without signals and be given none.
Then the same holds of every task within it, and however such a task ends, the heap holds no
signal: not in a variable and not in an entry of an object or array.  If it ends in a value, a
signal in that value wraps no other signal, and there is one only if the task is an `if`, a
statement or a block; a program and a call never give one. -/
theorem signals_never_leak {t u : Task} (ht : t.Plain) (h : Within t u) :
    u.Plain ∧
      match u.run with
      | .ok v s => s.heap.Plain ∧ v.Proper ∧ u.work.Gives v
      | .error _ s => s.heap.Plain := by
  have hu : u.Plain := by
    induction h with
    | refl => exact ht
    | tail _ hpart ih => exact hpart.plain ih
  refine ⟨hu, ?_⟩
  have hkeeps : Keeps (u.work.run u.bounds u.frame) u.work.Gives := Work.keeps hu.work
  unfold Task.run
  cases hrun : u.work.run u.bounds u.frame u.state with
  | ok v s =>
    obtain ⟨hs, hv⟩ := hkeeps.ok hu.heap hrun
    exact ⟨hs, hv.proper, hv⟩
  | error e s => exact hkeeps.error hu.heap hrun

/-- A call of `function (x) { if (x) { return x; } }` with `true`. -/
def sampleCall : Task :=
  ⟨⟨128, 1⟩, Heap.root, .call (.closure ⟨.zero, 0, none, [⟨.zero, "x"⟩], ⟨.zero,
    [.expr .zero (.cond .zero (.ident .zero "x") ⟨.zero, [.ret .zero (.ident .zero "x")]⟩ none)]⟩⟩
      Heap.root) [.boolean true], .empty⟩

/-- The `if` in that call, which gives a signal. -/
def sampleIf : Task :=
  ⟨⟨128, 0⟩, 1,
    .expr (.cond .zero (.ident .zero "x") ⟨.zero, [.ret .zero (.ident .zero "x")]⟩ none),
    ⟨⟨#[⟨[], none⟩, ⟨[("x", .boolean true)], some Heap.root⟩], [], [], 0⟩, 1⟩⟩

theorem signals_never_leak_sample :
    sampleCall.Plain ∧ Within sampleCall sampleIf ∧ sampleIf.Plain ∧
      match sampleIf.run with
      | .ok v s => s.heap.Plain ∧ v.Proper ∧ sampleIf.work.Gives v
      | .error _ s => s.heap.Plain := by
  have hplain : sampleCall.Plain := ⟨Heap.empty_plain, List.forall_mem_singleton.2 rfl⟩
  have hwithin : Within sampleCall sampleIf :=
    .tail (.tail (.tail (.single (.body (by decide) rfl rfl rfl)) (.inner .block)) (.inner .first))
      (.inner .expr)
  exact ⟨hplain, hwithin, signals_never_leak hplain hwithin⟩

end Primer
