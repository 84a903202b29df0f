/-
  Primer/Proofs/Eval/Translation.lean
  ===================================
  **Evaluation seen through a change of trees.**

  Values hold parts of trees: functions with their bodies, and literals with their entries.  A
  `Translation` replaces these parts by others and keeps what can be told apart without evaluating
  them: the labels, the names of parameters and the keys of entries.  It carries over to values,
  heaps and states, and every operation on a heap commutes with it.  A computation and its
  counterpart commute with a translation (`Commutes`) if from the translated state the counterpart
  gives the translated result and the translated state, and halts for the same cause; the rules
  below make such pairs from smaller ones.
-/
import Primer.Eval.Run
import Primer.Proofs.Heap.Changes
import Primer.Proofs.Tree.Spans

namespace Primer

/-- A replacement for the parts of trees that values hold. -/
structure Translation where
  span : Span → Span
  expr : Expr Label → Expr Label
  property : Property (Option (Expr Label)) → Property (Option (Expr Label))
  function : Function Label → Function Label
  /-- what becomes of the next label that is free -/
  next : Label → Label
  key_name : ∀ p, (property p).key.name = p.key.name
  property_expr : ∀ p, (property p).expr = expr p.expr
  label : ∀ fn, (function fn).label = fn.label
  params : ∀ fn, (function fn).params.map Ident.name = fn.params.map Ident.name

namespace Translation

variable (T : Translation)

def value : Value → Value
  | .returned v => .returned (value v)
  | .closure fn frame => .closure (T.function fn) frame
  | .object label properties => .object label (properties.map T.property)
  | .array label elements => .array label (elements.map T.expr)
  | v => v

def assigned (a : Assigned) : Assigned := ⟨T.span a.span, T.value a.value⟩

/-- An entry of an object that has been assigned to. -/
def record (p : Property Assigned) : Property Assigned :=
  ⟨T.span p.span, p.key.mapSpans T.span, T.assigned p.value⟩

def frame (fr : Frame) : Frame := ⟨fr.bindings.map (Prod.map id T.value), fr.parent⟩

def heap (h : Heap) : Heap where
  frames := h.frames.map T.frame
  properties := h.properties.map (Prod.map id (List.map T.record))
  slots := h.slots.map (Prod.map id (List.map (Option.map T.assigned)))
  nextLabel := T.next h.nextLabel

def entry : Entry → Entry
  | .written e => .written (T.expr e)
  | .assigned v => .assigned (T.value v)

def state (s : Eval.State) : Eval.State := ⟨T.heap s.heap, s.depth⟩

/-- The result of a computation whose values are translated by `φ`. -/
def result {α β : Type} (φ : α → β) :
    EStateM.Result Halt Eval.State α → EStateM.Result Halt Eval.State β
  | .ok a s => .ok (φ a) (T.state s)
  | .error halt s => .error halt (T.state s)

end Translation

/-! ### Values -/

theorem BinaryOp.apply_of_not_integers {op : BinaryOp} {v w : Value}
    (h : ¬∃ a b, v = .integer a ∧ w = .integer b) :
    op.apply v w = match op with
      | .eq => .ok (.boolean (v.equal w))
      | .ne => .ok (.boolean !v.equal w)
      | _ => .ok .null := by
  unfold BinaryOp.apply
  split
  next a b => exact absurd ⟨a, b, rfl, rfl⟩ h
  next => rfl

namespace Translation

variable (T : Translation) (v w : Value)

@[simp] theorem isTruthy_value : (T.value v).isTruthy = v.isTruthy := by
  cases v <;> rfl

@[simp] theorem isReturned_value : (T.value v).isReturned = v.isReturned := by
  cases v <;> rfl

@[simp] theorem unwrap_value : (T.value v).unwrap = T.value v.unwrap := by
  cases v <;> rfl

/-- Functions and literals are compared by their labels. -/
theorem equal_value : (T.value v).equal (T.value w) = v.equal w := by
  induction v generalizing w with
  | returned v ih =>
    cases w with
    | returned w => exact ih w
    | _ => rfl
  | closure fn frame =>
    cases w with
    | closure fn' frame' =>
      show ((T.function fn).label == (T.function fn').label && frame == frame') = _
      rw [T.label, T.label]
      rfl
    | _ => rfl
  | _ => cases w <;> rfl

theorem value_of_checked {a b r : Int} {op : BinaryOp} :
    (checked a op b r).map T.value = checked a op b r := by
  unfold checked
  split <;> rfl

theorem unaryOp_apply (op : UnaryOp) : op.apply (T.value v) = (op.apply v).map T.value := by
  cases op with
  | not =>
    show Except.ok _ = Except.ok _
    rw [isTruthy_value]
    rfl
  | neg =>
    cases v with
    | integer n => exact T.value_of_checked.symm
    | _ => rfl

theorem applyIntegers_value (op : BinaryOp) (a b : Int) :
    (op.applyIntegers a b).map T.value = op.applyIntegers a b := by
  cases op with
  | add | sub | mul => exact T.value_of_checked
  | div =>
    unfold BinaryOp.applyIntegers
    dsimp only
    split
    · rfl
    · exact T.value_of_checked
  | _ => rfl

theorem value_eq_integer {n : Int} : T.value v = .integer n ↔ v = .integer n := by
  cases v <;> simp [value]

theorem binaryOp_apply (op : BinaryOp) :
    op.apply (T.value v) (T.value w) = (op.apply v w).map T.value := by
  by_cases hint : ∃ a b, v = .integer a ∧ w = .integer b
  · obtain ⟨a, b, rfl, rfl⟩ := hint
    exact (T.applyIntegers_value op a b).symm
  · have hint' : ¬∃ a b, T.value v = .integer a ∧ T.value w = .integer b := by
      simpa only [value_eq_integer] using hint
    rw [BinaryOp.apply_of_not_integers hint, BinaryOp.apply_of_not_integers hint', equal_value]
    cases op <;> rfl

end Translation

/-! ### Tables and lists -/

namespace Table

variable {κ α β : Type} [DecidableEq κ] (φ : α → β)

theorem get?_map (k : κ) (t : Table κ α) :
    get? k (t.map (Prod.map id φ)) = (get? k t).map φ := by
  induction t with
  | nil => rfl
  | cons a t ih =>
    obtain ⟨j, a⟩ := a
    simp only [List.map_cons, Prod.map_apply, id_eq, get?]
    split
    · rfl
    · exact ih

theorem set_map (k : κ) (a : α) (t : Table κ α) :
    set k (φ a) (t.map (Prod.map id φ)) = (set k a t).map (Prod.map id φ) := by
  induction t with
  | nil => rfl
  | cons b t ih =>
    obtain ⟨j, b⟩ := b
    simp only [List.map_cons, Prod.map_apply, id_eq, set]
    split
    · rfl
    · rw [ih]
      rfl

end Table

namespace Translation

variable (T : Translation)

theorem put_record (ps : List (Property Assigned)) (p : Property Assigned) :
    Property.put (ps.map T.record) (T.record p) = (Property.put ps p).map T.record := by
  induction ps with
  | nil => rfl
  | cons q ps ih =>
    simp only [List.map_cons, Property.put]
    have hkey (r : Property Assigned) : (T.record r).key.name = r.key.name := rfl
    rw [hkey, hkey]
    split
    · rfl
    · rw [ih]
      rfl

theorem find?_record (ps : List (Property Assigned)) (key : String) :
    Property.find? (ps.map T.record) key = (Property.find? ps key).map T.record := by
  unfold Property.find?
  rw [List.find?_map]
  rfl

theorem find?_property (ps : List (Property (Option (Expr Label)))) (key : String) :
    Property.find? (ps.map T.property) key = (Property.find? ps key).map T.property := by
  unfold Property.find?
  have hkey : (fun q : Property (Option (Expr Label)) => decide (q.key.name = key)) ∘ T.property =
      fun q => decide (q.key.name = key) := by
    funext q
    rw [Function.comp_apply, T.key_name]
  rw [List.find?_map, hkey]

/-! ### Frames -/

variable (h : Heap) (f : FrameId) (name : String) (v : Value)

theorem frames_heap : (T.heap h).frames[f]? = h.frames[f]?.map T.frame := by
  unfold heap
  exact Array.getElem?_map

theorem parent?_heap : (T.heap h).parent? f = h.parent? f := by
  unfold Heap.parent?
  rw [frames_heap]
  cases h.frames[f]? <;> rfl

theorem own?_heap : (T.heap h).own? f name = (h.own? f name).map T.value := by
  unfold Heap.own? Heap.bindings
  rw [frames_heap, ← Table.get?_map]
  cases h.frames[f]? <;> rfl

theorem owns_heap : (T.heap h).owns f name = h.owns f name := by
  unfold Heap.owns
  rw [own?_heap, Option.isSome_map]

theorem chain_heap : (T.heap h).chain f = h.chain f := by
  induction f using Nat.strongRecOn with
  | ind f ih =>
    rw [Heap.chain, Heap.chain, parent?_heap]
    split
    next p _ =>
      split
      next hlt => rw [ih p hlt]
      next => rfl
    next => rfl

theorem owner?_heap : (T.heap h).owner? f name = h.owner? f name := by
  unfold Heap.owner?
  rw [chain_heap]
  simp only [owns_heap]

theorem bindIn_heap : (T.heap h).bindIn f name (T.value v) = T.heap (h.bindIn f name v) := by
  have hframes : (h.frames.map T.frame).modify f
      (fun fr => { fr with bindings := fr.bindings.set name (T.value v) }) =
      (h.frames.modify f fun fr => { fr with bindings := fr.bindings.set name v }).map T.frame := by
    apply Array.ext_getElem?
    intro i
    rw [Array.getElem?_modify, Array.getElem?_map, Array.getElem?_map, Array.getElem?_modify]
    split
    · cases h.frames[i]? with
      | none => rfl
      | some fr =>
        show some (Frame.mk _ _) = some (Frame.mk _ _)
        rw [← Table.set_map]
        rfl
    · rfl
  unfold Heap.bindIn heap
  dsimp only
  rw [hframes]

theorem newFrame_heap (parent : FrameId) :
    (T.heap h).newFrame parent = ((h.newFrame parent).1, T.heap (h.newFrame parent).2) := by
  unfold Heap.newFrame heap
  dsimp only
  rw [Array.size_map, Array.map_push]
  rfl

theorem declare_heap :
    (T.heap h).declare f name (T.value v) = (h.declare f name v).map T.heap := by
  unfold Heap.declare
  rw [owns_heap, bindIn_heap]
  split <;> rfl

theorem lookup_heap : (T.heap h).lookup f name = (h.lookup f name).map T.value := by
  unfold Heap.lookup
  rw [owner?_heap]
  cases h.owner? f name with
  | none => rfl
  | some g =>
    rw [Option.bind_some, Option.bind_some, own?_heap]
    cases h.own? g name <;> rfl

theorem assign_heap : (T.heap h).assign f name (T.value v) = (h.assign f name v).map T.heap := by
  unfold Heap.assign
  rw [owner?_heap]
  cases h.owner? f name with
  | none => rfl
  | some g =>
    dsimp only
    rw [bindIn_heap]
    rfl

/-! ### Entries of literals -/

variable (label : Label) (es : List (Expr Label)) (ps : List (Property (Option (Expr Label))))

theorem assignedProperties_heap :
    (T.heap h).assignedProperties label = (h.assignedProperties label).map T.record := by
  unfold Heap.assignedProperties heap
  rw [Table.get?_map]
  cases h.properties.get? label <;> rfl

theorem arraySlots_heap : (T.heap h).arraySlots label (es.map T.expr) =
    (h.arraySlots label es).map (Option.map T.assigned) := by
  unfold Heap.arraySlots heap
  rw [Table.get?_map, List.length_map]
  cases h.slots.get? label with
  | none =>
    rw [Option.map_none, Option.getD_none, List.map_replicate]
    rfl
  | some slots => rfl

theorem property?_heap (key : String) : (T.heap h).property? label (ps.map T.property) key =
    (h.property? label ps key).map T.entry := by
  unfold Heap.property?
  rw [assignedProperties_heap, find?_record, find?_property]
  cases Property.find? (h.assignedProperties label) key with
  | some p => rfl
  | none =>
    cases Property.find? ps key with
    | none => rfl
    | some p =>
      show some (Entry.written _) = some (Entry.written _)
      rw [T.property_expr]

theorem element?_heap (i : Nat) : (T.heap h).element? label (es.map T.expr) i =
    (h.element? label es i).map T.entry := by
  unfold Heap.element?
  rw [arraySlots_heap, List.getElem?_map, List.getElem?_map]
  match (h.arraySlots label es)[i]? with
  | none => rfl
  | some (some a) => rfl
  | some none => cases es[i]? <;> rfl

theorem read_heap (c k : Value) :
    (T.heap h).read (T.value c) (T.value k) = (h.read c k).map (Option.map T.entry) := by
  cases c with
  | object label ps =>
    cases k with
    | string key => exact congrArg Except.ok (T.property?_heap h label ps key)
    | _ => rfl
  | array label es =>
    cases k with
    | integer i =>
      show Except.ok _ = Except.ok _
      rw [element?_heap]
      split <;> rfl
    | _ => rfl
  | _ => rfl

theorem setProperty_heap (p : Property Assigned) :
    (T.heap h).setProperty label (T.record p) = T.heap (h.setProperty label p) := by
  unfold Heap.setProperty
  rw [assignedProperties_heap, put_record]
  unfold heap
  dsimp only
  rw [Table.set_map]

theorem setElement_heap (i : Nat) (a : Assigned) :
    (T.heap h).setElement label (es.map T.expr) i (T.assigned a) =
      T.heap (h.setElement label es i a) := by
  have hfill : (⟨(T.assigned a).span, .undefined⟩ : Assigned) = T.assigned ⟨a.span, .undefined⟩ :=
    rfl
  unfold Heap.setElement
  rw [arraySlots_heap, hfill, putSlot_map]
  unfold heap
  dsimp only
  rw [Table.set_map]

theorem write_heap (c k : Value) (a : Assigned) (span keySpan : Span) :
    (T.heap h).write (T.value c) (T.value k) (T.assigned a) (T.span span) (T.span keySpan) =
      (h.write c k a span keySpan).map T.heap := by
  cases c with
  | object label ps =>
    cases k with
    | string key => exact congrArg Except.ok (T.setProperty_heap h label ⟨span, ⟨keySpan, key⟩, a⟩)
    | _ => rfl
  | array label es =>
    cases k with
    | integer i =>
      show (if i < 0 then Except.error _ else if _ then Except.error _ else Except.ok _) = _
      rw [arraySlots_heap, List.length_map, setElement_heap]
      unfold Heap.write
      dsimp only
      split
      · rfl
      · split <;> rfl
    | _ => rfl
  | _ => rfl

end Translation

/-! ### Computations -/

variable {α α' β β' : Type}

/-- From the translated state `y` gives what `x` gives, translated, and halts as `x` does. -/
def Commutes (T : Translation) (φ : α → α') (x : Eval α) (y : Eval α') : Prop :=
  ∀ s, y (T.state s) = T.result φ (x s)

namespace Commutes

variable {T : Translation} {φ : α → α'} {ψ : β → β'} {x : Eval α} {y : Eval α'}
  {f : α → Eval β} {g : α' → Eval β'}

theorem pure (a : α) : Commutes T φ (pure a) (Pure.pure (φ a)) := by
  intro s
  rfl

theorem throw (halt : Halt) : Commutes T φ (throw halt : Eval α) (MonadExcept.throw halt) := by
  intro s
  rfl

theorem bind (hx : Commutes T φ x y) (hf : ∀ a, Commutes T ψ (f a) (g (φ a))) :
    Commutes T ψ (x >>= f) (y >>= g) := by
  intro s
  show EStateM.bind y g (T.state s) = T.result ψ (EStateM.bind x f s)
  unfold EStateM.bind
  rw [hx s]
  cases x s with
  | ok a t => exact hf a t
  | error halt t => rfl

theorem ite {c : Prop} [Decidable c] {x' : Eval α} {y' : Eval α'} (hx : Commutes T φ x y)
    (hy : Commutes T φ x' y') : Commutes T φ (if c then x else x') (if c then y else y') := by
  split
  · exact hx
  · exact hy

theorem ofExcept {r : Except RuntimeError α} {r' : Except RuntimeError α'} (h : r' = r.map φ) :
    Commutes T φ (Eval.ofExcept r) (Eval.ofExcept r') := by
  rw [h]
  cases r with
  | ok a => exact pure a
  | error cause => exact throw _

theorem look {l : Heap → Except RuntimeError α} {l' : Heap → Except RuntimeError α'}
    (h : ∀ heap, l' (T.heap heap) = (l heap).map φ) :
    Commutes T φ (Eval.look l) (Eval.look l') := by
  intro s
  unfold Eval.look
  have hs : l' (T.state s).heap = (l s.heap).map φ := h s.heap
  rw [hs]
  cases l s.heap <;> rfl

theorem change {l l' : Heap → Except RuntimeError Heap}
    (h : ∀ heap, l' (T.heap heap) = (l heap).map T.heap) :
    Commutes T id (Eval.change l) (Eval.change l') := by
  rintro ⟨heap, depth⟩
  unfold Eval.change Translation.state
  dsimp only
  rw [h heap]
  cases l heap <;> rfl

theorem declare (frame : FrameId) (name : String) (v : Value) :
    Commutes T T.value (Eval.declare frame name v) (Eval.declare frame name (T.value v)) := by
  apply bind (change fun heap => T.declare_heap heap frame name v)
  intro _
  exact pure v

theorem lookup (frame : FrameId) (name : String) :
    Commutes T T.value (Eval.lookup frame name) (Eval.lookup frame name) :=
  look fun heap => T.lookup_heap heap frame name

theorem assign (frame : FrameId) (name : String) (v : Value) :
    Commutes T T.value (Eval.assign frame name v) (Eval.assign frame name (T.value v)) := by
  apply bind (change fun heap => T.assign_heap heap frame name v)
  intro _
  exact pure v

theorem newFrame (parent : FrameId) :
    Commutes T id (Eval.newFrame parent) (Eval.newFrame parent) := by
  rintro ⟨heap, depth⟩
  unfold Eval.newFrame Translation.state
  dsimp only
  rw [T.newFrame_heap]
  rfl

theorem operand {x y : Eval Value} (h : Commutes T T.value x y) :
    Commutes T T.value (Eval.operand x) (Eval.operand y) := by
  apply bind h
  intro v
  rw [T.unwrap_value]
  exact pure v.unwrap

theorem calling (h : Commutes T φ x y) : Commutes T φ (Eval.calling x) (Eval.calling y) := by
  intro s
  unfold Eval.calling
  have hs := h { s with depth := s.depth + 1 }
  have hstate : T.state { s with depth := s.depth + 1 } =
      { T.state s with depth := (T.state s).depth + 1 } := rfl
  rw [← hstate, hs]
  cases x { s with depth := s.depth + 1 } <;> rfl

end Commutes

/-! ### Jumps -/

namespace Translation

variable (T : Translation)

/-- The second jump runs translated code as the first runs the code itself. -/
structure Jumps (jump jump' : Jump) : Prop where
  expr : ∀ frame e, Commutes T T.value (jump frame (.expr e)) (jump' frame (.expr (T.expr e)))
  body : ∀ frame fn, Commutes T T.value (jump frame (.block fn.body))
    (jump' frame (.block (T.function fn).body))

theorem headD_value (args : List Value) :
    (args.map T.value).headD .undefined = T.value (args.headD .undefined) := by
  cases args <;> rfl

/-- Parameters are declared by their names. -/
theorem bindParams_commutes (frame : FrameId) {xs ys : List Ident}
    (h : ys.map Ident.name = xs.map Ident.name) (args : List Value) :
    Commutes T id (Eval.bindParams frame xs args)
      (Eval.bindParams frame ys (args.map T.value)) := by
  induction xs generalizing ys args with
  | nil =>
    obtain rfl := List.map_eq_nil_iff.1 h
    exact .pure ()
  | cons x xs ih =>
    obtain ⟨y, ys, rfl, hname, hnames⟩ := List.map_eq_cons_iff.1 h
    rw [Eval.bindParams, Eval.bindParams, hname, headD_value, ← List.map_tail]
    apply Commutes.bind (.declare frame x.name _)
    intro _
    exact ih hnames args.tail

variable {T} {limit : Nat} {jump jump' : Jump}

theorem Jumps.apply (hj : T.Jumps jump jump') (callee : Value) (args : List Value) :
    Commutes T T.value (Eval.apply limit jump callee args)
      (Eval.apply limit jump' (T.value callee) (args.map T.value)) := by
  cases callee with
  | closure fn frame =>
    intro s
    show (if limit ≤ s.depth then _ else _ : Eval Value) (T.state s) =
      T.result T.value ((if limit ≤ s.depth then _ else _ : Eval Value) s)
    refine Commutes.ite (.throw _) ?_ s
    apply Commutes.bind (.newFrame frame)
    intro inner
    apply Commutes.bind (T.bindParams_commutes inner (T.params fn) args)
    intro _
    exact .operand (.calling (hj.body inner fn))
  | _ => exact .throw _

theorem Jumps.readEntry (hj : T.Jumps jump jump') (frame : FrameId) (container key : Value) :
    Commutes T T.value (Eval.readEntry jump frame container key)
      (Eval.readEntry jump' frame (T.value container) (T.value key)) := by
  apply Commutes.bind (.look fun heap => T.read_heap heap container key)
  intro r
  match r with
  | some (.written e) => exact .operand (hj.expr frame e)
  | some (.assigned v) =>
    show Commutes T T.value (pure v.unwrap) (pure (T.value v).unwrap)
    rw [T.unwrap_value]
    exact .pure v.unwrap
  | none => exact .pure Value.undefined

end Translation

end Primer
