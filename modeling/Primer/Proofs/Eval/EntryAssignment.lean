/-
  Primer/Proofs/Eval/EntryAssignment.lean
  =======================================
  **Assigning to an entry of a literal.**

  An assignment `name[key] = value` looks the name up, evaluates the key and then the value
  (`Assigning`), and only then writes.  The write is refused for one of five causes
  (`Heap.Refuses`), and then nothing has changed since the value was there; or it sets one entry of
  the literal that the name stood for at the beginning.  In the end that literal is assigned to the
  name again.  What the name stands for by then may be something else, since the key and the value
  can assign to it or declare it in a nearer frame: that is the one binding which an assignment to
  an entry can change.
-/
import Mathlib
import Primer.Proofs.Eval.Growth
import Primer.Proofs.Eval.Signals
import Primer.Proofs.Heap.Renaming
import Primer.Proofs.Heap.Resolution

namespace Primer

/-! ### What a write leaves to be read -/

theorem length_putSlot {β : Type} (slots : List (Option β)) (i : Nat) (fill x : β) :
    (putSlot slots i fill x).length = max slots.length (i + 1) := by
  unfold putSlot
  split
  next hi =>
    rw [List.length_set]
    omega
  next hi =>
    simp only [List.length_append, List.length_replicate, List.length_singleton]
    omega

theorem getElem?_putSlot {β : Type} (slots : List (Option β)) (i j : Nat) (fill x : β) :
    (putSlot slots i fill x)[j]? =
      if j = i then some (some x)
      else if slots.length ≤ j ∧ j < i then some (some fill)
      else slots[j]? := by
  unfold putSlot
  split
  next hi =>
    by_cases hj : j = i
    · rw [if_pos hj, hj, List.getElem?_set_self hi]
    · rw [if_neg hj, if_neg (by omega), List.getElem?_set_ne (Ne.symm hj)]
  next hi =>
    have hlength : (slots ++ List.replicate (i - slots.length) (some fill)).length = i := by
      rw [List.length_append, List.length_replicate]
      omega
    by_cases hj : j < i
    · rw [if_neg (Nat.ne_of_lt hj), List.getElem?_append_left (by omega)]
      by_cases hold : slots.length ≤ j
      · rw [if_pos ⟨hold, hj⟩, List.getElem?_append_right hold, List.getElem?_replicate,
          if_pos (by omega)]
      · rw [if_neg fun hand => hold hand.1, List.getElem?_append_left (by omega)]
    · rw [if_neg (fun hand : slots.length ≤ j ∧ j < i => hj hand.2),
        List.getElem?_append_right (by omega), hlength]
      by_cases heq : j = i
      · rw [if_pos heq, heq, Nat.sub_self, List.getElem?_cons_zero]
      · rw [if_neg heq, List.getElem?_eq_none (by simp; omega), List.getElem?_eq_none (by omega)]

namespace Heap

variable {h h' : Heap} {label : Label} {a : Assigned}

theorem property?_setProperty_self (p : Property Assigned)
    (written : List (Property (Option (Expr Label)))) :
    (h.setProperty label p).property? label written p.key.name =
      some (.assigned p.value.value) := by
  obtain ⟨q, hq, hvalue⟩ := Property.find?_put_self (h.assignedProperties label) p
  unfold property?
  rw [assignedProperties_setProperty, hq]
  show some (Entry.assigned q.value.value) = _
  rw [hvalue]

theorem property?_setProperty_of_ne (p : Property Assigned)
    (written : List (Property (Option (Expr Label)))) {key : String} (hne : key ≠ p.key.name) :
    (h.setProperty label p).property? label written key = h.property? label written key := by
  unfold property?
  rw [assignedProperties_setProperty, Property.find?_put_of_ne _ hne]

/-- A key that is there stays where it is, and a new one comes last. -/
theorem keys_setProperty (p : Property Assigned)
    (written : List (Property (Option (Expr Label)))) :
    Property.keys ((h.setProperty label p).objectCells label written) =
      if p.key.name ∈ Property.keys (h.objectCells label written)
      then Property.keys (h.objectCells label written)
      else Property.keys (h.objectCells label written) ++ [p.key.name] := by
  have hkeys {β : Type} (ps : List (Property β)) :
      Property.keys (Property.heads ps) = Property.keys ps := by
    simp [Property.keys, Property.heads, Property.map]
  have hheads : (h.setProperty label p).objectHeads label written =
      Property.put (h.objectHeads label written) (p.map fun _ => ()) :=
    (objectHeads_setProperty written p).trans (if_pos rfl)
  rw [← hkeys, ← hkeys (h.objectCells label written)]
  show Property.keys ((h.setProperty label p).objectHeads label written) =
    if p.key.name ∈ Property.keys (h.objectHeads label written)
    then Property.keys (h.objectHeads label written)
    else Property.keys (h.objectHeads label written) ++ [p.key.name]
  rw [hheads]
  split
  next hmem => rw [Property.put_of_mem hmem]
  next hmem =>
    rw [Property.put_of_not_mem hmem]
    simp [Property.keys, Property.map]

theorem element?_setElement_self (written ws : List (Expr Label)) (i : Nat) :
    (h.setElement label written i a).element? label ws i = some (.assigned a.value) := by
  unfold element?
  rw [arraySlots_setElement, if_pos rfl, getElem?_putSlot]
  simp only [if_pos]

theorem element?_setElement_of_ne (written : List (Expr Label)) {i j : Nat} (hne : j ≠ i) :
    (h.setElement label written i a).element? label written j =
      if (h.arraySlots label written).length ≤ j ∧ j < i then some (.assigned .undefined)
      else h.element? label written j := by
  unfold element?
  rw [arraySlots_setElement, if_pos rfl, getElem?_putSlot, if_neg hne]
  by_cases hgap : (h.arraySlots label written).length ≤ j ∧ j < i
  · simp only [if_pos hgap]
  · simp only [if_neg hgap]

/-- Why `container[key]` cannot be assigned to. -/
inductive Refuses (h : Heap) : Value → Value → RuntimeError → Prop where
  | objectKey {label written k} (hk : ∀ key, k ≠ .string key) :
    Refuses h (.object label written) k (.invalidObjectKey k.kindName)
  | arrayIndex {label written k} (hk : ∀ i, k ≠ .integer i) :
    Refuses h (.array label written) k (.invalidArrayIndex k.kindName)
  | negative {label written i} (hi : i < 0) :
    Refuses h (.array label written) (.integer i) (.negativeArrayIndex i)
  | tooFar {label written i} (hi : (h.arraySlots label written).length + maxPadding < i.toNat) :
    Refuses h (.array label written) (.integer i)
      (.arrayIndexOutOfBounds i (h.arraySlots label written).length)
  | container {c k} (hobject : ∀ label written, c ≠ .object label written)
      (harray : ∀ label written, c ≠ .array label written) :
    Refuses h c k (.notIndexable c.kindName)

theorem write_error {c k : Value} {span keySpan : Span} {cause : RuntimeError}
    (heq : h.write c k a span keySpan = .error cause) : h.Refuses c k cause := by
  unfold write at heq
  dsimp only at heq
  split at heq
  next => cases heq
  next hk =>
    cases heq
    exact .objectKey hk
  next =>
    split at heq
    next hi =>
      cases heq
      exact .negative hi
    next =>
      split at heq
      next hi =>
        cases heq
        exact .tooFar hi
      next => cases heq
  next hk =>
    cases heq
    exact .arrayIndex hk
  next hobject harray _ _ =>
    cases heq
    exact .container hobject harray

/-- A list with one entry set, and otherwise as it was: the first heap is the one before. -/
inductive Updated (h h' : Heap) : Value → Value → Prop where
  | object {label written key}
      (others : ∀ other, other ≠ key →
        h'.property? label written other = h.property? label written other)
      /- a key that is there stays where it is, and a new one comes last -/
      (keys : Property.keys (h'.objectCells label written) =
        if key ∈ Property.keys (h.objectCells label written)
        then Property.keys (h.objectCells label written)
        else Property.keys (h.objectCells label written) ++ [key]) :
    Updated h h' (.object label written) (.string key)
  | array {label written i} (nonneg : 0 ≤ i)
      (near : i.toNat ≤ (h.arraySlots label written).length + maxPadding)
      (length : (h'.arraySlots label written).length =
        max (h.arraySlots label written).length (i.toNat + 1))
      (gap : ∀ j, (h.arraySlots label written).length ≤ j → j < i.toNat →
        h'.element? label written j = some (.assigned .undefined))
      (others : ∀ j, j ≠ i.toNat → ¬((h.arraySlots label written).length ≤ j ∧ j < i.toNat) →
        h'.element? label written j = h.element? label written j) :
    Updated h h' (.array label written) (.integer i)

variable {c c' k : Value} {span keySpan : Span}

theorem updated_of_write (heq : h.write c k a span keySpan = .ok h') : h.Updated h' c k := by
  rcases write_ok heq with
    ⟨label, written, key, rfl, rfl, rfl⟩ | ⟨label, written, i, rfl, rfl, hi, hnear, rfl⟩
  · constructor
    · intro other hne
      exact property?_setProperty_of_ne _ written hne
    · exact keys_setProperty _ written
  · constructor
    · exact hi
    · exact hnear
    · rw [arraySlots_setElement, if_pos rfl, length_putSlot]
    · intro j hle hlt
      rw [element?_setElement_of_ne written (Nat.ne_of_lt hlt), if_pos ⟨hle, hlt⟩]
    · intro j hne hgap
      rw [element?_setElement_of_ne written hne, if_neg hgap]

/-- What was written is read, from whatever is the same container. -/
theorem read_of_write (heq : h.write c k a span keySpan = .ok h') (hsame : c'.equal c = true) :
    h'.read c' k = .ok (some (.assigned a.value)) := by
  rcases write_ok heq with
    ⟨label, written, key, rfl, rfl, rfl⟩ | ⟨label, written, i, rfl, rfl, hi, -, rfl⟩
  · cases c' with
    | object l ws =>
      obtain rfl : l = label := beq_iff_eq.1 hsame
      exact congrArg Except.ok (property?_setProperty_self ⟨span, ⟨keySpan, key⟩, a⟩ ws)
    | _ => cases hsame
  · cases c' with
    | array l ws =>
      obtain rfl : l = label := beq_iff_eq.1 hsame
      unfold read
      dsimp only
      rw [if_pos hi, element?_setElement_self]
    | _ => cases hsame

/-- A container is no signal. -/
theorem unwrap_of_write (heq : h.write c k a span keySpan = .ok h') (hsame : c'.equal c = true) :
    c'.unwrap = c' := by
  rcases write_ok heq with ⟨label, written, key, rfl, -, -⟩ | ⟨label, written, i, rfl, -, -, -, -⟩
  all_goals
    cases c' with
    | returned => cases hsame
    | _ => rfl

/-- A write makes no difference to frames. -/
theorem frames_of_write (heq : h.write c k a span keySpan = .ok h') : h'.frames = h.frames := by
  rcases write_ok heq with ⟨label, written, key, -, -, rfl⟩ | ⟨label, written, i, -, -, -, -, rfl⟩
  · rfl
  · rfl

theorem own?_of_write (heq : h.write c k a span keySpan = .ok h') (f : FrameId) (x : String) :
    h'.own? f x = h.own? f x := by
  unfold own? bindings
  rw [frames_of_write heq]

theorem owns_of_write (heq : h.write c k a span keySpan = .ok h') (f : FrameId) (x : String) :
    h'.owns f x = h.owns f x := by
  unfold owns
  rw [own?_of_write heq]

theorem owner?_of_write (heq : h.write c k a span keySpan = .ok h') (f : FrameId) (x : String) :
    h'.owner? f x = h.owner? f x := by
  refine owner?_congr (fun g => ?_) fun g => owns_of_write heq g x
  unfold parent?
  rw [frames_of_write heq]

/-- A variable makes no difference to lists. -/
theorem Updated.bindIn {g : FrameId} {x : String} {v : Value} (hu : h.Updated h' c k) :
    h.Updated (h'.bindIn g x v) c k := by
  cases hu with
  | object others keys => exact .object others keys
  | array nonneg near length gap others => exact .array nonneg near length gap others

/-! ### A name that was found is found later -/

variable {f g : FrameId} {x : String}

theorem owns_of_owner (hown : h.owner? f x = some g) : h.owns g x = true :=
  List.find?_some (p := fun g => h.owns g x) hown

theorem lt_size_of_owner (hown : h.owner? f x = some g) : f < h.frames.size := by
  have hg := lt_size_of_owns (owns_of_owner hown)
  refine Nat.lt_of_not_le fun hf => ?_
  have hchain : h.chain f = [f] := by
    have hparent : h.parent? f = none := by
      unfold parent?
      rw [Array.getElem?_eq_none hf, Option.bind_none]
    rw [chain, hparent]
  have hmem := List.mem_of_find?_eq_some hown
  rw [hchain, List.mem_singleton] at hmem
  rw [hmem] at hg
  exact Nat.not_lt.2 hf hg

/-- Frames stay where they are and keep their names, so there is still an owner, and maybe a nearer
one. -/
theorem Grows.exists_owner (hgrows : h.Grows h') (hown : h.owner? f x = some g) :
    ∃ g', h'.owner? f x = some g' := by
  have hf := lt_size_of_owner hown
  have hchain : h'.chain f = h.chain f :=
    chain_congr fun k hk => hgrows.parent k (Nat.lt_of_le_of_lt hk hf)
  rw [← Option.isSome_iff_exists]
  unfold owner?
  rw [hchain, List.find?_isSome]
  exact ⟨g, List.mem_of_find?_eq_some hown, hgrows.owns g x (owns_of_owner hown)⟩

theorem exists_owner_of_lookup {v : Value} (heq : h.lookup f x = .ok v) :
    ∃ g, h.owner? f x = some g ∧ h.own? g x = some v := by
  unfold lookup at heq
  split at heq
  next w hw =>
    cases heq
    exact Option.bind_eq_some_iff.1 hw
  next => cases heq

/-! ### The container, assigned to its name again -/

section Restored

variable (hwrite : h.write c k a span keySpan = .ok h') (howner : h.owner? f x = some g)
include hwrite howner

theorem own?_restored (f' : FrameId) (y : String) :
    (h'.bindIn g x c).own? f' y = if f' = g ∧ y = x then some c else h.own? f' y := by
  have hg : h'.owns g x = true := (owns_of_write hwrite g x).trans (owns_of_owner howner)
  rw [own?_bindIn (lt_size_of_owns hg), own?_of_write hwrite]

theorem lookup_restored : (h'.bindIn g x c).lookup f x = .ok c := by
  have hg : h'.owns g x = true := (owns_of_write hwrite g x).trans (owns_of_owner howner)
  refine lookup_of_owner (g := g) ?_ ?_
  · rw [owner?_bindIn_of_owns hg, owner?_of_write hwrite, howner]
  · rw [own?_restored hwrite howner, if_pos ⟨rfl, rfl⟩]

end Restored

end Heap

/-! ### The run of an assignment -/

/-- The beginning of `name[key] = value`: the name stands for `c`, and then the key has the value
`k` and the value is `v`, which leads to the state `u`. -/
structure Assigning (bounds : Bounds) (frame : FrameId) (name : String) (key value : Expr Label)
    (s : Eval.State) (c k v : Value) (u : Eval.State) : Prop where
  container : s.heap.lookup frame name = .ok c
  operands : ∃ t, Eval.operand ((Work.expr key).run bounds frame) s = .ok k t ∧
    Eval.operand ((Work.expr value).run bounds frame) t = .ok v u

variable {bounds : Bounds} {frame : FrameId} {span span' span'' : Span} {name : String}
  {key value e : Expr Label} {s s' t u : Eval.State} {c k v : Value}

theorem grows_of_operand (hx : Eval.operand ((Work.expr e).run bounds frame) s = .ok v u) :
    s.heap.Grows u.heap := by
  obtain ⟨w, hw, -⟩ := Eval.operand_ok hx
  have hgrows := (growsWithin_history.task ⟨bounds, frame, .expr e, s⟩).grows
  rw [Task.after, Eval.after_ok hw] at hgrows
  exact hgrows

theorem keeps_operand : Keeps (Eval.operand ((Work.expr e).run bounds frame)) Value.Plain :=
  (eval_keeps (jump_keeps bounds.calls bounds.fuel) frame e).used

/-- A plain value has no signal to be taken off. -/
theorem Value.Plain.unwrap (hv : v.Plain) : v.unwrap = v := by
  cases v with
  | returned => cases hv
  | _ => rfl

namespace Assigning

theorem grows (ha : Assigning bounds frame name key value s c k v u) : s.heap.Grows u.heap := by
  obtain ⟨t, hkey, hvalue⟩ := ha.operands
  exact (grows_of_operand hkey).trans (grows_of_operand hvalue)

theorem plain (ha : Assigning bounds frame name key value s c k v u) (hs : s.heap.Plain) :
    v.Plain := by
  obtain ⟨t, hkey, hvalue⟩ := ha.operands
  exact (keeps_operand.ok (keeps_operand.ok hs hkey).1 hvalue).2

/-- What is left to do is to write the entry, and to assign the container to the name again. -/
theorem run_eq (ha : Assigning bounds frame name key value s c k v u) :
    (Work.expr (.assign span (.index span' (.ident span'' name) key) value)).run bounds frame s =
      (do
        Eval.change (·.write c k ⟨value.span, v⟩ span' key.span)
        let _ ← Eval.assign frame name c
        return v : Eval Value) u := by
  obtain ⟨t, hkey, hvalue⟩ := ha.operands
  have hname : Eval.lookup frame name s = .ok c s := Eval.look_of_ok ha.container
  unfold Work.run at hkey hvalue ⊢
  dsimp only at hkey hvalue ⊢
  rw [Expr.eval, Eval.bind_of_ok hname, Eval.bind_of_ok hkey, Eval.bind_of_ok hvalue]

/-- The write fails, and so does the assignment; or it succeeds, and then the name still has an
owner to which the container can be assigned. -/
theorem run (ha : Assigning bounds frame name key value s c k v u) (span span' span'' : Span) :
    (∃ cause, u.heap.write c k ⟨value.span, v⟩ span' key.span = .error cause ∧
      (Work.expr (.assign span (.index span' (.ident span'' name) key) value)).run bounds frame s =
        .error (.error cause) u) ∨
    ∃ heap g, u.heap.write c k ⟨value.span, v⟩ span' key.span = .ok heap ∧
      u.heap.owner? frame name = some g ∧
      (Work.expr (.assign span (.index span' (.ident span'' name) key) value)).run bounds frame s =
        .ok v { u with heap := heap.bindIn g name c } := by
  rw [ha.run_eq]
  cases hwrite : u.heap.write c k ⟨value.span, v⟩ span' key.span with
  | error cause =>
    exact .inl ⟨cause, rfl, Eval.bind_of_error (Eval.change_of_error hwrite)⟩
  | ok heap =>
    -- frames lose no names, so a name that was found at the beginning is found again, though
    -- perhaps in a nearer frame
    obtain ⟨g₀, hg₀, -⟩ := Heap.exists_owner_of_lookup ha.container
    obtain ⟨g, hg⟩ := ha.grows.exists_owner hg₀
    have hassign : heap.assign frame name c = .ok (heap.bindIn g name c) := by
      unfold Heap.assign
      rw [Heap.owner?_of_write hwrite, hg]
    refine .inr ⟨heap, g, rfl, hg, ?_⟩
    rw [Eval.bind_of_ok (Eval.change_of_ok hwrite)]
    exact Eval.bind_of_ok (Eval.change_pure_of_ok (s := { u with heap }) hassign)

end Assigning

theorem Eval.lookup_ok (hx : Eval.lookup frame name s = .ok c t) :
    s.heap.lookup frame name = .ok c ∧ t = s := by
  unfold Eval.lookup Eval.look at hx
  split at hx
  next hc =>
    cases hx
    exact ⟨hc, rfl⟩
  next => cases hx

/-- An assignment that succeeds has got as far as the write, which succeeds, and assigns the
container to the name again. -/
theorem exists_assigning
    (hrun : (Work.expr (.assign span (.index span' (.ident span'' name) key) value)).run bounds
      frame s = .ok v s') :
    ∃ c k u heap g, Assigning bounds frame name key value s c k v u ∧
      u.heap.write c k ⟨value.span, v⟩ span' key.span = .ok heap ∧
      u.heap.owner? frame name = some g ∧ s' = { u with heap := heap.bindIn g name c } := by
  have heval : Expr.eval bounds.calls (jump bounds.calls bounds.fuel) frame
    (.assign span (.index span' (.ident span'' name) key) value) s = .ok v s' := hrun
  rw [Expr.eval] at heval
  obtain ⟨c, s₁, hlookup, heval⟩ := Eval.bind_ok heval
  obtain ⟨k, t, hkey, heval⟩ := Eval.bind_ok heval
  obtain ⟨w, u, hvalue, heval⟩ := Eval.bind_ok heval
  obtain ⟨-, u₁, -, heval⟩ := Eval.bind_ok heval
  obtain ⟨-, u₂, -, hpure⟩ := Eval.bind_ok heval
  cases hpure
  obtain ⟨hc, rfl⟩ := Eval.lookup_ok hlookup
  have ha : Assigning bounds frame name key value s₁ c k v u := ⟨hc, t, hkey, hvalue⟩
  rcases ha.run span span' span'' with
    ⟨cause, -, hfail⟩ | ⟨heap, g, hwrite, howner, hok⟩
  · rw [hrun] at hfail
    cases hfail
  · rw [hrun] at hok
    cases hok
    exact ⟨c, k, u, heap, g, ha, hwrite, howner, rfl⟩

/-- The value of `y[key]`, where the entry has been assigned. -/
theorem run_index_of_assigned {y : String} (hlookup : s.heap.lookup frame y = .ok c)
    (hunwrap : c.unwrap = c) (hkey : Eval.operand ((Work.expr key).run bounds frame) s = .ok k s)
    (hread : s.heap.read c k = .ok (some (.assigned v))) :
    (Work.expr (.index span (.ident span' y) key)).run bounds frame s = .ok v.unwrap s := by
  have hname : Eval.operand (Expr.eval bounds.calls (jump bounds.calls bounds.fuel) frame
      (.ident span' y)) s = .ok c s := by
    have heval : Eval.lookup frame y s = .ok c s := Eval.look_of_ok hlookup
    rw [Expr.eval, Eval.operand_of_ok heval, hunwrap]
  unfold Work.run at hkey ⊢
  dsimp only at hkey ⊢
  rw [Expr.eval, Eval.bind_of_ok hname, Eval.bind_of_ok hkey]
  unfold Eval.readEntry
  rw [Eval.bind_of_ok (Eval.look_of_ok hread)]
  rfl

/-! ### What an assignment to an entry does -/

/-- **Writing an entry and reading it.**  Let `name[key] = value` be evaluated on a heap without
signals.

If it succeeds with `v`, then the name stood for a container `c` when it began, and the key and the
value have the values `k` and `v` in the state `u` that they lead to.  In the end the name stands
for `c`, and so does whatever stood for `c` in `u`.  Reading `k` from the same container, through any
name and from any frame, gives `v` and changes nothing.  In an object, the other keys are found as
they were found in `u`, and the keys are those that were there, in their order, with the new one
behind them if it is new.  In an array, the index is not negative and at most the largest padding
past the end; the length grows to hold the index if it must, what comes in between is `undefined`,
and the other elements are as they were in `u`.

When a container, a key and a value are there, nothing but the write can fail: the assignment
succeeds, or it fails for one of the causes for which a container refuses a key, and then the state
is `u`, without any change. -/
theorem read_after_entry_assignment (hplain : s.heap.Plain) :
    (∀ v s', (Work.expr (.assign span (.index span' (.ident span'' name) key) value)).run bounds
        frame s = .ok v s' →
      ∃ c k u, Assigning bounds frame name key value s c k v u ∧
        s'.heap.lookup frame name = .ok c ∧
        (∀ f y, u.heap.own? f y = some c → s'.heap.own? f y = some c) ∧
        (∀ bounds' f y c' key' p q, s'.heap.lookup f y = .ok c' → c'.equal c = true →
          Eval.operand ((Work.expr key').run bounds' f) s' = .ok k s' →
          (Work.expr (.index p (.ident q y) key')).run bounds' f s' = .ok v s') ∧
        u.heap.Updated s'.heap c k) ∧
    ∀ c k v u, Assigning bounds frame name key value s c k v u →
      (∃ s', (Work.expr (.assign span (.index span' (.ident span'' name) key) value)).run bounds
        frame s = .ok v s') ∨
      ∃ cause, u.heap.Refuses c k cause ∧
        (Work.expr (.assign span (.index span' (.ident span'' name) key) value)).run bounds
          frame s = .error (.error cause) u := by
  constructor
  · intro v s' hrun
    obtain ⟨c, k, u, heap, g, ha, hwrite, howner, rfl⟩ := exists_assigning hrun
    refine ⟨c, k, u, ha, Heap.lookup_restored hwrite howner, ?_, ?_, ?_⟩
    · intro f y hc
      rw [Heap.own?_restored hwrite howner, hc, ite_self]
    · intro bounds' f y c' key' p q hlookup hsame hkey
      have hread : (heap.bindIn g name c).read c' k = .ok (some (.assigned v)) :=
        Heap.read_of_write hwrite hsame
      rw [run_index_of_assigned hlookup (Heap.unwrap_of_write hwrite hsame) hkey hread,
        (ha.plain hplain).unwrap]
    · exact (Heap.updated_of_write hwrite).bindIn
  · intro c k v u ha
    rcases ha.run span span' span'' with
      ⟨cause, hwrite, hfail⟩ | ⟨heap, g, -, -, hok⟩
    · exact .inr ⟨cause, Heap.write_error hwrite, hfail⟩
    · exact .inl ⟨_, hok⟩

/-- A state in which `x` is the array `[1]`. -/
def arrayState : Eval.State := ⟨⟨#[⟨[("x", .array 0 [.int .zero 1])], none⟩], [], [], 1⟩, 0⟩

theorem arrayState_plain : arrayState.heap.Plain where
  frames f b hb := by
    cases f with
    | zero =>
      obtain rfl := List.mem_singleton.1 hb
      rfl
    | succ f => exact absurd hb List.not_mem_nil
  properties _ := nofun
  elements label written a ha := absurd (List.eq_of_mem_replicate ha) nofun

/-- `x[3] = x[0] = 5` assigns to two entries, and `x[3]` can be read. -/
theorem read_after_entry_assignment_nested :
    arrayState.heap.Plain ∧
    ∃ s', (Work.expr (.assign .zero (.index .zero (.ident .zero "x") (.int .zero 3))
        (.assign .zero (.index .zero (.ident .zero "x") (.int .zero 0)) (.int .zero 5)))).run ⟨0, 0⟩
        Heap.root arrayState = .ok (.integer 5) s' ∧
      (Work.expr (.index .zero (.ident .zero "x") (.int .zero 3))).run ⟨0, 0⟩ Heap.root s' =
        .ok (.integer 5) s' := by
  -- the second and third element are filled in
  let s' : Eval.State := ⟨⟨#[⟨[("x", .array 0 [.int .zero 1])], none⟩], [],
    [(0, [some ⟨.zero, .integer 5⟩, some ⟨.zero, .undefined⟩, some ⟨.zero, .undefined⟩,
      some ⟨.zero, .integer 5⟩])], 1⟩, 0⟩
  obtain ⟨hok, -⟩ := read_after_entry_assignment arrayState_plain
  have hrun : (Work.expr (.assign .zero (.index .zero (.ident .zero "x") (.int .zero 3))
      (.assign .zero (.index .zero (.ident .zero "x") (.int .zero 0)) (.int .zero 5)))).run ⟨0, 0⟩
      Heap.root arrayState = .ok (.integer 5) s' := by
    cbv
  obtain ⟨c, k, u, ha, hlookup, -, hread, -⟩ := hok (.integer 5) s' hrun
  obtain ⟨t, hkey, -⟩ := ha.operands
  cases hkey
  have hc : s'.heap.lookup Heap.root "x" = .ok (.array 0 [.int .zero 1]) := by
    cbv
  rw [hc] at hlookup
  cases hlookup
  exact ⟨arrayState_plain, s', hrun, hread ⟨0, 0⟩ Heap.root "x" _ _ .zero .zero hc rfl rfl⟩

/-- **The one binding that an assignment to an entry can change.**  Let `name[key] = value` succeed:
the name stood for `c` when it began, and the key and the value lead to the state `u`.  In the end
every variable of every frame has the value that it has in `u`, but for the one that the name stands
for in `u`, which has the value `c`.  So no variable has changed since `u` if and only if the name
still stands for `c` in `u`. -/
theorem bindings_after_entry_assignment
    (hrun : (Work.expr (.assign span (.index span' (.ident span'' name) key) value)).run bounds
      frame s = .ok v s') :
    ∃ c k u g, Assigning bounds frame name key value s c k v u ∧
      u.heap.owner? frame name = some g ∧
      (∀ f y, s'.heap.own? f y = if f = g ∧ y = name then some c else u.heap.own? f y) ∧
      ((∀ f y, s'.heap.own? f y = u.heap.own? f y) ↔ u.heap.lookup frame name = .ok c) := by
  obtain ⟨c, k, u, heap, g, ha, hwrite, howner, rfl⟩ := exists_assigning hrun
  have hown := Heap.own?_restored hwrite howner
  refine ⟨c, k, u, g, ha, howner, hown, ?_⟩
  constructor
  · intro hsame
    refine Heap.lookup_of_owner howner ?_
    rw [← hsame, hown, if_pos ⟨rfl, rfl⟩]
  · intro hlookup f y
    obtain ⟨g', howner', hvalue⟩ := Heap.exists_owner_of_lookup hlookup
    obtain rfl : g = g' := Option.some.inj (howner.symm.trans howner')
    rw [hown]
    split
    next heq => rw [heq.1, heq.2, hvalue]
    next => rfl

/-- `x[0] = x = 5` leaves the array in `x`, and not what `x` was assigned on the way. -/
theorem bindings_after_entry_assignment_overwritten :
    ∃ s', (Work.expr (.assign .zero (.index .zero (.ident .zero "x") (.int .zero 0))
        (.assign .zero (.ident .zero "x") (.int .zero 5)))).run ⟨0, 0⟩ Heap.root arrayState =
        .ok (.integer 5) s' ∧
      ∃ g, s'.heap.own? g "x" = some (.array 0 [.int .zero 1]) := by
  let s' : Eval.State := ⟨⟨#[⟨[("x", .array 0 [.int .zero 1])], none⟩], [],
    [(0, [some ⟨.zero, .integer 5⟩])], 1⟩, 0⟩
  have hrun : (Work.expr (.assign .zero (.index .zero (.ident .zero "x") (.int .zero 0))
      (.assign .zero (.ident .zero "x") (.int .zero 5)))).run ⟨0, 0⟩ Heap.root arrayState =
      .ok (.integer 5) s' := by
    cbv
  obtain ⟨c, k, u, g, ha, -, hown, -⟩ := bindings_after_entry_assignment hrun
  have hc : arrayState.heap.lookup Heap.root "x" = .ok (.array 0 [.int .zero 1]) := by
    cbv
  obtain rfl : _ = c := Except.ok.inj (hc.symm.trans ha.container)
  exact ⟨s', hrun, g, (hown g "x").trans (if_pos ⟨rfl, rfl⟩)⟩

/-- An assignment to an entry can undo what its own value did to the name: `x[0] = x = 5`. -/
theorem entry_assignment_changes_bindings :
    ¬∀ (bounds : Bounds) (frame : FrameId) (span span' span'' : Span) (name : String)
      (key value : Expr Label) (s s' : Eval.State) (c k v : Value) (u : Eval.State),
      Assigning bounds frame name key value s c k v u →
      (Work.expr (.assign span (.index span' (.ident span'' name) key) value)).run bounds frame s =
        .ok v s' →
      ∀ f y, s'.heap.own? f y = u.heap.own? f y := by
  intro hclaim
  let u : Eval.State := ⟨⟨#[⟨[("x", .integer 5)], none⟩], [], [], 1⟩, 0⟩
  let s' : Eval.State := ⟨⟨#[⟨[("x", .array 0 [.int .zero 1])], none⟩], [],
    [(0, [some ⟨.zero, .integer 5⟩])], 1⟩, 0⟩
  have ha : Assigning ⟨0, 0⟩ Heap.root "x" (.int .zero 0)
      (.assign .zero (.ident .zero "x") (.int .zero 5)) arrayState (.array 0 [.int .zero 1])
      (.integer 0) (.integer 5) u := by
    refine ⟨?_, arrayState, rfl, ?_⟩
    · cbv
    · cbv
  have hrun : (Work.expr (.assign .zero (.index .zero (.ident .zero "x") (.int .zero 0))
      (.assign .zero (.ident .zero "x") (.int .zero 5)))).run ⟨0, 0⟩ Heap.root arrayState =
      .ok (.integer 5) s' := by
    cbv
  have hsame :=
    hclaim ⟨0, 0⟩ Heap.root .zero .zero .zero "x" _ _ arrayState s' _ _ _ u ha hrun 0 "x"
  cases hsame

end Primer
