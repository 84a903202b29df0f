/-
  Primer/Proofs/Eval/Shorthand.lean
  =================================
  **A key alone in an object stands for `key: key`.**

  `spellOut` writes, in a whole tree, every entry `k` of an object literal as `k: k`.  The entries of
  an object are not evaluated where the object is made; they are kept as they were written, and are
  evaluated again and again in whatever frame reads them, unless something was assigned to them in
  the meantime.  So the two runs have different objects all along.

  Spelling out goes node by node, and an entry stands for the same expression before and after it, so
  evaluation commutes with it.  To spell out twice is to spell out once, hence the runs end alike
  (`evaluate_spellOut`): objects that correspond have the same keys in the same order, and where
  their entries are not the same, one is a key alone and the other is the name
  (`Property.Alike`).  Spelling out makes no literal and no function, so a program may get its labels
  before it or after it (`load_spellOut`).
-/
import Primer.Proofs.Eval.Nodewise
import Primer.Proofs.Heap.Entries

namespace Primer

variable {ι : Type}

/-! ### Spelling out -/

mutual

/-- The expression with `k: k` for every entry `k` of an object in it. -/
def Expr.spellOut : Expr ι → Expr ι
  | .ident span name => .ident span name
  | .str span text => .str span text
  | .int span value => .int span value
  | .bool span value => .bool span value
  | .unary span op operand => .unary span op operand.spellOut
  | .binary span op left right => .binary span op left.spellOut right.spellOut
  | .cond span condition consequence none =>
    .cond span condition.spellOut consequence.spellOut none
  | .cond span condition consequence (some alternative) =>
    .cond span condition.spellOut consequence.spellOut (some alternative.spellOut)
  | .function span fn => .function span fn.spellOut
  | .call span callee args => .call span callee.spellOut (spellOutExprs args)
  | .index span container key => .index span container.spellOut key.spellOut
  | .assign span target value => .assign span target.spellOut value.spellOut
  | .object span label properties => .object span label (spellOutProperties properties)
  | .array span label elements => .array span label (spellOutExprs elements)

def Stmt.spellOut : Stmt ι → Stmt ι
  | .declare span isConst name none => .declare span isConst name none
  | .declare span isConst name (some value) => .declare span isConst name (some value.spellOut)
  | .function span name fn => .function span name fn.spellOut
  | .ret span value => .ret span value.spellOut
  | .expr span value => .expr span value.spellOut

def Block.spellOut : Block ι → Block ι
  | ⟨span, statements⟩ => ⟨span, spellOutStmts statements⟩

def Function.spellOut : Function ι → Function ι
  | ⟨span, label, name, params, body⟩ => ⟨span, label, name, params, body.spellOut⟩

def spellOutExprs : List (Expr ι) → List (Expr ι)
  | [] => []
  | e :: es => e.spellOut :: spellOutExprs es

def spellOutStmts : List (Stmt ι) → List (Stmt ι)
  | [] => []
  | x :: xs => x.spellOut :: spellOutStmts xs

/-- A key alone gets the name of the key for its value, with the span of the key. -/
def spellOutProperties : List (Property (Option (Expr ι))) → List (Property (Option (Expr ι)))
  | [] => []
  | ⟨span, key, none⟩ :: ps =>
    ⟨span, key, some (.ident key.span key.name)⟩ :: spellOutProperties ps
  | ⟨span, key, some value⟩ :: ps => ⟨span, key, some value.spellOut⟩ :: spellOutProperties ps

end

/-- The program with `k: k` for every entry `k` of an object in it. -/
def Program.spellOut (p : Program ι) : Program ι := ⟨p.span, spellOutStmts p.statements⟩

def Property.spellOut (p : Property (Option (Expr ι))) : Property (Option (Expr ι)) :=
  ⟨p.span, p.key, some p.expr.spellOut⟩

theorem spellOutExprs_eq_map (es : List (Expr ι)) : spellOutExprs es = es.map Expr.spellOut := by
  induction es with
  | nil => rw [spellOutExprs, List.map_nil]
  | cons e es ih => rw [spellOutExprs, List.map_cons, ih]

theorem Expr.spellOut_ident (span : Span) (name : String) :
    (Expr.ident span name : Expr ι).spellOut = .ident span name := by
  rw [Expr.spellOut]

theorem spellOutProperties_eq_map (ps : List (Property (Option (Expr ι)))) :
    spellOutProperties ps = ps.map Property.spellOut := by
  induction ps with
  | nil => rw [spellOutProperties, List.map_nil]
  | cons p ps ih =>
    obtain ⟨span, key, value⟩ := p
    cases value with
    | none =>
      rw [spellOutProperties, List.map_cons, ih, ← Expr.spellOut_ident]
      rfl
    | some e =>
      rw [spellOutProperties, List.map_cons, ih]
      rfl

theorem Expr.spellOut_cond (span : Span) (c : Expr ι) (b : Block ι) (a : Option (Block ι)) :
    (Expr.cond span c b a).spellOut =
      .cond span c.spellOut b.spellOut (a.map Block.spellOut) := by
  cases a with
  | none => rw [Expr.spellOut, Option.map_none]
  | some a => rw [Expr.spellOut, Option.map_some]

/-- `function() { return { k } }` as an element of an array. -/
example (z : Span) (k : Ident) :
    (Expr.array z () [.function z ⟨z, (), none, [], ⟨z, [.ret z (.object z () [⟨z, k, none⟩])]⟩⟩] :
        Expr Unit).spellOut =
      .array z () [.function z ⟨z, (), none, [],
        ⟨z, [.ret z (.object z () [⟨z, k, some (.ident k.span k.name)⟩])]⟩⟩] := by
  rfl

/-! ### To spell out twice is to spell out once -/

mutual

theorem Expr.spellOut_spellOut (e : Expr ι) : e.spellOut.spellOut = e.spellOut := by
  cases e with
  | ident | str | int | bool => rw [Expr.spellOut, Expr.spellOut]
  | unary _ _ e => rw [Expr.spellOut, Expr.spellOut, e.spellOut_spellOut]
  | binary _ _ left right =>
    rw [Expr.spellOut, Expr.spellOut, left.spellOut_spellOut, right.spellOut_spellOut]
  | cond _ c b a =>
    cases a with
    | none => rw [Expr.spellOut, Expr.spellOut, c.spellOut_spellOut, b.spellOut_spellOut]
    | some a =>
      rw [Expr.spellOut, Expr.spellOut, c.spellOut_spellOut, b.spellOut_spellOut,
        a.spellOut_spellOut]
  | function _ fn => rw [Expr.spellOut, Expr.spellOut, fn.spellOut_spellOut]
  | call _ callee args =>
    rw [Expr.spellOut, Expr.spellOut, callee.spellOut_spellOut, spellOutExprs_spellOut args]
  | index _ container key =>
    rw [Expr.spellOut, Expr.spellOut, container.spellOut_spellOut, key.spellOut_spellOut]
  | assign _ target value =>
    rw [Expr.spellOut, Expr.spellOut, target.spellOut_spellOut, value.spellOut_spellOut]
  | object _ _ ps => rw [Expr.spellOut, Expr.spellOut, spellOutProperties_spellOut ps]
  | array _ _ es => rw [Expr.spellOut, Expr.spellOut, spellOutExprs_spellOut es]

theorem Stmt.spellOut_spellOut (x : Stmt ι) : x.spellOut.spellOut = x.spellOut := by
  cases x with
  | declare _ _ _ value =>
    cases value with
    | none => rw [Stmt.spellOut, Stmt.spellOut]
    | some e => rw [Stmt.spellOut, Stmt.spellOut, e.spellOut_spellOut]
  | function _ _ fn => rw [Stmt.spellOut, Stmt.spellOut, fn.spellOut_spellOut]
  | ret _ e => rw [Stmt.spellOut, Stmt.spellOut, e.spellOut_spellOut]
  | expr _ e => rw [Stmt.spellOut, Stmt.spellOut, e.spellOut_spellOut]

theorem Block.spellOut_spellOut (b : Block ι) : b.spellOut.spellOut = b.spellOut := by
  cases b with
  | mk _ xs => rw [Block.spellOut, Block.spellOut, spellOutStmts_spellOut xs]

theorem Function.spellOut_spellOut (fn : Function ι) : fn.spellOut.spellOut = fn.spellOut := by
  cases fn with
  | mk _ _ _ _ body => rw [Function.spellOut, Function.spellOut, body.spellOut_spellOut]

theorem spellOutExprs_spellOut (es : List (Expr ι)) :
    spellOutExprs (spellOutExprs es) = spellOutExprs es := by
  cases es with
  | nil => rw [spellOutExprs, spellOutExprs]
  | cons e es =>
    rw [spellOutExprs, spellOutExprs, e.spellOut_spellOut, spellOutExprs_spellOut es]

theorem spellOutStmts_spellOut (xs : List (Stmt ι)) :
    spellOutStmts (spellOutStmts xs) = spellOutStmts xs := by
  cases xs with
  | nil => rw [spellOutStmts, spellOutStmts]
  | cons x xs =>
    rw [spellOutStmts, spellOutStmts, x.spellOut_spellOut, spellOutStmts_spellOut xs]

theorem spellOutProperties_spellOut (ps : List (Property (Option (Expr ι)))) :
    spellOutProperties (spellOutProperties ps) = spellOutProperties ps := by
  match ps with
  | [] => rw [spellOutProperties, spellOutProperties]
  | ⟨_, _, none⟩ :: ps =>
    rw [spellOutProperties, spellOutProperties, Expr.spellOut_ident,
      spellOutProperties_spellOut ps]
  | ⟨_, _, some e⟩ :: ps =>
    rw [spellOutProperties, spellOutProperties, e.spellOut_spellOut,
      spellOutProperties_spellOut ps]

end

/-! ### Labels -/

mutual

theorem Expr.label_spellOut (e : Expr ι) : e.spellOut.label = Expr.spellOut <$> e.label := by
  cases e with
  | ident | str | int | bool => simp only [Expr.spellOut, Expr.label, map_pure]
  | unary _ _ e =>
    simp only [Expr.spellOut, Expr.label, e.label_spellOut, bind_map_left, map_bind, map_pure]
  | binary _ _ l r =>
    simp only [Expr.spellOut, Expr.label, l.label_spellOut, r.label_spellOut, bind_map_left,
      map_bind, map_pure]
  | cond _ c b a =>
    cases a with
    | none =>
      simp only [Expr.spellOut, Expr.label, c.label_spellOut, b.label_spellOut, bind_map_left,
        map_bind, map_pure]
    | some a =>
      simp only [Expr.spellOut, Expr.label, c.label_spellOut, b.label_spellOut,
        a.label_spellOut, bind_map_left, map_bind, map_pure]
  | function _ fn =>
    simp only [Expr.spellOut, Expr.label, fn.relabel_spellOut, bind_map_left, map_bind, map_pure]
  | call _ c es =>
    simp only [Expr.spellOut, Expr.label, c.label_spellOut, labelExprs_spellOut es,
      bind_map_left, map_bind, map_pure]
  | index _ c i =>
    simp only [Expr.spellOut, Expr.label, c.label_spellOut, i.label_spellOut, bind_map_left,
      map_bind, map_pure]
  | assign _ t v =>
    simp only [Expr.spellOut, Expr.label, t.label_spellOut, v.label_spellOut, bind_map_left,
      map_bind, map_pure]
  | object _ _ ps =>
    simp only [Expr.spellOut, Expr.label, labelProperties_spellOut ps, bind_map_left, map_bind,
      map_pure]
  | array _ _ es =>
    simp only [Expr.spellOut, Expr.label, labelExprs_spellOut es, bind_map_left, map_bind,
      map_pure]

theorem Stmt.label_spellOut (x : Stmt ι) : x.spellOut.label = Stmt.spellOut <$> x.label := by
  cases x with
  | declare _ _ _ v =>
    cases v with
    | none => simp only [Stmt.spellOut, Stmt.label, map_pure]
    | some v =>
      simp only [Stmt.spellOut, Stmt.label, v.label_spellOut, bind_map_left, map_bind, map_pure]
  | function _ _ fn =>
    simp only [Stmt.spellOut, Stmt.label, fn.relabel_spellOut, bind_map_left, map_bind, map_pure]
  | ret _ e =>
    simp only [Stmt.spellOut, Stmt.label, e.label_spellOut, bind_map_left, map_bind, map_pure]
  | expr _ e =>
    simp only [Stmt.spellOut, Stmt.label, e.label_spellOut, bind_map_left, map_bind, map_pure]

theorem Block.label_spellOut (b : Block ι) : b.spellOut.label = Block.spellOut <$> b.label := by
  cases b with
  | mk _ xs =>
    simp only [Block.spellOut, Block.label, labelStmts_spellOut xs, bind_map_left, map_bind,
      map_pure]

theorem Function.relabel_spellOut (fn : Function ι) :
    fn.spellOut.relabel = Function.spellOut <$> fn.relabel := by
  cases fn with
  | mk _ _ _ _ body =>
    simp only [Function.spellOut, Function.relabel, body.label_spellOut, bind_map_left, map_bind,
      map_pure]

theorem labelExprs_spellOut (es : List (Expr ι)) :
    labelExprs (spellOutExprs es) = spellOutExprs <$> labelExprs es := by
  cases es with
  | nil => simp only [spellOutExprs, labelExprs, map_pure]
  | cons e es =>
    simp only [spellOutExprs, labelExprs, e.label_spellOut, labelExprs_spellOut es,
      bind_map_left, map_bind, map_pure]

theorem labelStmts_spellOut (xs : List (Stmt ι)) :
    labelStmts (spellOutStmts xs) = spellOutStmts <$> labelStmts xs := by
  cases xs with
  | nil => simp only [spellOutStmts, labelStmts, map_pure]
  | cons x xs =>
    simp only [spellOutStmts, labelStmts, x.label_spellOut, labelStmts_spellOut xs,
      bind_map_left, map_bind, map_pure]

theorem labelProperties_spellOut (ps : List (Property (Option (Expr ι)))) :
    labelProperties (spellOutProperties ps) = spellOutProperties <$> labelProperties ps := by
  match ps with
  | [] => simp only [spellOutProperties, labelProperties, map_pure]
  | ⟨_, _, none⟩ :: ps =>
    -- the name that is written out has no label
    simp only [spellOutProperties, labelProperties, Expr.label, labelProperties_spellOut ps,
      pure_bind, bind_map_left, map_bind, map_pure]
  | ⟨_, _, some v⟩ :: ps =>
    simp only [spellOutProperties, labelProperties, v.label_spellOut,
      labelProperties_spellOut ps, bind_map_left, map_bind, map_pure]

end

theorem load_spellOut (p : Program ι) : load p.spellOut = Program.spellOut <$> load p := by
  have hlabel (first : Label) : p.spellOut.label first =
      ((p.label first).1.spellOut, (p.label first).2) := by
    unfold Program.label Program.spellOut
    dsimp only
    rw [labelStmts_spellOut]
    rfl
  funext s
  show EStateM.Result.ok (s.heap.load p.spellOut).1 { s with heap := (s.heap.load p.spellOut).2 } =
    .ok (s.heap.load p).1.spellOut { s with heap := (s.heap.load p).2 }
  unfold Heap.load
  rw [hlabel]

/-! ### Runs of a program that is spelled out -/

namespace Translation

/-- Functions and the entries of literals are spelled out, wherever values hold them. -/
def spelling : Translation where
  span := id
  expr := Expr.spellOut
  property := Property.spellOut
  function := Function.spellOut
  next := id
  key_name _ := rfl
  property_expr _ := rfl
  label fn := by
    cases fn
    rw [Function.spellOut]
  params fn := by
    cases fn
    rw [Function.spellOut]

theorem statement_spelling (x : Stmt Label) : spelling.statement x = x.spellOut := by
  cases x with
  | declare _ _ _ value =>
    cases value with
    | none =>
      rw [Stmt.spellOut]
      rfl
    | some e =>
      rw [Stmt.spellOut]
      rfl
  | _ =>
    rw [Stmt.spellOut]
    rfl

/-- Spelling out goes node by node. -/
def nodewiseSpelling : spelling.Nodewise where
  block := Block.spellOut
  stmts := spellOutStmts
  expr_eq e := by
    show e.spellOut = _
    cases e with
    | cond => exact Expr.spellOut_cond ..
    | call | array =>
      rw [Expr.spellOut, spellOutExprs_eq_map]
      rfl
    | object =>
      rw [Expr.spellOut, spellOutProperties_eq_map]
      rfl
    | _ =>
      rw [Expr.spellOut]
      rfl
  body_eq fn := by
    cases fn
    show (Function.spellOut _).body = _
    rw [Function.spellOut]
  block_eq span xs := by
    rw [Block.spellOut]
    rfl
  stmts_nil := by rw [spellOutStmts]
  stmts_cons x xs := by
    rw [spellOutStmts, statement_spelling]
    exact .inl rfl

end Translation

open Translation

/-! ### Entries that correspond -/

/-- What is written at a key on either side: the same but for what is spelled out inside, or a key
alone on one side and the name on the other. -/
inductive SameEntry (key : Ident) : Option (Expr Label) → Option (Expr Label) → Prop where
  | keys : SameEntry key none none
  | spelled : SameEntry key none (some (.ident key.span key.name))
  | shortened : SameEntry key (some (.ident key.span key.name)) none
  | values {e e' : Expr Label} (h : e'.spellOut = e.spellOut) : SameEntry key (some e) (some e')

/-- Both are as written, and related by `same`; or both have been assigned, from the same place and
the same value but for what is spelled out inside. -/
inductive Cell.Alike {β : Type} (same : β → β → Prop) : Cell β → Cell β → Prop where
  | written {b b' : β} (h : same b b') : Alike same (.written b) (.written b')
  | assigned {a a' : Assigned} (h : spelling.assigned a' = spelling.assigned a) :
    Alike same (.assigned a) (.assigned a')

/-- Entries of one key that correspond. -/
structure Property.Alike (p q : Property (Cell (Option (Expr Label)))) : Prop where
  span : q.span = p.span
  key : q.key = p.key
  value : p.value.Alike (SameEntry p.key) q.value

theorem Expr.eq_ident_of_spellOut {e : Expr ι} {span : Span} {name : String}
    (h : e.spellOut = .ident span name) : e = .ident span name := by
  cases e with
  | ident =>
    rw [Expr.spellOut] at h
    exact h
  | cond =>
    rw [Expr.spellOut_cond] at h
    cases h
  | _ =>
    rw [Expr.spellOut] at h
    cases h

theorem Property.alike_of_spellOut {p q : Property (Option (Expr Label))}
    (h : q.spellOut = p.spellOut) : (p.map .written).Alike (q.map .written) := by
  obtain ⟨span, key, value⟩ := p
  obtain ⟨span', key', value'⟩ := q
  obtain ⟨rfl, rfl, hvalue⟩ := Property.mk.inj h
  refine ⟨rfl, rfl, .written ?_⟩
  have hexpr := Option.some.inj hvalue
  cases value with
  | none =>
    cases value' with
    | none => exact .keys
    | some e' =>
      have hname : e'.spellOut = .ident key'.span key'.name :=
        hexpr.trans (Expr.spellOut_ident _ _)
      rw [Expr.eq_ident_of_spellOut hname]
      exact .spelled
  | some e =>
    cases value' with
    | none =>
      have hname : e.spellOut = .ident key'.span key'.name :=
        hexpr.symm.trans (Expr.spellOut_ident _ _)
      rw [Expr.eq_ident_of_spellOut hname]
      exact .shortened
    | some e' => exact .values hexpr

/-- Lists that a function makes equal are related place by place. -/
theorem forall₂_of_map_eq {α β : Type} {f : α → β} {R : α → α → Prop}
    (hR : ∀ a b, f b = f a → R a b) {as bs : List α} (h : bs.map f = as.map f) :
    List.Forall₂ R as bs := by
  have heq : List.Forall₂ Eq (as.map f) (bs.map f) := by
    rw [h, List.forall₂_eq_eq_eq]
  rw [List.forall₂_map_left_iff, List.forall₂_map_right_iff] at heq
  exact heq.imp fun a b hab => hR a b hab.symm

theorem Property.put_alike {ps qs : List (Property (Cell (Option (Expr Label))))}
    (h : List.Forall₂ Alike ps qs) {r r' : Property Assigned}
    (hr : spelling.record r' = spelling.record r) :
    List.Forall₂ Alike (put ps (r.map .assigned)) (put qs (r'.map .assigned)) := by
  obtain ⟨hspan, hkey, hvalue⟩ := Property.mk.inj hr
  induction h with
  | nil => exact .cons ⟨hspan, hkey, .assigned hvalue⟩ .nil
  | @cons p q ps qs hpq h ih =>
    have hname : (r'.map Cell.assigned : Property (Cell (Option (Expr Label)))).key =
        (r.map Cell.assigned : Property (Cell (Option (Expr Label)))).key := hkey
    simp only [put, hpq.key, hname]
    split
    · exact .cons ⟨hpq.span, rfl, .assigned hvalue⟩ h
    · exact .cons hpq ih

theorem Property.overwrite_alike {ps qs : List (Property (Cell (Option (Expr Label))))}
    (h : List.Forall₂ Alike ps qs) {edits edits' : List (Property Assigned)}
    (hedits : edits'.map spelling.record = edits.map spelling.record) :
    List.Forall₂ Alike (overwrite ps (edits.map (Property.map .assigned)))
      (overwrite qs (edits'.map (Property.map .assigned))) := by
  induction edits generalizing ps qs edits' with
  | nil =>
    obtain rfl := List.map_eq_nil_iff.1 hedits
    exact h
  | cons r edits ih =>
    obtain ⟨r', edits', rfl, hr, hedits⟩ := List.map_eq_cons_iff.1 hedits
    exact ih (put_alike h hr) hedits

theorem overwriteSlots_forall₂ {α : Type} {R : α → α → Prop} {xs ys : List α}
    {slots slots' : List (Option α)} (h : List.Forall₂ R xs ys)
    (hslots : List.Forall₂ (Option.Rel R) slots slots') :
    List.Forall₂ R (overwriteSlots xs slots) (overwriteSlots ys slots') := by
  induction hslots generalizing xs ys with
  | nil => simpa using h
  | cons hslot _ ih =>
    cases hslot with
    | some hab =>
      cases h with
      | nil => exact .cons hab (ih .nil)
      | cons _ h => exact .cons hab (ih h)
    | none =>
      cases h with
      | nil => exact ih .nil
      | cons hxy h => exact .cons hxy (ih h)

/-- The heaps are the same but for what is spelled out in values, and objects and arrays that
correspond have entries that correspond, place by place. -/
structure SpelledHeap (h h' : Heap) : Prop extends spelling.SameHeap h h' where
  objects : ∀ label ps ps', spelling.value (.object label ps') = spelling.value (.object label ps) →
    List.Forall₂ Property.Alike (h.objectCells label ps) (h'.objectCells label ps')
  arrays : ∀ label es es', spelling.value (.array label es') = spelling.value (.array label es) →
    List.Forall₂ (Cell.Alike fun e e' => e'.spellOut = e.spellOut) (h.arrayCells label es)
      (h'.arrayCells label es')

theorem Translation.SameHeap.assignedSlots {T : Translation} {h h' : Heap} (hsame : T.SameHeap h h')
    (label : Label) : (h'.assignedSlots label).map (Option.map T.assigned) =
      (h.assignedSlots label).map (Option.map T.assigned) := by
  have hmap (h : Heap) : (h.assignedSlots label).map (Option.map T.assigned) =
      ((h.slots.get? label).map (List.map (Option.map T.assigned))).getD [] := by
    unfold Heap.assignedSlots
    cases h.slots.get? label <;> rfl
  rw [hmap, hmap, hsame.slots]

theorem SpelledHeap.of_sameHeap {h h' : Heap} (hsame : spelling.SameHeap h h') :
    SpelledHeap h h' where
  toSameHeap := hsame
  objects label ps ps' hobject := by
    obtain ⟨-, hps⟩ := Value.object.inj hobject
    have hwritten : List.Forall₂ Property.Alike (ps.map (Property.map .written))
        (ps'.map (Property.map .written)) := by
      rw [List.forall₂_map_left_iff, List.forall₂_map_right_iff]
      exact forall₂_of_map_eq (fun _ _ => Property.alike_of_spellOut) hps
    exact Property.overwrite_alike hwritten (hsame.properties label)
  arrays label es es' harray := by
    obtain ⟨-, hes⟩ := Value.array.inj harray
    apply overwriteSlots_forall₂
    · rw [List.forall₂_map_left_iff, List.forall₂_map_right_iff]
      exact forall₂_of_map_eq (fun _ _ h => .written h) hes
    · rw [List.forall₂_map_left_iff, List.forall₂_map_right_iff]
      refine forall₂_of_map_eq ?_ (hsame.assignedSlots label)
      intro a b hab
      cases a with
      | none =>
        obtain rfl := Option.map_eq_none_iff.1 hab
        exact .none
      | some a =>
        obtain ⟨b, rfl, hb⟩ := Option.map_eq_some_iff.1 hab
        exact .some (.assigned hb)

/-- Both runs give a value, the same but for what is spelled out inside, or both halt for the same
cause; and the heaps correspond. -/
def SpelledEnd : EStateM.Result Halt Eval.State Value → EStateM.Result Halt Eval.State Value → Prop
  | .ok v s, .ok v' s' =>
    spelling.value v' = spelling.value v ∧ s'.depth = s.depth ∧ SpelledHeap s.heap s'.heap
  | .error halt s, .error halt' s' =>
    halt' = halt ∧ s'.depth = s.depth ∧ SpelledHeap s.heap s'.heap
  | _, _ => False

theorem SpelledEnd.of_sameEnd {r r' : EStateM.Result Halt Eval.State Value}
    (h : spelling.SameEnd r r') : SpelledEnd r r' := by
  cases r with
  | ok v s =>
    cases r' with
    | ok v' s' =>
      obtain ⟨hv, hdepth, hheap⟩ := h
      exact ⟨hv, hdepth, .of_sameHeap hheap⟩
    | error => exact h
  | error halt s =>
    cases r' with
    | ok => exact h
    | error halt' s' =>
      obtain ⟨hhalt, hdepth, hheap⟩ := h
      exact ⟨hhalt, hdepth, .of_sameHeap hheap⟩

/-- **A key alone in an object stands for `key: key`.**  A program, with labels or about to get
them, and the same program with all its objects spelled out end alike, from any state and within any
bounds. -/
theorem evaluate_spellOut (bounds : Bounds) (frame : FrameId) (s : Eval.State) :
    (∀ p : Program Label,
      SpelledEnd (bounds.evaluate frame p s) (bounds.evaluate frame p.spellOut s)) ∧
    ∀ p : Program ι, SpelledEnd ((load p >>= bounds.evaluate frame) s)
      ((load p.spellOut >>= bounds.evaluate frame) s) := by
  have hlabelled (p : Program Label) (t : Eval.State) :
      SpelledEnd (bounds.evaluate frame p t) (bounds.evaluate frame p.spellOut t) :=
    .of_sameEnd (nodewiseSpelling.evaluate_sameEnd bounds frame rfl
      (spellOutStmts_spellOut p.statements).symm t)
  constructor
  · intro p
    exact hlabelled p s
  · intro p
    rw [load_spellOut, bind_map_left]
    exact hlabelled _ _

end Primer
