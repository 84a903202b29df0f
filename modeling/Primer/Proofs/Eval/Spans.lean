/-
  Primer/Proofs/Eval/Spans.lean
  =============================
  **Evaluation does not look at spans.**

  Moving every span of a tree, and every span in the heap along with it, is a translation
  (`Translation.ofSpans`) that goes node by node, so evaluation commutes with it.  Spans are put
  into the heap with what is assigned to an entry and are never looked at again; nor is the number
  of the next label, which only loading a program reads.  So two evaluations of trees that differ
  in their spans, from states that differ in their spans and in that number, end alike
  (`executeAll_alike`).
-/
import Primer.Proofs.Eval.Nodewise

namespace Primer

namespace Translation

/-- Spans are moved by `f`, and the next label becomes `next` of it. -/
def ofSpans (f : Span → Span) (next : Label → Label) : Translation where
  span := f
  expr := Expr.mapSpans f
  property := Property.mapSpans f
  function := Function.mapSpans f
  next := next
  key_name _ := rfl
  property_expr p := by
    obtain ⟨span, key, value⟩ := p
    cases value with
    | none =>
      show Expr.ident _ _ = (Expr.ident _ _).mapSpans f
      rw [Expr.mapSpans]
      rfl
    | some e => rfl
  label fn := by
    cases fn
    rw [Function.mapSpans]
  params fn := by
    cases fn
    rw [Function.mapSpans, List.map_map]
    rfl

variable {f : Span → Span}

theorem value_ofSpans (next next' : Label → Label) :
    (ofSpans f next).value = (ofSpans f next').value := by
  funext v
  induction v with
  | returned v ih => exact congrArg Value.returned ih
  | _ => rfl

/-- What becomes of the next label matters nowhere else. -/
theorem state_ofSpans {next next' : Label → Label} {s : Eval.State}
    (h : next s.heap.nextLabel = next' s.heap.nextLabel) :
    (ofSpans f next).state s = (ofSpans f next').state s := by
  have hvalue : (ofSpans f next).value = (ofSpans f next').value := value_ofSpans next next'
  have hassigned : (ofSpans f next).assigned = (ofSpans f next').assigned := by
    funext a
    unfold assigned
    rw [hvalue]
    rfl
  have hrecord : (ofSpans f next).record = (ofSpans f next').record := by
    funext p
    unfold record
    rw [hassigned]
    rfl
  have hframe : (ofSpans f next).frame = (ofSpans f next').frame := by
    funext fr
    unfold frame
    rw [hvalue]
  have hnext : (ofSpans f next).next s.heap.nextLabel = (ofSpans f next').next s.heap.nextLabel := h
  unfold state heap
  rw [hframe, hrecord, hassigned, hnext]

/-- Spans are moved node by node. -/
def nodewiseOfSpans (f : Span → Span) (next : Label → Label) : (ofSpans f next).Nodewise where
  block := Block.mapSpans f
  stmts := mapSpansStmts f
  expr_eq e := by
    cases e with
    | cond _ _ _ a => exact Expr.mapSpans_cond ..
    | call _ _ args =>
      show Expr.mapSpans f _ = _
      rw [Expr.mapSpans, mapSpansExprs_eq_map]
      rfl
    | object _ _ properties =>
      show Expr.mapSpans f _ = _
      rw [Expr.mapSpans, mapSpansProperties_eq_map]
      rfl
    | array _ _ elements =>
      show Expr.mapSpans f _ = _
      rw [Expr.mapSpans, mapSpansExprs_eq_map]
      rfl
    | _ =>
      show Expr.mapSpans f _ = _
      rw [Expr.mapSpans]
      rfl
  body_eq fn := by
    cases fn
    show (Function.mapSpans f _).body = _
    rw [Function.mapSpans]
  block_eq span xs := by
    rw [Block.mapSpans]
    rfl
  stmts_nil := by rw [mapSpansStmts]
  stmts_cons x xs := by
    have hstatement : x.mapSpans f = (ofSpans f next).statement x := by
      cases x with
      | declare _ _ _ value =>
        cases value <;>
          rw [Stmt.mapSpans] <;>
          rfl
      | _ =>
        rw [Stmt.mapSpans]
        rfl
    rw [mapSpansStmts, hstatement]
    exact .inl rfl

end Translation

/-- Executes statements within the bounds; `last` is the value before them. -/
def Bounds.executeAll (bounds : Bounds) (frame : FrameId) (last : Value) (xs : List (Stmt Label)) :
    Eval Value :=
  execAll bounds.calls (jump bounds.calls bounds.fuel) frame last xs

open Translation

/-- **Statements that differ in their spans, from states that differ in their spans, end alike.** -/
theorem executeAll_alike (bounds : Bounds) (frame : FrameId) {f : Span → Span}
    {next : Label → Label} {last last' : Value} {xs xs' : List (Stmt Label)} {s s' : Eval.State}
    (hlast : (ofSpans f next).value last = (ofSpans f next).value last')
    (hxs : mapSpansStmts f xs = mapSpansStmts f xs')
    (hs : (ofSpans f next).state s = (ofSpans f next).state s') :
    (ofSpans f next).result (ofSpans f next).value (bounds.executeAll frame last xs s) =
      (ofSpans f next).result (ofSpans f next).value (bounds.executeAll frame last' xs' s') :=
  (nodewiseOfSpans f next).execAll_alike bounds.calls bounds.fuel frame hlast hxs hs

end Primer
