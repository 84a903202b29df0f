/-
  Primer/Tree/Spans.lean
  ======================
  **Moving and forgetting the spans of a tree.**

  `mapSpans f` replaces every span of a tree by its image under `f`.  Two instances
  matter: `eraseSpans` sets every span to `0..0`, so that trees which differ in layout
  only become equal, and `shiftSpans n` moves a tree `n` bytes to the right.
-/
import Primer.Tree

namespace Primer

variable {ι : Type}

def Ident.mapSpans (f : Span → Span) (x : Ident) : Ident := ⟨f x.span, x.name⟩

mutual

def Expr.mapSpans (f : Span → Span) : Expr ι → Expr ι
  | .ident span name => .ident (f span) name
  | .str span text => .str (f span) text
  | .int span value => .int (f span) value
  | .bool span value => .bool (f span) value
  | .unary span op operand => .unary (f span) op (operand.mapSpans f)
  | .binary span op left right => .binary (f span) op (left.mapSpans f) (right.mapSpans f)
  | .cond span condition consequence none =>
    .cond (f span) (condition.mapSpans f) (consequence.mapSpans f) none
  | .cond span condition consequence (some alternative) =>
    .cond (f span) (condition.mapSpans f) (consequence.mapSpans f) (some (alternative.mapSpans f))
  | .function span fn => .function (f span) (fn.mapSpans f)
  | .call span callee args => .call (f span) (callee.mapSpans f) (mapSpansExprs f args)
  | .index span container key => .index (f span) (container.mapSpans f) (key.mapSpans f)
  | .assign span target value => .assign (f span) (target.mapSpans f) (value.mapSpans f)
  | .object span label properties => .object (f span) label (mapSpansProperties f properties)
  | .array span label elements => .array (f span) label (mapSpansExprs f elements)

def Stmt.mapSpans (f : Span → Span) : Stmt ι → Stmt ι
  | .declare span isConst name none => .declare (f span) isConst (name.mapSpans f) none
  | .declare span isConst name (some value) =>
    .declare (f span) isConst (name.mapSpans f) (some (value.mapSpans f))
  | .function span name fn => .function (f span) (name.mapSpans f) (fn.mapSpans f)
  | .ret span value => .ret (f span) (value.mapSpans f)
  | .expr span value => .expr (f span) (value.mapSpans f)

def Block.mapSpans (f : Span → Span) : Block ι → Block ι
  | ⟨span, statements⟩ => ⟨f span, mapSpansStmts f statements⟩

def Function.mapSpans (f : Span → Span) : Function ι → Function ι
  | ⟨span, label, name, params, body⟩ =>
    ⟨f span, label, name.map (·.mapSpans f), params.map (·.mapSpans f), body.mapSpans f⟩

def mapSpansExprs (f : Span → Span) : List (Expr ι) → List (Expr ι)
  | [] => []
  | e :: es => e.mapSpans f :: mapSpansExprs f es

def mapSpansStmts (f : Span → Span) : List (Stmt ι) → List (Stmt ι)
  | [] => []
  | s :: ss => s.mapSpans f :: mapSpansStmts f ss

def mapSpansProperties (f : Span → Span) :
    List (Property (Option (Expr ι))) → List (Property (Option (Expr ι)))
  | [] => []
  | ⟨span, key, none⟩ :: ps => ⟨f span, key.mapSpans f, none⟩ :: mapSpansProperties f ps
  | ⟨span, key, some value⟩ :: ps =>
    ⟨f span, key.mapSpans f, some (value.mapSpans f)⟩ :: mapSpansProperties f ps

end

namespace Program

def mapSpans (f : Span → Span) (p : Program ι) : Program ι :=
  ⟨f p.span, mapSpansStmts f p.statements⟩

/-- The program without positions: every span is `0..0`. -/
def eraseSpans (p : Program ι) : Program ι := p.mapSpans fun _ => .zero

/-- The program moved `n` bytes to the right. -/
def shiftSpans (n : Nat) (p : Program ι) : Program ι := p.mapSpans (·.shift n)

end Program

theorem mapSpansExprs_eq_map (f : Span → Span) (es : List (Expr ι)) :
    mapSpansExprs f es = es.map (·.mapSpans f) := by
  induction es with
  | nil => simp [mapSpansExprs]
  | cons e es ih => simp [mapSpansExprs, ih]

theorem mapSpansStmts_eq_map (f : Span → Span) (ss : List (Stmt ι)) :
    mapSpansStmts f ss = ss.map (·.mapSpans f) := by
  induction ss with
  | nil => simp [mapSpansStmts]
  | cons s ss ih => simp [mapSpansStmts, ih]

end Primer
