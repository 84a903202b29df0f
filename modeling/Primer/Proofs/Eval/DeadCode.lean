/-
  Primer/Proofs/Eval/DeadCode.lean
  ================================
  **Statements behind a `return` are dead.**

  `prune` removes, in a whole tree, the statements that follow a `return` in the same list: from
  the program, from the bodies of functions and the branches of choices, and from what is written
  inside of literals.  Everything that stays keeps its span and its label.

  The code that a pruned program runs later is pruned as well, in the functions it makes and in the
  entries of its literals, so the two runs have different values and heaps all along.  But pruning
  goes node by node, evaluation commutes with it, and to prune twice is to prune once; so the two
  runs end alike, up to what is pruned in their values (`evaluate_prune`).
-/
import Primer.Proofs.Eval.Nodewise

namespace Primer

variable {ι : Type}

/-! ### Pruning -/

mutual

/-- The expression without the statements in it that follow a `return`. -/
def Expr.prune : Expr ι → Expr ι
  | .ident span name => .ident span name
  | .str span text => .str span text
  | .int span value => .int span value
  | .bool span value => .bool span value
  | .unary span op operand => .unary span op operand.prune
  | .binary span op left right => .binary span op left.prune right.prune
  | .cond span condition consequence none => .cond span condition.prune consequence.prune none
  | .cond span condition consequence (some alternative) =>
    .cond span condition.prune consequence.prune (some alternative.prune)
  | .function span fn => .function span fn.prune
  | .call span callee args => .call span callee.prune (pruneExprs args)
  | .index span container key => .index span container.prune key.prune
  | .assign span target value => .assign span target.prune value.prune
  | .object span label properties => .object span label (pruneProperties properties)
  | .array span label elements => .array span label (pruneExprs elements)

def Stmt.prune : Stmt ι → Stmt ι
  | .declare span isConst name none => .declare span isConst name none
  | .declare span isConst name (some value) => .declare span isConst name (some value.prune)
  | .function span name fn => .function span name fn.prune
  | .ret span value => .ret span value.prune
  | .expr span value => .expr span value.prune

def Block.prune : Block ι → Block ι
  | ⟨span, statements⟩ => ⟨span, pruneStmts statements⟩

def Function.prune : Function ι → Function ι
  | ⟨span, label, name, params, body⟩ => ⟨span, label, name, params, body.prune⟩

def pruneExprs : List (Expr ι) → List (Expr ι)
  | [] => []
  | e :: es => e.prune :: pruneExprs es

/-- Statements up to the first `return`. -/
def pruneStmts : List (Stmt ι) → List (Stmt ι)
  | [] => []
  | x :: xs => x.prune :: if x.isReturn then [] else pruneStmts xs

def pruneProperties : List (Property (Option (Expr ι))) → List (Property (Option (Expr ι)))
  | [] => []
  | ⟨span, key, none⟩ :: ps => ⟨span, key, none⟩ :: pruneProperties ps
  | ⟨span, key, some value⟩ :: ps => ⟨span, key, some value.prune⟩ :: pruneProperties ps

end

/-- The program without the statements in it that follow a `return`. -/
def Program.prune (p : Program ι) : Program ι := ⟨p.span, pruneStmts p.statements⟩

def Property.prune (p : Property (Option (Expr ι))) : Property (Option (Expr ι)) :=
  ⟨p.span, p.key, p.value.map Expr.prune⟩

theorem pruneExprs_eq_map (es : List (Expr ι)) : pruneExprs es = es.map Expr.prune := by
  induction es with
  | nil => rw [pruneExprs, List.map_nil]
  | cons e es ih => rw [pruneExprs, List.map_cons, ih]

theorem pruneProperties_eq_map (ps : List (Property (Option (Expr ι)))) :
    pruneProperties ps = ps.map Property.prune := by
  induction ps with
  | nil => rw [pruneProperties, List.map_nil]
  | cons p ps ih =>
    obtain ⟨span, key, value⟩ := p
    cases value with
    | none =>
      rw [pruneProperties, List.map_cons, ih]
      rfl
    | some e =>
      rw [pruneProperties, List.map_cons, ih]
      rfl

theorem Expr.prune_cond (span : Span) (c : Expr ι) (b : Block ι) (a : Option (Block ι)) :
    (Expr.cond span c b a).prune = .cond span c.prune b.prune (a.map Block.prune) := by
  cases a with
  | none => rw [Expr.prune, Option.map_none]
  | some a => rw [Expr.prune, Option.map_some]

theorem Stmt.isReturn_prune (x : Stmt ι) : x.prune.isReturn = x.isReturn := by
  cases x with
  | declare _ _ _ value =>
    cases value with
    | none => rw [Stmt.prune]
    | some e =>
      rw [Stmt.prune]
      rfl
  | _ =>
    rw [Stmt.prune]
    rfl

/-- `function() { return a; b }` as an element of an array. -/
example (z : Span) (a b : Expr Unit) :
    (Expr.array z () [.function z ⟨z, (), none, [], ⟨z, [.ret z a, .expr z b]⟩⟩]).prune =
      .array z () [.function z ⟨z, (), none, [], ⟨z, [.ret z a.prune]⟩⟩] := by
  rfl

/-! ### To prune twice is to prune once -/

mutual

theorem Expr.prune_prune (e : Expr ι) : e.prune.prune = e.prune := by
  cases e with
  | ident | str | int | bool => rw [Expr.prune, Expr.prune]
  | unary _ _ e => rw [Expr.prune, Expr.prune, Expr.prune_prune e]
  | binary _ _ left right =>
    rw [Expr.prune, Expr.prune, Expr.prune_prune left, Expr.prune_prune right]
  | cond _ c b a =>
    cases a with
    | none => rw [Expr.prune, Expr.prune, Expr.prune_prune c, Block.prune_prune b]
    | some a =>
      rw [Expr.prune, Expr.prune, Expr.prune_prune c, Block.prune_prune b, Block.prune_prune a]
  | function _ fn => rw [Expr.prune, Expr.prune, Function.prune_prune fn]
  | call _ callee args =>
    rw [Expr.prune, Expr.prune, Expr.prune_prune callee, pruneExprs_pruneExprs args]
  | index _ container key =>
    rw [Expr.prune, Expr.prune, Expr.prune_prune container, Expr.prune_prune key]
  | assign _ target value =>
    rw [Expr.prune, Expr.prune, Expr.prune_prune target, Expr.prune_prune value]
  | object _ _ ps => rw [Expr.prune, Expr.prune, pruneProperties_pruneProperties ps]
  | array _ _ es => rw [Expr.prune, Expr.prune, pruneExprs_pruneExprs es]

theorem Stmt.prune_prune (x : Stmt ι) : x.prune.prune = x.prune := by
  cases x with
  | declare _ _ _ value =>
    cases value with
    | none => rw [Stmt.prune, Stmt.prune]
    | some e => rw [Stmt.prune, Stmt.prune, Expr.prune_prune e]
  | function _ _ fn => rw [Stmt.prune, Stmt.prune, Function.prune_prune fn]
  | ret _ e => rw [Stmt.prune, Stmt.prune, Expr.prune_prune e]
  | expr _ e => rw [Stmt.prune, Stmt.prune, Expr.prune_prune e]

theorem Block.prune_prune (b : Block ι) : b.prune.prune = b.prune := by
  cases b with
  | mk _ xs => rw [Block.prune, Block.prune, pruneStmts_pruneStmts xs]

theorem Function.prune_prune (fn : Function ι) : fn.prune.prune = fn.prune := by
  cases fn with
  | mk _ _ _ _ body => rw [Function.prune, Function.prune, Block.prune_prune body]

theorem pruneExprs_pruneExprs (es : List (Expr ι)) :
    pruneExprs (pruneExprs es) = pruneExprs es := by
  cases es with
  | nil => rw [pruneExprs, pruneExprs]
  | cons e es => rw [pruneExprs, pruneExprs, Expr.prune_prune e, pruneExprs_pruneExprs es]

theorem pruneStmts_pruneStmts (xs : List (Stmt ι)) :
    pruneStmts (pruneStmts xs) = pruneStmts xs := by
  cases xs with
  | nil => rw [pruneStmts, pruneStmts]
  | cons x xs =>
    rw [pruneStmts, pruneStmts, Stmt.prune_prune x, Stmt.isReturn_prune]
    split
    · rfl
    · rw [pruneStmts_pruneStmts xs]

theorem pruneProperties_pruneProperties (ps : List (Property (Option (Expr ι)))) :
    pruneProperties (pruneProperties ps) = pruneProperties ps := by
  match ps with
  | [] => rw [pruneProperties, pruneProperties]
  | ⟨_, _, none⟩ :: ps =>
    rw [pruneProperties, pruneProperties, pruneProperties_pruneProperties ps]
  | ⟨_, _, some e⟩ :: ps =>
    rw [pruneProperties, pruneProperties, Expr.prune_prune e, pruneProperties_pruneProperties ps]

end

/-! ### Runs of a pruned program -/

namespace Translation

/-- Functions and the entries of literals are pruned, wherever values hold them. -/
def pruning : Translation where
  span := id
  expr := Expr.prune
  property := Property.prune
  function := Function.prune
  next := id
  key_name _ := rfl
  property_expr p := by
    obtain ⟨span, key, value⟩ := p
    cases value with
    | none =>
      show Expr.ident _ _ = (Expr.ident _ _).prune
      rw [Expr.prune]
      rfl
    | some e => rfl
  label fn := by
    cases fn
    rw [Function.prune]
  params fn := by
    cases fn
    rw [Function.prune]

theorem statement_pruning (x : Stmt Label) : pruning.statement x = x.prune := by
  cases x with
  | declare _ _ _ value =>
    cases value with
    | none =>
      rw [Stmt.prune]
      rfl
    | some e =>
      rw [Stmt.prune]
      rfl
  | _ =>
    rw [Stmt.prune]
    rfl

/-- Pruning goes node by node. -/
def nodewisePruning : pruning.Nodewise where
  block := Block.prune
  stmts := pruneStmts
  expr_eq e := by
    show e.prune = _
    cases e with
    | cond => exact Expr.prune_cond ..
    | call | array =>
      rw [Expr.prune, pruneExprs_eq_map]
      rfl
    | object =>
      rw [Expr.prune, pruneProperties_eq_map]
      rfl
    | _ =>
      rw [Expr.prune]
      rfl
  body_eq fn := by
    cases fn
    show (Function.prune _).body = _
    rw [Function.prune]
  block_eq span xs := by
    rw [Block.prune]
    rfl
  stmts_nil := by rw [pruneStmts]
  stmts_cons x xs := by
    rw [pruneStmts, statement_pruning]
    split
    next hreturn => exact .inr ⟨hreturn, rfl⟩
    next => exact .inl rfl

end Translation

open Translation

/-- **Statements behind a `return` are dead.**  A program and the program without them end alike,
from any state and within any bounds: both give a value, the same up to dead statements in
functions and literals, or both halt for the same cause; and they leave the same frames, with the
same names in each and the same values up to dead statements. -/
theorem evaluate_prune (bounds : Bounds) (frame : FrameId) (p : Program Label) (s : Eval.State) :
    pruning.SameEnd (bounds.evaluate frame p s) (bounds.evaluate frame p.prune s) :=
  nodewisePruning.evaluate_sameEnd bounds frame rfl (pruneStmts_pruneStmts p.statements).symm s

end Primer
