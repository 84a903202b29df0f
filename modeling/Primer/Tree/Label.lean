/-
  Primer/Tree/Label.lean
  ======================
  **Giving literals and functions an identity.**

  Before a tree runs, each of its object literals, array literals and functions gets a
  label of its own, counted up from a given number.  Loading a tree twice, from
  different numbers, gives two trees that share no label.
-/
import Primer.Tree

namespace Primer

/-- The identity of a literal or function of a loaded program. -/
abbrev Label := Nat

/-- A computation that hands out labels. -/
abbrev Labelling := StateM Label

variable {ι : Type}

/-- A label not handed out before. -/
def freshLabel : Labelling Label := modifyGet fun n => (n, n + 1)

mutual

def Expr.label : Expr ι → Labelling (Expr Label)
  | .ident span name => return .ident span name
  | .str span text => return .str span text
  | .int span value => return .int span value
  | .bool span value => return .bool span value
  | .unary span op operand => return .unary span op (← operand.label)
  | .binary span op left right => return .binary span op (← left.label) (← right.label)
  | .cond span condition consequence none =>
    return .cond span (← condition.label) (← consequence.label) none
  | .cond span condition consequence (some alternative) =>
    return .cond span (← condition.label) (← consequence.label) (some (← alternative.label))
  | .function span fn => return .function span (← fn.relabel)
  | .call span callee args => return .call span (← callee.label) (← labelExprs args)
  | .index span container key => return .index span (← container.label) (← key.label)
  | .assign span target value => return .assign span (← target.label) (← value.label)
  | .object span _ properties =>
    return .object span (← freshLabel) (← labelProperties properties)
  | .array span _ elements => return .array span (← freshLabel) (← labelExprs elements)

def Stmt.label : Stmt ι → Labelling (Stmt Label)
  | .declare span isConst name none => return .declare span isConst name none
  | .declare span isConst name (some value) =>
    return .declare span isConst name (some (← value.label))
  | .function span name fn => return .function span name (← fn.relabel)
  | .ret span value => return .ret span (← value.label)
  | .expr span value => return .expr span (← value.label)

def Block.label : Block ι → Labelling (Block Label)
  | ⟨span, statements⟩ => return ⟨span, ← labelStmts statements⟩

/-- The function with fresh labels, its own among them. -/
def Function.relabel : Function ι → Labelling (Function Label)
  | ⟨span, _, name, params, body⟩ => return ⟨span, ← freshLabel, name, params, ← body.label⟩

def labelExprs : List (Expr ι) → Labelling (List (Expr Label))
  | [] => return []
  | e :: es => return (← e.label) :: (← labelExprs es)

def labelStmts : List (Stmt ι) → Labelling (List (Stmt Label))
  | [] => return []
  | s :: ss => return (← s.label) :: (← labelStmts ss)

def labelProperties : List (Property (Option (Expr ι))) →
    Labelling (List (Property (Option (Expr Label))))
  | [] => return []
  | ⟨span, key, none⟩ :: ps => return ⟨span, key, none⟩ :: (← labelProperties ps)
  | ⟨span, key, some value⟩ :: ps =>
    return ⟨span, key, some (← value.label)⟩ :: (← labelProperties ps)

end

/-- The program with labels from `first` on, and the first label that is still free. -/
def Program.label (first : Label) (p : Program ι) : Program Label × Label :=
  let (statements, next) := (labelStmts p.statements).run first
  (⟨p.span, statements⟩, next)

end Primer
