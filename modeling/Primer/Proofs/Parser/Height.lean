/-
  Primer/Proofs/Parser/Height.lean
  ================================
  **What the limit on nesting says about the height of trees.**

  The height of a tree is the longest chain of statements and expressions that are nested in
  one another.  Every rule that is used by another counts as one level of nesting, and nesting
  is limited; but an expression also grows in the loop over operators, which is not counted.
  Each round of that loop puts one more operator, call, index or assignment on top of what
  stands on its left.

  So the limit bounds the height of a tree up to the length of such chains: a tree is at least
  as high as its longest chain is long, and at most `maxNesting` times two more than that.  As
  chains can be of any length, heights are not bounded.
-/
import Primer.Proofs.Parser.RoundTrip

namespace Primer

variable {ι : Type}

/-! ### Heights -/

mutual

def Expr.height : Expr ι → Nat
  | .ident .. | .str .. | .int .. | .bool .. => 1
  | .unary _ _ operand => operand.height + 1
  | .binary _ _ left right => max left.height right.height + 1
  | .cond _ condition consequence none => max condition.height consequence.height + 1
  | .cond _ condition consequence (some alternative) =>
    max condition.height (max consequence.height alternative.height) + 1
  | .function _ fn => fn.height + 1
  | .call _ callee args => max callee.height (heightExprs args) + 1
  | .index _ container key => max container.height key.height + 1
  | .assign _ target value => max target.height value.height + 1
  | .object _ _ properties => heightProperties properties + 1
  | .array _ _ elements => heightExprs elements + 1

def Stmt.height : Stmt ι → Nat
  | .declare _ _ _ none => 1
  | .declare _ _ _ (some value) => value.height + 1
  | .function _ _ fn => fn.height + 1
  | .ret _ value => value.height + 1
  | .expr _ value => value.height + 1

def Block.height : Block ι → Nat
  | ⟨_, statements⟩ => heightStmts statements

def Function.height : Function ι → Nat
  | ⟨_, _, _, _, body⟩ => body.height

def heightExprs : List (Expr ι) → Nat
  | [] => 0
  | e :: es => max e.height (heightExprs es)

def heightStmts : List (Stmt ι) → Nat
  | [] => 0
  | s :: ss => max s.height (heightStmts ss)

def heightProperties : List (Property (Option (Expr ι))) → Nat
  | [] => 0
  | ⟨_, _, none⟩ :: ps => heightProperties ps
  | ⟨_, _, some value⟩ :: ps => max value.height (heightProperties ps)

end

/-- The longest chain of statements and expressions of the program that are nested in one
another. -/
def Program.height (p : Program ι) : Nat := heightStmts p.statements

/-! ### Chains -/

/-- How many operators, calls, indexes and assignments stand on top of each other on the left. -/
def Expr.chain : Expr ι → Nat
  | .binary _ _ left _ => left.chain + 1
  | .call _ callee _ => callee.chain + 1
  | .index _ container _ => container.chain + 1
  | .assign _ target _ => target.chain + 1
  | _ => 0

mutual

def Expr.longestChain : Expr ι → Nat
  | .ident .. | .str .. | .int .. | .bool .. => 0
  | .unary _ _ operand => operand.longestChain
  | .binary _ _ left right => max (left.chain + 1) (max left.longestChain right.longestChain)
  | .cond _ condition consequence none => max condition.longestChain consequence.longestChain
  | .cond _ condition consequence (some alternative) =>
    max condition.longestChain (max consequence.longestChain alternative.longestChain)
  | .function _ fn => fn.longestChain
  | .call _ callee args => max (callee.chain + 1) (max callee.longestChain (longestChainExprs args))
  | .index _ container key =>
    max (container.chain + 1) (max container.longestChain key.longestChain)
  | .assign _ target value => max (target.chain + 1) (max target.longestChain value.longestChain)
  | .object _ _ properties => longestChainProperties properties
  | .array _ _ elements => longestChainExprs elements

def Stmt.longestChain : Stmt ι → Nat
  | .declare _ _ _ none => 0
  | .declare _ _ _ (some value) => value.longestChain
  | .function _ _ fn => fn.longestChain
  | .ret _ value => value.longestChain
  | .expr _ value => value.longestChain

def Block.longestChain : Block ι → Nat
  | ⟨_, statements⟩ => longestChainStmts statements

def Function.longestChain : Function ι → Nat
  | ⟨_, _, _, _, body⟩ => body.longestChain

def longestChainExprs : List (Expr ι) → Nat
  | [] => 0
  | e :: es => max e.longestChain (longestChainExprs es)

def longestChainStmts : List (Stmt ι) → Nat
  | [] => 0
  | s :: ss => max s.longestChain (longestChainStmts ss)

def longestChainProperties : List (Property (Option (Expr ι))) → Nat
  | [] => 0
  | ⟨_, _, none⟩ :: ps => longestChainProperties ps
  | ⟨_, _, some value⟩ :: ps => max value.longestChain (longestChainProperties ps)

end

/-- The length of the longest chain in the program. -/
def Program.longestChain (p : Program ι) : Nat := longestChainStmts p.statements

theorem Expr.chain_le_longestChain (e : Expr ι) : e.chain ≤ e.longestChain := by
  cases e with
  | binary | call | index | assign =>
    rw [chain, longestChain]
    exact Nat.le_max_left ..
  | _ => exact Nat.zero_le _

/-- A chain is nested. -/
theorem Expr.chain_lt_height : ∀ e : Expr ι, e.chain < e.height
  | .binary _ _ left _ | .call _ left _ | .index _ left _ | .assign _ left _ => by
    have h := chain_lt_height left
    rw [chain, height]
    omega
  | .cond _ _ _ none | .cond _ _ _ (some _) => Nat.succ_pos _
  | .ident .. | .str .. | .int .. | .bool .. | .unary .. | .function .. | .object .. | .array .. =>
    Nat.succ_pos _

mutual

theorem Expr.longestChain_lt_height : ∀ e : Expr ι, e.longestChain < e.height
  | .ident .. | .str .. | .int .. | .bool .. => Nat.one_pos
  | .unary _ _ operand => Nat.lt_succ_of_lt operand.longestChain_lt_height
  | .binary _ _ left right => by
    have hchain := left.chain_lt_height
    have hleft := left.longestChain_lt_height
    have hright := right.longestChain_lt_height
    rw [Expr.longestChain, Expr.height]
    omega
  | .cond _ condition consequence none => by
    have hcondition := condition.longestChain_lt_height
    have hconsequence := consequence.longestChain_le_height
    rw [Expr.longestChain, Expr.height]
    omega
  | .cond _ condition consequence (some alternative) => by
    have hcondition := condition.longestChain_lt_height
    have hconsequence := consequence.longestChain_le_height
    have halternative := alternative.longestChain_le_height
    rw [Expr.longestChain, Expr.height]
    omega
  | .function _ fn => Nat.lt_succ_of_le fn.longestChain_le_height
  | .call _ callee args => by
    have hchain := callee.chain_lt_height
    have hcallee := callee.longestChain_lt_height
    have hargs := longestChainExprs_le_height args
    rw [Expr.longestChain, Expr.height]
    omega
  | .index _ container key => by
    have hchain := container.chain_lt_height
    have hcontainer := container.longestChain_lt_height
    have hkey := key.longestChain_lt_height
    rw [Expr.longestChain, Expr.height]
    omega
  | .assign _ target value => by
    have hchain := target.chain_lt_height
    have htarget := target.longestChain_lt_height
    have hvalue := value.longestChain_lt_height
    rw [Expr.longestChain, Expr.height]
    omega
  | .object _ _ properties => Nat.lt_succ_of_le (longestChainProperties_le_height properties)
  | .array _ _ elements => Nat.lt_succ_of_le (longestChainExprs_le_height elements)

theorem Stmt.longestChain_lt_height : ∀ x : Stmt ι, x.longestChain < x.height
  | .declare _ _ _ none => Nat.one_pos
  | .declare _ _ _ (some value) => Nat.lt_succ_of_lt value.longestChain_lt_height
  | .function _ _ fn => Nat.lt_succ_of_le fn.longestChain_le_height
  | .ret _ value => Nat.lt_succ_of_lt value.longestChain_lt_height
  | .expr _ value => Nat.lt_succ_of_lt value.longestChain_lt_height

theorem Block.longestChain_le_height : ∀ b : Block ι, b.longestChain ≤ b.height
  | ⟨_, statements⟩ => longestChainStmts_le_height statements

theorem Function.longestChain_le_height : ∀ fn : Function ι, fn.longestChain ≤ fn.height
  | ⟨_, _, _, _, body⟩ => body.longestChain_le_height

theorem longestChainExprs_le_height : ∀ es : List (Expr ι), longestChainExprs es ≤ heightExprs es
  | [] => Nat.le_refl 0
  | e :: es => by
    have he := e.longestChain_lt_height
    have hes := longestChainExprs_le_height es
    rw [longestChainExprs, heightExprs]
    omega

theorem longestChainStmts_le_height : ∀ xs : List (Stmt ι), longestChainStmts xs ≤ heightStmts xs
  | [] => Nat.le_refl 0
  | x :: xs => by
    have hx := x.longestChain_lt_height
    have hxs := longestChainStmts_le_height xs
    rw [longestChainStmts, heightStmts]
    omega

theorem longestChainProperties_le_height :
    ∀ ps : List (Property (Option (Expr ι))), longestChainProperties ps ≤ heightProperties ps
  | [] => Nat.le_refl 0
  | ⟨_, _, none⟩ :: ps => longestChainProperties_le_height ps
  | ⟨_, _, some value⟩ :: ps => by
    have hvalue := value.longestChain_lt_height
    have hps := longestChainProperties_le_height ps
    rw [longestChainProperties, heightProperties]
    omega

end

namespace Parser

variable {s u : State} {inner : Rules} {n m k l a b : Nat}

/-! ### The room that nesting leaves -/

/-- How high what is read can get over `m` levels of nesting when no chain is longer than `k`:
at each level a chain of that length, and two more for an `if` behind `else`, which is put into
a statement. -/
def room (k m : Nat) : Nat := (k + 2) * m

theorem room_mono (h : k ≤ l) : room k m ≤ room l m :=
  Nat.mul_le_mul_right m (Nat.add_le_add_right h 2)

theorem room_succ (k m : Nat) : room k (m + 1) = room k m + k + 2 := by
  unfold room
  rw [Nat.mul_succ]
  omega

theorem max_le_room (ha : a ≤ room k m) (hb : b ≤ room l m) : max a b ≤ room (max k l) m := by
  have hk : room k m ≤ room (max k l) m := room_mono (Nat.le_max_left ..)
  have hl : room l m ≤ room (max k l) m := room_mono (Nat.le_max_right ..)
  omega

/-- What the rules read is no higher than nesting leaves room for. -/
structure Rules.Low (inner : Rules) (m : Nat) : Prop where
  statement : ∀ {s u : State} {x : Stmt Unit}, inner.statement s = .ok x u →
    x.height ≤ room x.longestChain m
  expression : ∀ {floor : Precedence} {s u : State} {e : Expr Unit},
    inner.expression floor s = .ok e u → e.height ≤ room e.longestChain m
  conditional : ∀ {s u : State} {e : Expr Unit}, inner.conditional s = .ok e u →
    e.height ≤ room e.longestChain m

section

variable (h : inner.Low m)
include h

theorem blockStatements_low {xs : List (Stmt Unit)} (hr : blockStatements inner n s = .ok xs u) :
    heightStmts xs ≤ room (longestChainStmts xs) m := by
  induction n generalizing s xs with
  | zero =>
    obtain ⟨rfl, -⟩ := pure_ok.1 hr
    exact Nat.zero_le _
  | succ n ih =>
    rw [blockStatements_ok] at hr
    split at hr
    · obtain ⟨rfl, -⟩ := hr
      exact Nat.zero_le _
    · split at hr
      next x t hx =>
        obtain ⟨xs, hxs, rfl⟩ := hr
        rw [heightStmts, longestChainStmts]
        exact max_le_room (h.statement hx) (ih hxs)
      next =>
        split at hr
        · obtain ⟨rfl, -⟩ := hr
          exact Nat.zero_le _
        · exact ih hr

theorem block_low {x : Block Unit} (hr : block inner s = .ok x u) :
    x.height ≤ room x.longestChain m := by
  obtain ⟨xs, t, hxs, -, rfl⟩ := block_ok.1 hr
  exact blockStatements_low h hxs

theorem function_low {fn : Function Unit} (hr : function inner s = .ok fn u) :
    fn.height ≤ room fn.longestChain m := by
  obtain ⟨x, t, xs, v, b, -, -, -, -, hb, rfl⟩ := function_ok.1 hr
  exact block_low h hb

theorem moreExpressions_low {close : TokenKind} {es : List (Expr Unit)}
    (hr : moreExpressions inner close n s = .ok es u) :
    heightExprs es ≤ room (longestChainExprs es) m := by
  induction n generalizing s es with
  | zero =>
    obtain ⟨rfl, -⟩ := pure_ok.1 hr
    exact Nat.zero_le _
  | succ n ih =>
    rw [moreExpressions_ok] at hr
    split at hr
    · split at hr
      · obtain ⟨rfl, -⟩ := hr
        exact Nat.zero_le _
      · obtain ⟨e, t, es, he, hes, rfl⟩ := hr
        rw [heightExprs, longestChainExprs]
        exact max_le_room (h.expression he) (ih hes)
    · obtain ⟨rfl, -⟩ := hr
      exact Nat.zero_le _

theorem expressions_low {close : TokenKind} {es : List (Expr Unit)}
    (hr : expressions inner close s = .ok es u) :
    heightExprs es ≤ room (longestChainExprs es) m := by
  rw [expressions_ok] at hr
  split at hr
  · obtain ⟨rfl, -⟩ := hr
    exact Nat.zero_le _
  · obtain ⟨e, t, es, v, he, hes, -, -, rfl⟩ := hr
    rw [heightExprs, longestChainExprs]
    exact max_le_room (h.expression he) (moreExpressions_low h hes)

omit h in
theorem heightProperties_cons_le {p : Property (Option (Expr Unit))}
    {ps : List (Property (Option (Expr Unit)))}
    (hp : ∀ e ∈ p.value, e.height ≤ room e.longestChain m)
    (hps : heightProperties ps ≤ room (longestChainProperties ps) m) :
    heightProperties (p :: ps) ≤ room (longestChainProperties (p :: ps)) m := by
  obtain ⟨span, key, value⟩ := p
  cases value with
  | none => exact hps
  | some e =>
    rw [heightProperties, longestChainProperties]
    exact max_le_room (hp e rfl) hps

theorem propertyValue_low {x : Option (Expr Unit)} (hr : propertyValue inner s = .ok x u) :
    ∀ e ∈ x, e.height ≤ room e.longestChain m := by
  rw [propertyValue_ok] at hr
  split at hr
  · obtain ⟨e, he, rfl⟩ := hr
    rintro _ ⟨⟩
    exact h.expression he
  · obtain ⟨rfl, -⟩ := hr
    exact nofun

theorem properties_low {ps : List (Property (Option (Expr Unit)))}
    (hr : properties inner n s = .ok ps u) :
    heightProperties ps ≤ room (longestChainProperties ps) m := by
  induction n generalizing s ps with
  | zero =>
    obtain ⟨rfl, -⟩ := pure_ok.1 hr
    exact Nat.zero_le _
  | succ n ih =>
    rw [properties_ok] at hr
    split at hr
    · obtain ⟨rfl, -⟩ := hr
      exact Nat.zero_le _
    · obtain ⟨-, x, t, hx, hr⟩ := hr
      have hx := propertyValue_low h hx
      split at hr
      · obtain ⟨ps, hps, rfl⟩ := hr
        exact heightProperties_cons_le hx (ih hps)
      · obtain ⟨-, -, rfl⟩ := hr
        exact heightProperties_cons_le hx (Nat.zero_le _)

/-- An `if` behind `else` is put into a statement of its own. -/
theorem alternative_low {x : Option (Block Unit)} (hr : alternative inner s = .ok x u) :
    ∀ b ∈ x, b.height ≤ room b.longestChain m + 1 := by
  rw [alternative_ok] at hr
  split at hr
  · split at hr
    · obtain ⟨e, he, rfl⟩ := hr
      rintro _ ⟨⟩
      have hlow := h.conditional he
      show max (e.height + 1) 0 ≤ room (max e.longestChain 0) m + 1
      rw [Nat.max_zero, Nat.max_zero]
      exact Nat.succ_le_succ hlow
    · obtain ⟨-, b, hb, rfl⟩ := hr
      rintro _ ⟨⟩
      exact Nat.le_succ_of_le (block_low h hb)
  · obtain ⟨rfl, -⟩ := hr
    exact nofun

theorem conditional_low {e : Expr Unit} (hr : conditional inner s = .ok e u) :
    e.height ≤ room e.longestChain m + 2 := by
  obtain ⟨c, t, b, v, a, -, hc, -, -, hb, ha, rfl⟩ := conditional_ok.1 hr
  have hc := h.expression hc
  have hb := block_low h hb
  have hcb := max_le_room hc hb
  cases a with
  | none =>
    rw [Expr.height, Expr.longestChain]
    omega
  | some a =>
    have ha := alternative_low h ha a rfl
    have ha' := Nat.sub_le_of_le_add ha
    have hcba := max_le_room hc (max_le_room hb ha')
    rw [Expr.height, Expr.longestChain]
    omega

/-! ### Expressions that grow in the loop -/

/-- The expression is as high as its own chain on top of what nesting leaves room for. -/
def Grown (m : Nat) (e : Expr Unit) : Prop := e.height ≤ room e.longestChain m + 2 + e.chain

omit h in
theorem Grown.of_le {e : Expr Unit} (hle : e.height ≤ room e.longestChain m + 2) : Grown m e :=
  Nat.le_trans hle (Nat.le_add_right ..)

omit h in
theorem Grown.withSpan {e : Expr Unit} (hg : Grown m e) (span : Span) :
    Grown m (e.withSpan span) := by
  cases e with
  | cond _ c b a => cases a <;> exact hg
  | _ => exact hg

theorem operand_grown {e : Expr Unit} (hr : operand inner s = .ok e u) : Grown m e := by
  rw [operand_ok] at hr
  split at hr
  case h_1 | h_4 | h_5 =>
    obtain ⟨-, rfl⟩ := hr
    exact .of_le (Nat.succ_le_succ (Nat.zero_le _))
  case h_2 =>
    obtain ⟨-, -, rfl⟩ := integer_ok.1 hr
    exact .of_le (Nat.succ_le_succ (Nat.zero_le _))
  case h_3 =>
    obtain ⟨-, rfl⟩ := string_ok.1 hr
    exact .of_le (Nat.succ_le_succ (Nat.zero_le _))
  case h_6 | h_7 =>
    obtain ⟨x, hx, rfl⟩ := unary_ok.1 hr
    exact .of_le (Nat.le_succ_of_le (Nat.succ_le_succ (h.expression hx)))
  case h_8 =>
    obtain ⟨x, t, hx, -, -, rfl⟩ := group_ok.1 hr
    exact (Grown.of_le (Nat.le_add_right_of_le (h.expression hx))).withSpan _
  case h_9 =>
    obtain ⟨ps, hps, rfl⟩ := object_ok.1 hr
    exact .of_le (Nat.le_succ_of_le (Nat.succ_le_succ (properties_low h hps)))
  case h_10 =>
    obtain ⟨es, hes, rfl⟩ := array_ok.1 hr
    exact .of_le (Nat.le_succ_of_le (Nat.succ_le_succ (expressions_low h hes)))
  case h_11 => exact .of_le (conditional_low h hr)
  case h_12 =>
    obtain ⟨fn, hfn, rfl⟩ := hr
    exact .of_le (Nat.le_succ_of_le (Nat.succ_le_succ (function_low h hfn)))
  case h_13 => exact absurd hr id

/-- One round adds one to the chain on the left, and what stands on the right is nested. -/
theorem operation_grown {left e : Expr Unit} (hg : Grown m left)
    (hr : operation inner left s = .ok e u) : Grown m e := by
  unfold Grown at hg
  have hstep {height right chain longest : Nat} (hright : right ≤ room chain m)
      (hheight : height = max left.height right + 1)
      (hlongest : longest = max (left.chain + 1) (max left.longestChain chain)) :
      height ≤ room longest m + 2 + (left.chain + 1) := by
    have hl : room left.longestChain m ≤ room longest m := room_mono (by omega)
    have hr : room chain m ≤ room longest m := room_mono (by omega)
    omega
  rw [operation_ok] at hr
  split at hr
  case h_1 =>
    obtain ⟨args, hargs, rfl⟩ := hr
    exact hstep (expressions_low h hargs) rfl rfl
  case h_2 =>
    obtain ⟨k, t, hk, -, -, rfl⟩ := hr
    exact hstep (h.expression hk) rfl rfl
  case h_3 =>
    obtain ⟨v, hv, rfl⟩ := hr
    exact hstep (h.expression hv) rfl rfl
  case h_4 =>
    split at hr
    · obtain ⟨r, hr, rfl⟩ := hr
      exact hstep (h.expression hr) rfl rfl
    · obtain ⟨rfl, -⟩ := hr
      exact hg

theorem operations_grown {floor : Precedence} {left e : Expr Unit} (hg : Grown m left)
    (hr : operations inner floor n left s = .ok e u) : Grown m e := by
  induction n generalizing left s with
  | zero =>
    obtain ⟨rfl, -⟩ := pure_ok.1 hr
    exact hg
  | succ n ih =>
    rw [operations_ok] at hr
    split at hr
    · obtain ⟨x, t, hx, hr⟩ := hr
      exact ih (operation_grown h hg hx) hr
    · obtain ⟨rfl, -⟩ := hr
      exact hg

theorem expression_low {floor : Precedence} {e : Expr Unit}
    (hr : expression inner floor s = .ok e u) : e.height ≤ room e.longestChain (m + 1) := by
  obtain ⟨x, t, hx, hr⟩ := expression_ok.1 hr
  have hg : e.height ≤ room e.longestChain m + 2 + e.chain :=
    operations_grown h (operand_grown h hx) hr
  have hchain := e.chain_le_longestChain
  rw [room_succ]
  omega

/-! ### Statements -/

theorem declaration_low {x : Stmt Unit} (hr : declaration inner s = .ok x u) :
    x.height ≤ room x.longestChain m + 1 := by
  obtain ⟨-, hr⟩ := declaration_ok.1 hr
  split at hr
  · obtain ⟨-, rfl⟩ := hr
    exact Nat.succ_le_succ (Nat.zero_le _)
  · obtain ⟨-, e, t, he, -, -, rfl⟩ := hr
    exact Nat.succ_le_succ (h.expression he)

theorem expressionStatement_low {x : Stmt Unit} (hr : expressionStatement inner s = .ok x u) :
    x.height ≤ room x.longestChain m + 1 := by
  obtain ⟨e, t, he, -, rfl⟩ := expressionStatement_ok.1 hr
  exact Nat.succ_le_succ (h.expression he)

theorem statement_low {x : Stmt Unit} (hr : statement inner s = .ok x u) :
    x.height ≤ room x.longestChain m + 1 := by
  rw [statement_run] at hr
  split at hr
  · exact declaration_low h hr
  · exact declaration_low h hr
  · obtain ⟨-, e, t, he, -, rfl⟩ := returnStatement_ok.1 hr
    exact Nat.succ_le_succ (h.expression he)
  · split at hr
    · obtain ⟨fn, t, hfn, -, rfl⟩ := functionStatement_ok.1 hr
      exact Nat.succ_le_succ (function_low h hfn)
    · exact expressionStatement_low h hr
  · exact expressionStatement_low h hr

theorem programStatements_low {xs : List (Stmt Unit)}
    (hr : programStatements inner n s = .ok xs u) :
    heightStmts xs ≤ room (longestChainStmts xs) m := by
  induction n generalizing s xs with
  | zero =>
    obtain ⟨rfl, -⟩ := pure_ok.1 hr
    exact Nat.zero_le _
  | succ n ih =>
    rw [programStatements_ok] at hr
    split at hr
    · obtain ⟨rfl, -⟩ := hr
      exact Nat.zero_le _
    · split at hr
      next x t hx =>
        obtain ⟨xs, hxs, rfl⟩ := hr
        rw [heightStmts, longestChainStmts]
        exact max_le_room (h.statement hx) (ih hxs)
      next => exact ih hr

end

/-- At each level the room grows by what a level can add. -/
theorem level_low : ∀ n, (level n).Low n
  | 0 => ⟨fun hr => absurd hr refuse_ok, fun hr => absurd hr refuse_ok,
      fun hr => absurd hr refuse_ok⟩
  | n + 1 => by
    have h := level_low n
    refine ⟨fun hr => ?_, fun hr => expression_low h hr, fun hr => ?_⟩
    · have hle := statement_low h hr
      rw [room_succ]
      omega
    · have hle := conditional_low h hr
      rw [room_succ]
      omega

end Parser

/-! ### Every source -/

theorem parse_height_le (source : String) :
    (parse source).1.height ≤ ((parse source).1.longestChain + 2) * Parser.maxNesting := by
  unfold parse parseAs Parser.State.readProgram
  cases hp : Parser.program (Parser.State.ofString source) with
  | error e u => exact Nat.zero_le _
  | ok p u =>
    obtain ⟨xs, hxs, rfl⟩ := Parser.program_ok.1 hp
    exact Parser.programStatements_low (Parser.level_low _) hxs

theorem Program.longestChain_le_height (p : Program ι) : p.longestChain ≤ p.height :=
  longestChainStmts_le_height p.statements

/-! ### Chains of any length -/

theorem Expr.chain_mapSpans (f : Span → Span) : ∀ e : Expr ι, (e.mapSpans f).chain = e.chain
  | .binary _ _ left _ | .call _ left _ | .index _ left _ | .assign _ left _ =>
    congrArg (· + 1) (chain_mapSpans f left)
  | .cond _ _ _ none | .cond _ _ _ (some _) => rfl
  | .ident .. | .str .. | .int .. | .bool .. | .unary .. | .function .. | .object .. | .array .. =>
    rfl

/-- The sum `a + a + … + a` with `k` signs. -/
def sumOf : Nat → Expr Unit
  | 0 => .ident .zero "a"
  | k + 1 => .binary .zero .add (sumOf k) (.ident .zero "a")

theorem sumOf_chain (k : Nat) : (sumOf k).chain = k := by
  induction k with
  | zero => rfl
  | succ k ih => exact congrArg (· + 1) ih

theorem sumOf_isWritable (k : Nat) : (sumOf k).isWritable = true := by
  have hname : isName "a" = true := by decide
  induction k with
  | zero => exact hname
  | succ k ih =>
    show ((sumOf k).isWritable && isName "a") = true
    rw [ih, hname]
    rfl

/-- The loop over signs is not counted, so a sum nests no deeper the longer it is. -/
theorem sumOf_nesting (k : Nat) : (sumOf k).nesting ≤ 2 := by
  induction k with
  | zero => exact Nat.le_succ 1
  | succ k ih =>
    have hlevel : decide ((sumOf k).level < .sum) = false := by
      cases k <;> rfl
    show max (within (decide ((sumOf k).level < .sum)) (sumOf k).nesting) 2 ≤ 2
    rw [hlevel]
    exact Nat.max_le.2 ⟨ih, Nat.le_refl 2⟩

/-- A sum with `k` signs is read without diagnostics, and is higher than `k`. -/
theorem exists_height_gt (k : Nat) :
    ∃ source, (parse source).2 = [] ∧ k < (parse source).1.height := by
  let p : Program Unit := ⟨.zero, [.expr .zero (sumOf k)]⟩
  have hw : p.isWritable = true := by
    show ((sumOf k).isWritable && true) = true
    rw [sumOf_isWritable]
    rfl
  have hn : p.nesting ≤ Parser.maxNesting := by
    have hsum := sumOf_nesting k
    show max ((sumOf k).nesting + 1) 0 ≤ 128
    omega
  obtain ⟨⟨span, xs⟩, hparse, hq⟩ := parse_text p hw hn
  have hxs : xs.map Stmt.eraseSpans = [.expr .zero (sumOf k).eraseSpans] := by
    have h := congrArg Program.statements hq
    rw [← mapSpansStmts_eq_map]
    exact h
  obtain ⟨x, rfl, hx⟩ := List.map_eq_singleton_iff.1 hxs
  refine ⟨p.render, by rw [hparse], ?_⟩
  rw [hparse]
  show k < max x.height 0
  rw [Nat.max_zero]
  cases x with
  | expr span e =>
    have he : e.eraseSpans = (sumOf k).eraseSpans := by
      injection hx
    have hchain : e.chain = k := by
      calc
        e.chain = e.eraseSpans.chain := (e.chain_mapSpans _).symm
        _ = (sumOf k).eraseSpans.chain := by rw [he]
        _ = (sumOf k).chain := Expr.chain_mapSpans _ _
        _ = k := sumOf_chain k
    have hlt := e.chain_lt_height
    show k < e.height + 1
    omega
  | declare span c x v => cases v <;> exact absurd hx nofun
  | function | ret => exact absurd hx nofun

/-- **The limit on nesting bounds heights up to chains, and no further.**  What is read from a
source is at least as high as its longest chain, and at most `maxNesting` times two more than
that.  So over a class `P` of sources one constant bounds all heights just when one constant
bounds all chains. -/
theorem height_bounded_up_to_chains (P : String → Prop) :
    (∀ source, (parse source).1.longestChain ≤ (parse source).1.height ∧
      (parse source).1.height ≤ ((parse source).1.longestChain + 2) * Parser.maxNesting) ∧
    ((∃ K, ∀ source, P source → (parse source).1.height ≤ K) ↔
      ∃ B, ∀ source, P source → (parse source).1.longestChain ≤ B) := by
  have hlow (source : String) := (parse source).1.longestChain_le_height
  constructor
  · intro source
    exact ⟨hlow source, parse_height_le source⟩
  · constructor
    · rintro ⟨K, hK⟩
      exact ⟨K, fun source hP => Nat.le_trans (hlow source) (hK source hP)⟩
    · rintro ⟨B, hB⟩
      refine ⟨(B + 2) * Parser.maxNesting, fun source hP => ?_⟩
      have hchain := Nat.add_le_add_right (hB source hP) 2
      exact Nat.le_trans (parse_height_le source) (Nat.mul_le_mul_right _ hchain)

/-- No constant bounds the heights of all sources. -/
theorem height_not_bounded : ¬∃ K, ∀ source, (parse source).1.height ≤ K := by
  rintro ⟨K, hK⟩
  obtain ⟨source, -, hlt⟩ := exists_height_gt K
  exact absurd (hK source) (Nat.not_le.2 hlt)

end Primer
