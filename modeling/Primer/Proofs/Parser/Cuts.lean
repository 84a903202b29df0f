/-
  Primer/Proofs/Parser/Cuts.lean
  ==============================
  **Every expression of a tree was read by itself, up to where it ends.**

  An expression is an operand with operators behind it, one after another, and each operator takes
  all that was read so far as its left operand.  So every expression in a tree is what a rule had
  in hand at some time: what it started with, and a number of operators (`expressionUpTo`).  That
  holds as well of an `if` behind `else` and of an expression in parentheses, which are operands.

  Such a reading is called a cut (`IsCut`).  It started on a token of the source, it reported
  nothing, and it had no more levels of nesting left than the value of a declaration has.
-/
import Primer.Proofs.Parser.Append
import Primer.Proofs.Parser.Spans

namespace Primer

variable {ι : Type}

/-! ### The expressions of a tree -/

mutual

/-- The expressions inside an expression. -/
def Expr.inside : Expr ι → List (Expr ι)
  | .ident .. => []
  | .str .. => []
  | .int .. => []
  | .bool .. => []
  | .unary _ _ operand => operand :: operand.inside
  | .binary _ _ left right => (left :: left.inside) ++ (right :: right.inside)
  | .cond _ condition consequence none =>
    (condition :: condition.inside) ++ consequence.expressions
  | .cond _ condition consequence (some alternative) =>
    (condition :: condition.inside) ++ (consequence.expressions ++ alternative.expressions)
  | .function _ fn => fn.expressions
  | .call _ callee args => (callee :: callee.inside) ++ expressionsOfExprs args
  | .index _ container key => (container :: container.inside) ++ (key :: key.inside)
  | .assign _ target value => (target :: target.inside) ++ (value :: value.inside)
  | .object _ _ properties => expressionsOfProperties properties
  | .array _ _ elements => expressionsOfExprs elements

def Stmt.expressions : Stmt ι → List (Expr ι)
  | .declare _ _ _ none => []
  | .declare _ _ _ (some value) => value :: value.inside
  | .function _ _ fn => fn.expressions
  | .ret _ value => value :: value.inside
  | .expr _ value => value :: value.inside

def Block.expressions : Block ι → List (Expr ι)
  | ⟨_, statements⟩ => expressionsOfStmts statements

def Function.expressions : Function ι → List (Expr ι)
  | ⟨_, _, _, _, body⟩ => body.expressions

def expressionsOfExprs : List (Expr ι) → List (Expr ι)
  | [] => []
  | e :: es => (e :: e.inside) ++ expressionsOfExprs es

def expressionsOfStmts : List (Stmt ι) → List (Expr ι)
  | [] => []
  | x :: xs => x.expressions ++ expressionsOfStmts xs

def expressionsOfProperties : List (Property (Option (Expr ι))) → List (Expr ι)
  | [] => []
  | ⟨_, _, none⟩ :: ps => expressionsOfProperties ps
  | ⟨_, _, some value⟩ :: ps => (value :: value.inside) ++ expressionsOfProperties ps

end

/-- All expressions of a program, at any depth. -/
def Program.expressions (p : Program ι) : List (Expr ι) := expressionsOfStmts p.statements

/-- Parentheses do not change what is inside of an expression. -/
theorem Expr.inside_withSpan (span : Span) (e : Expr ι) : (e.withSpan span).inside = e.inside := by
  cases e with
  | cond _ _ _ a =>
    cases a <;>
      rw [Expr.withSpan, Expr.inside, Expr.inside]
  | _ => rw [Expr.withSpan, Expr.inside, Expr.inside]

namespace Parser

variable {α β : Type} {source : String} {s t u : State} {inner : Rules} {n : Nat}

/-! ### Cuts -/

/-- An operand and at most `n` operators behind it, as loose as they may be. -/
def expressionUpTo (inner : Rules) (n : Nat) : Rule (Expr Unit) := do
  let left ← operand inner
  operations inner .lowest n left

theorem expressionUpTo_ok {e : Expr Unit} : expressionUpTo inner n s = .ok e u ↔
    ∃ x t, operand inner s = .ok x t ∧ operations inner .lowest n x t = .ok e u := bind_ok

theorem expressionUpTo_moves (hm : inner.Move) : Moves (expressionUpTo inner n) :=
  .bind (operand_moves hm) fun x => operations_moves hm .lowest n x

/-- The expression was read in the source, without diagnostics. -/
def IsCut (source : String) (e : Expr Unit) : Prop :=
  ∃ m n s u, m + 2 ≤ maxNesting ∧ s.On source ∧ expressionUpTo (level m) n s = .ok e u ∧
    u.diagnostics = []

/-- The expressions that are all cuts. -/
def AllCut (source : String) (es : List (Expr Unit)) : Prop := ∀ e ∈ es, IsCut source e

/-- An expression is a cut, and all expressions inside it are. -/
def CutThrough (source : String) (e : Expr Unit) : Prop := AllCut source (e :: e.inside)

namespace AllCut

variable {es fs : List (Expr Unit)}

theorem nil : AllCut source [] := nofun

theorem append (he : AllCut source es) (hf : AllCut source fs) : AllCut source (es ++ fs) :=
  List.forall_mem_append.2 ⟨he, hf⟩

theorem cons {e : Expr Unit} (he : IsCut source e) (hes : AllCut source es) :
    AllCut source (e :: es) :=
  List.forall_mem_cons.2 ⟨he, hes⟩

end AllCut

/-! ### What is read without diagnostics -/

/-- What the rule gives without diagnostics is as described. -/
structure Gives (source : String) (P : α → Prop) (x : Rule α) : Prop where
  moves : Moves x
  ok : ∀ {s a u}, s.On source → x s = .ok a u → u.diagnostics = [] → P a

namespace Gives

variable {P : α → Prop} {Q : β → Prop} {x : Rule α} {f : α → Rule β}

theorem pure {a : α} (h : P a) : Gives source P (pure a) where
  moves := .pure a
  ok _ hx _ := by
    obtain ⟨rfl, -⟩ := pure_ok.1 hx
    exact h

theorem bind (hx : Gives source P x) (hf : ∀ a, Gives source (fun b => P a → Q b) (f a)) :
    Gives source Q (x >>= f) where
  moves := .bind hx.moves fun a => (hf a).moves
  ok hs hr hclean := by
    obtain ⟨a, t, hr, hrest⟩ := bind_ok.1 hr
    have ht := hs.leads (hx.moves.ok hr)
    exact (hf a).ok ht hrest hclean (hx.ok hs hr (((hf a).moves.ok hrest).clean hclean))

/-- A part of which nothing has to be known. -/
theorem step (hx : Moves x) (hf : ∀ a, Gives source Q (f a)) : Gives source Q (x >>= f) where
  moves := .bind hx fun a => (hf a).moves
  ok hs hr hclean := by
    obtain ⟨a, t, hr, hrest⟩ := bind_ok.1 hr
    exact (hf a).ok (hs.leads (hx.ok hr)) hrest hclean

theorem ite {c : Prop} [Decidable c] {y : Rule α} (hx : Gives source P x)
    (hy : Gives source P y) : Gives source P (if c then x else y) := by
  split
  · exact hx
  · exact hy

theorem imp {P' : α → Prop} (h : Gives source P x) (hP : ∀ a, P a → P' a) :
    Gives source P' x where
  moves := h.moves
  ok hs hx hclean := hP _ (h.ok hs hx hclean)

theorem fail (span : Span) (p : Problem) : Gives source P (fail span p : Rule α) where
  moves := .fail span p
  ok _ hx _ := absurd hx fail_ok

theorem attempt (h : Gives source P x) :
    Gives source (fun r => ∀ a ∈ r, P a) (attempt x) where
  moves := .attempt h.moves
  ok {s r u} hs hx hclean a ha := by
    unfold Parser.attempt at hx
    split at hx
    next b t hb =>
      obtain ⟨rfl, rfl⟩ := EStateM.Result.ok.inj hx
      cases ha
      exact h.ok hs hb hclean
    next =>
      obtain ⟨rfl, -⟩ := EStateM.Result.ok.inj hx
      cases ha

end Gives

/-- All expressions in what the rules read are cuts. -/
structure Rules.Cut (source : String) (r : Rules) : Prop where
  statement : Gives source (fun x => AllCut source x.expressions) r.statement
  expression : ∀ floor, Gives source (CutThrough source) (r.expression floor)
  conditional : ∀ {s e u}, s.On source → s.current.kind = .ifKw → r.conditional s = .ok e u →
    u.diagnostics = [] → CutThrough source e

section

variable (h : inner.Cut source) (hm : inner.Move)

/-! ### Blocks and functions -/

include h in
theorem blockStatements_cuts : ∀ n,
    Gives source (fun xs => AllCut source (expressionsOfStmts xs)) (blockStatements inner n)
  | 0 => .pure .nil
  | n + 1 => by
    refine .step .current fun t => .ite (.pure .nil) (.bind h.statement.attempt fun r => ?_)
    cases r with
    | some x =>
      refine .step .advance fun _ => .bind (blockStatements_cuts n) fun xs => .pure fun hxs hx => ?_
      exact (hx x rfl).append hxs
    | none =>
      exact .step .synchronize fun _ => .step .current fun _ => .ite (.pure fun _ => .nil)
        (.step .advance fun _ => (blockStatements_cuts n).imp fun _ hxs _ => hxs)

include h in
theorem block_cuts : Gives source (fun b => AllCut source b.expressions) (block inner) :=
  .step .current fun _ => .step .advance fun _ => .step .roundsLeft fun n =>
    .bind (blockStatements_cuts h n) fun _ => .step .current fun _ =>
      .ite (.step (.report _ _) fun _ => .step (.spanFrom _) fun _ => .pure id)
        (.step (.spanFrom _) fun _ => .pure id)

include h in
theorem function_cuts : Gives source (fun fn => AllCut source fn.expressions) (function inner) :=
  .step .current fun _ => .step functionName_moves fun _ => .step (.expect _ _) fun _ =>
    .step parameters_moves fun _ => .step (.expect _ _) fun _ => .bind (block_cuts h) fun _ =>
      .step (.spanFrom _) fun _ => .pure id

/-! ### Lists and entries -/

include h in
theorem moreExpressions_cuts (close : TokenKind) : ∀ n,
    Gives source (fun es => AllCut source (expressionsOfExprs es)) (moreExpressions inner close n)
  | 0 => .pure .nil
  | n + 1 => .step (.peekIs _) fun _ => .ite
      (.step .advance fun _ => .step (.peekIs _) fun _ => .ite (.pure .nil)
        (.step .advance fun _ => .bind (h.expression _) fun _ =>
          .bind (moreExpressions_cuts close n) fun _ => .pure fun hes he => he.append hes))
      (.pure .nil)

include h in
theorem expressions_cuts (close : TokenKind) :
    Gives source (fun es => AllCut source (expressionsOfExprs es)) (expressions inner close) :=
  .step (.peekIs _) fun _ => .ite (.step .advance fun _ => .pure .nil)
    (.step .advance fun _ => .bind (h.expression _) fun _ => .step .roundsLeft fun n =>
      .bind (moreExpressions_cuts h close n) fun _ => .step (.expect _ _) fun _ =>
        .pure fun hes he => he.append hes)

include h in
theorem propertyValue_cuts :
    Gives source (fun v => ∀ e ∈ v, CutThrough source e) (propertyValue inner) :=
  .step (.peekIs _) fun _ => .ite
    (.step .advance fun _ => .step .advance fun _ => .bind (h.expression _) fun _ =>
      .pure fun he _ heq => Option.some.inj heq ▸ he)
    (.pure nofun)

theorem allCut_properties_cons {span : Span} {key : Ident} {v : Option (Expr Unit)}
    {ps : List (Property (Option (Expr Unit)))} (hv : ∀ e ∈ v, CutThrough source e)
    (hps : AllCut source (expressionsOfProperties ps)) :
    AllCut source (expressionsOfProperties (⟨span, key, v⟩ :: ps)) := by
  cases v with
  | none =>
    rw [expressionsOfProperties]
    exact hps
  | some e =>
    rw [expressionsOfProperties]
    exact (hv e rfl).append hps

include h in
theorem properties_cuts : ∀ n,
    Gives source (fun ps => AllCut source (expressionsOfProperties ps)) (properties inner n)
  | 0 => .pure .nil
  | n + 1 => .step (.peekIs _) fun _ => .ite (.step .advance fun _ => .pure .nil)
      (.step (.expect _ _) fun _ => .step .identifier fun _ => .bind (propertyValue_cuts h) fun _ =>
        .step (.spanFrom _) fun _ => .step (.peekIs _) fun _ => .ite
          (.step .advance fun _ => .bind (properties_cuts n) fun _ =>
            .pure fun hps hv => allCut_properties_cons hv hps)
          (.step (.expect _ _) fun _ => .pure fun hv => allCut_properties_cons hv .nil))

/-! ### Operands -/

include h hm in
/-- An `if` behind `else` is a cut by itself. -/
theorem alternative_cuts :
    Gives source (fun a => ∀ b ∈ a, AllCut source b.expressions) (alternative inner) where
  moves := alternative_moves hm
  ok {s a u} hs hr hclean b hb := by
    rw [alternative_ok] at hr
    split at hr
    · split at hr
      next hif =>
        obtain ⟨e, hr, rfl⟩ := hr
        cases hb
        have hkind : s.advance.advance.current.kind = .ifKw := by
          rw [State.advance_current]
          exact hif
        have he := h.conditional hs.advance.advance hkind hr hclean
        rw [Block.expressions, expressionsOfStmts, Stmt.expressions, expressionsOfStmts,
          List.append_nil]
        exact he
      next =>
        obtain ⟨-, c, hr, rfl⟩ := hr
        cases hb
        exact (block_cuts h).ok hs.advance.advance hr hclean
    · obtain ⟨rfl, -⟩ := hr
      cases hb

include h hm in
theorem conditional_cuts :
    Gives source (fun e => AllCut source e.inside) (conditional inner) := by
  refine .step .current fun _ => .step (.expect _ _) fun _ => .step .advance fun _ =>
    .bind (h.expression _) fun c => .step (.expect _ _) fun _ => .step (.expect _ _) fun _ =>
      .bind (block_cuts h) fun b => .bind (alternative_cuts h hm) fun a =>
        .step (.spanFrom _) fun _ => .pure fun ha hb hc => ?_
  cases a with
  | none =>
    rw [Expr.inside]
    exact hc.append hb
  | some a =>
    rw [Expr.inside]
    exact hc.append (hb.append (ha a rfl))

include h hm in
theorem operand_cuts : Gives source (fun e => AllCut source e.inside) (operand inner) := by
  have hunary (op : UnaryOp) : Gives source (fun e => AllCut source e.inside) (unary inner op) :=
    .step .current fun _ => .step .advance fun _ => .bind (h.expression _) fun _ =>
      .step (.spanFrom _) fun _ => .pure fun he => by rw [Expr.inside]; exact he
  refine .step .current fun t => ?_
  cases t.kind with
  | ident | trueKw | falseKw => exact .pure (by rw [Expr.inside]; exact .nil)
  | int =>
    exact .step .current fun _ => .ite (.pure (by rw [Expr.inside]; exact .nil)) (.fail _ _)
  | string =>
    have hstring (span : Span) (text : String) :
        Gives source (fun e => AllCut source e.inside) (pure (.str span text) : Rule (Expr Unit)) :=
      .pure (by rw [Expr.inside]; exact .nil)
    exact .step .current fun _ => .ite (.step (.report _ _) fun _ => hstring _ _) (hstring _ _)
  | bang | minus => exact hunary _
  | lparen =>
    refine .step .current fun _ => .step .advance fun _ => .bind (h.expression _) fun e =>
      .step (.expect _ _) fun _ => .step (.spanFrom _) fun _ => .pure fun he => ?_
    rw [Expr.inside_withSpan]
    exact (List.forall_mem_cons.1 he).2
  | lbrace =>
    refine .step .current fun _ => .step .roundsLeft fun n => .bind (properties_cuts h n) fun _ =>
      .step (.spanFrom _) fun _ => .pure fun hps => ?_
    rw [Expr.inside]
    exact hps
  | lbracket =>
    refine .step .current fun _ => .bind (expressions_cuts h _) fun _ =>
      .step (.spanFrom _) fun _ => .pure fun hes => ?_
    rw [Expr.inside]
    exact hes
  | ifKw => exact conditional_cuts h hm
  | functionKw =>
    refine .bind (function_cuts h) fun _ => .pure fun hfn => ?_
    rw [Expr.inside]
    exact hfn
  | _ => exact .fail _ _

/-! ### Operators -/

include h in
/-- An operator takes what was read so far as it is. -/
theorem operation_cuts (left : Expr Unit) :
    Gives source (fun e => CutThrough source left → AllCut source e.inside)
      (operation inner left) := by
  have hbinary (floor : Precedence) (op : BinaryOp) :
      Gives source (fun e => CutThrough source left → AllCut source e.inside) (do
        advance
        let right ← inner.expression floor
        return .binary (← spanFrom left.span.start) op left right : Rule (Expr Unit)) :=
    .step .advance fun _ => .bind (h.expression _) fun _ => .step (.spanFrom _) fun _ =>
      .pure fun hr hl => by rw [Expr.inside]; exact hl.append hr
  refine .step .current fun t => ?_
  cases t.kind with
  | lparen =>
    refine .bind (expressions_cuts h _) fun _ => .step (.spanFrom _) fun _ => .pure fun hes hl => ?_
    rw [Expr.inside]
    exact hl.append hes
  | lbracket =>
    refine .step .advance fun _ => .bind (h.expression _) fun _ => .step (.expect _ _) fun _ =>
      .step (.spanFrom _) fun _ => .pure fun hk hl => ?_
    rw [Expr.inside]
    exact hl.append hk
  | assign =>
    refine .step .advance fun _ => .bind (h.expression _) fun _ =>
      .step (.spanFrom _) fun _ => .pure fun hv hl => ?_
    rw [Expr.inside]
    exact hl.append hv
  | plus | minus | asterisk | slash | lt | lte | gt | gte | eq | notEq => exact hbinary _ _
  | _ => exact .pure fun hl => (List.forall_mem_cons.1 hl).2

end

/-- One more operator behind those that were read. -/
theorem operations_snoc {x left y : Expr Unit} {v : State}
    (hr : operations inner .lowest n x s = .ok left t)
    (hpeek : Precedence.lowest < .of t.peek.kind) (hy : operation inner left t.advance = .ok y v) :
    operations inner .lowest (n + 1) x s = .ok y v := by
  induction n generalizing x s with
  | zero =>
    obtain ⟨rfl, rfl⟩ := pure_ok.1 hr
    rw [operations_ok, if_pos hpeek]
    exact ⟨y, v, hy, rfl⟩
  | succ n ih =>
    rw [operations_ok] at hr ⊢
    split at hr
    next hgo =>
      obtain ⟨z, w, hz, hr⟩ := hr
      rw [if_pos hgo]
      exact ⟨z, w, hz, ih hr⟩
    next hstop =>
      obtain ⟨rfl, rfl⟩ := hr
      exact absurd hpeek hstop

/-- Operators keep it so that what was read up to now is a cut. -/
theorem operations_cuts {m k : Nat} (hlevel : m + 2 ≤ maxNesting) (h : (level m).Cut source)
    (hs : s.On source) {floor : Precedence} {left e : Expr Unit}
    (hleft : expressionUpTo (level m) k s = .ok left t) (hinside : AllCut source left.inside)
    (hr : operations (level m) floor n left t = .ok e u) (hclean : u.diagnostics = []) :
    CutThrough source e := by
  have hm := level_moves m
  have hlead := (operations_moves hm floor n left).ok hr
  have hcut : CutThrough source left :=
    .cons ⟨m, k, s, t, hlevel, hs, hleft, hlead.clean hclean⟩ hinside
  induction n generalizing left t k with
  | zero =>
    obtain ⟨rfl, -⟩ := pure_ok.1 hr
    exact hcut
  | succ n ih =>
    rw [operations_ok] at hr
    split at hr
    next hgo =>
      obtain ⟨y, v, hy, hr⟩ := hr
      have hlowest : Precedence.lowest < .of t.peek.kind := Nat.lt_of_le_of_lt (Nat.zero_le _) hgo
      obtain ⟨x, w, hx, hxs⟩ := expressionUpTo_ok.1 hleft
      have hy' : expressionUpTo (level m) (k + 1) s = .ok y v :=
        expressionUpTo_ok.2 ⟨x, w, hx, operations_snoc hxs hlowest hy⟩
      have hlead' := (operations_moves hm floor n y).ok hr
      have ht : t.On source := hs.leads ((expressionUpTo_moves hm).ok hleft)
      have hyinside := (operation_cuts h left).ok ht.advance hy (hlead'.clean hclean) hcut
      have hycut : CutThrough source y :=
        .cons ⟨m, k + 1, s, v, hlevel, hs, hy', hlead'.clean hclean⟩ hyinside
      exact ih hy' hyinside hr hlead' hycut
    next =>
      obtain ⟨rfl, -⟩ := hr
      exact hcut

theorem expression_cuts {m : Nat} (hlevel : m + 2 ≤ maxNesting) (h : (level m).Cut source)
    (floor : Precedence) : Gives source (CutThrough source) (expression (level m) floor) where
  moves := expression_moves (level_moves m) floor
  ok {s e u} hs hr hclean := by
    have hm := level_moves m
    obtain ⟨x, t, hx, hr⟩ := expression_ok.1 hr
    have hclean' := ((operations_moves hm floor _ x).ok hr).clean hclean
    have hstart : expressionUpTo (level m) 0 s = .ok x t := expressionUpTo_ok.2 ⟨x, t, hx, rfl⟩
    exact operations_cuts hlevel h hs hstart ((operand_cuts h hm).ok hs hx hclean') hr hclean

/-! ### Statements -/

section

variable (h : inner.Cut source) (hm : inner.Move)
include h

theorem declaration_cuts :
    Gives source (fun x => AllCut source x.expressions) (declaration inner) := by
  have hnone {n : Nat} {c : Bool} {x : Ident} : Gives source
      (fun x => AllCut source x.expressions)
      (do return .declare (← spanFrom n) c x none : Rule (Stmt Unit)) :=
    .step (.spanFrom n) fun _ => .pure (by rw [Stmt.expressions]; exact .nil)
  refine .step .current fun _ => .step (.expect _ _) fun _ => .step .identifier fun _ =>
    .step (.peekIs _) fun _ => .ite (.step .advance fun _ => .ite ?_ hnone) ?_
  · exact .step .current fun _ => .step (.report _ _) fun _ => hnone
  · refine .step (.expect _ _) fun _ => .step .advance fun _ => .bind (h.expression _) fun _ =>
      .step (.expect _ _) fun _ => .step (.spanFrom _) fun _ => .pure fun he => ?_
    rw [Stmt.expressions]
    exact he

theorem returnStatement_cuts :
    Gives source (fun x => AllCut source x.expressions) (returnStatement inner) := by
  refine .step .current fun _ => .step .advance fun _ => .step .current fun _ => .ite (.fail _ _) ?_
  refine .bind (h.expression _) fun _ => .step (.skip _) fun _ => .step (.spanFrom _) fun _ =>
    .pure fun he => ?_
  rw [Stmt.expressions]
  exact he

theorem functionStatement_cuts (name : Ident) :
    Gives source (fun x => AllCut source x.expressions) (functionStatement inner name) := by
  refine .step .current fun _ => .bind (function_cuts h) fun _ => .step (.skip _) fun _ =>
    .step (.spanFrom _) fun _ => .pure fun hfn => ?_
  rw [Stmt.expressions]
  exact hfn

theorem expressionStatement_cuts :
    Gives source (fun x => AllCut source x.expressions) (expressionStatement inner) := by
  refine .step .current fun _ => .bind (h.expression _) fun _ => .step (.skip _) fun _ =>
    .step (.spanFrom _) fun _ => .pure fun he => ?_
  rw [Stmt.expressions]
  exact he

theorem statement_cuts :
    Gives source (fun x => AllCut source x.expressions) (statement inner) := by
  refine .step .get fun s => ?_
  cases s.current.kind with
  | letKw | constKw => exact declaration_cuts h
  | returnKw => exact returnStatement_cuts h
  | functionKw => exact .ite (functionStatement_cuts h _) (expressionStatement_cuts h)
  | _ => exact expressionStatement_cuts h

end

theorem refuse_cuts {P : α → Prop} : Gives source P (refuse : Rule α) where
  moves := refuse_moves
  ok _ hx _ := absurd hx fail_ok

/-- At every level that the value of a declaration can have, all expressions are cuts. -/
theorem level_cuts (source : String) : ∀ m, m + 1 ≤ maxNesting → (level m).Cut source
  | 0, _ => ⟨refuse_cuts, fun _ => refuse_cuts, fun _ _ hx _ => absurd hx fail_ok⟩
  | m + 1, hlevel => by
    have h := level_cuts source m (Nat.le_of_succ_le hlevel)
    have hm := level_moves m
    refine ⟨statement_cuts h, expression_cuts hlevel h, fun {s e u} hs hk hr hclean => ?_⟩
    have hr : conditional (level m) s = .ok e u := hr
    have hx : operand (level m) s = .ok e u := operand_ok.2 (by rw [hk]; exact hr)
    refine .cons ⟨m, 0, s, u, hlevel, hs, expressionUpTo_ok.2 ⟨e, u, hx, rfl⟩, hclean⟩ ?_
    exact (conditional_cuts h hm).ok hs hr hclean

theorem programStatements_cuts
    (h : Gives source (fun x => AllCut source x.expressions) inner.statement) : ∀ n,
    Gives source (fun xs => AllCut source (expressionsOfStmts xs)) (programStatements inner n)
  | 0 => .pure .nil
  | n + 1 => by
    refine .step .current fun t => .ite (.pure .nil) (.bind h.attempt fun r => ?_)
    cases r with
    | some x =>
      refine .step .advance fun _ => .bind (programStatements_cuts h n) fun xs =>
        .pure fun hxs hx => ?_
      exact (hx x rfl).append hxs
    | none =>
      exact .step .synchronize fun _ => .step .advance fun _ =>
        (programStatements_cuts h n).imp fun _ hxs _ => hxs

end Parser

/-- **Every expression of a program that is parsed without diagnostics is a cut.** -/
theorem isCut_of_mem_expressions {source : String} (h : (parse source).2 = []) :
    ∀ e ∈ (parse source).1.expressions, Parser.IsCut source e := by
  obtain ⟨ss, u, hss⟩ := exists_allStatements source
  rw [parse_of_allStatements hss] at h ⊢
  -- the statements of a program are read at the level below the outermost one
  have hstatement : Parser.Gives source (fun x => Parser.AllCut source x.expressions)
      (Parser.level Parser.maxNesting).statement :=
    Parser.statement_cuts (Parser.level_cuts source _ (Nat.le_refl _))
  have hall := Parser.Gives.step .roundsLeft fun n => Parser.programStatements_cuts hstatement n
  exact hall.ok (Parser.State.ofString_on source) hss h

end Primer
