/-
  Primer/Proofs/Parser/Layout.lean
  ================================
  **A reading that erases places goes as one that keeps them.**

  The two readings of a source differ in the spans that they give to nodes and in nothing else: no
  rule looks at the span of a node, and diagnostics are placed at tokens.  So a rule that erases
  places gives what the same rule gives that keeps them, erased, and comes to the same tokens with
  the same diagnostics, whether it succeeds or fails (`Erases`).  One statement for each rule is put
  together from those of its steps; for a whole source it is `parseAs_erased`.
-/
import Primer.Proofs.Parser.Mirror

namespace Primer

namespace Parser

instance {ι : Type} : Placed (Program ι) := ⟨Program.mapSpans⟩

variable {α β : Type} [Placed α] [Placed β]

/-- A result without places. -/
def erased (a : α) : α := Placed.mapSpans (fun _ => .zero) a

/-- The same state of a reading that erases places. -/
def State.erase (s : State) : State .erased := ⟨s.current, s.ahead, s.diagnostics⟩

theorem State.erase_advance (s : State) : s.erase.advance = s.advance.erase := by
  obtain ⟨c, ts, ds⟩ := s
  cases ts <;> rfl

/-- From the same tokens the second rule gives what the first gives, erased. -/
def Erases (x : Rule α) (y : Reading .erased α) : Prop :=
  ∀ s, y s.erase = match x s with
    | .ok a t => .ok (erased a) t.erase
    | .error e t => .error e t.erase

/-! ### Results of rules -/

theorem erased_block (span : Span) (ss : List (Stmt Unit)) :
    erased (Block.mk span ss) = ⟨.zero, erased ss⟩ := by
  show Block.mk _ (mapSpansStmts _ ss) = _
  rw [mapSpansStmts_eq_map]
  rfl

theorem erased_cond (span : Span) (c : Expr Unit) (b : Block Unit) (a : Option (Block Unit)) :
    erased (Expr.cond span c b a) = .cond .zero (erased c) (erased b) (erased a) :=
  Expr.mapSpans_cond _ span c b a

theorem erased_call (span : Span) (f : Expr Unit) (es : List (Expr Unit)) :
    erased (Expr.call span f es) = .call .zero (erased f) (erased es) := by
  show Expr.call _ _ (mapSpansExprs _ es) = _
  rw [mapSpansExprs_eq_map]
  rfl

theorem erased_array (span : Span) (es : List (Expr Unit)) :
    erased (Expr.array span () es) = .array .zero () (erased es) := by
  show Expr.array _ _ (mapSpansExprs _ es) = _
  rw [mapSpansExprs_eq_map]
  rfl

theorem erased_object (span : Span) (ps : List (Property (Option (Expr Unit)))) :
    erased (Expr.object span () ps) = .object .zero () (erased ps) := by
  show Expr.object _ _ (mapSpansProperties _ ps) = _
  rw [mapSpansProperties_eq_map]
  rfl

theorem erased_declare (span : Span) (isConst : Bool) (x : Ident) (v : Option (Expr Unit)) :
    erased (Stmt.declare span isConst x v) = .declare .zero isConst (erased x) (erased v) :=
  Stmt.mapSpans_declare _ span isConst x v

theorem erased_program (span : Span) (ss : List (Stmt Unit)) :
    erased (Program.mk span ss) = ⟨.zero, erased ss⟩ := by
  show Program.mk _ (mapSpansStmts _ ss) = _
  rw [mapSpansStmts_eq_map]
  rfl

theorem erased_withSpan (span : Span) (e : Expr Unit) :
    erased (e.withSpan span) = (erased e).withSpan .zero :=
  Expr.mapSpans_withSpan _ span e

/-- The span of an erased expression. -/
theorem span_erased (e : Expr Unit) : (erased e).span = .zero := Expr.span_mapSpans _ e

theorem span_erased_function (fn : Function Unit) : (erased fn).span = .zero := by
  cases fn
  rfl

/-! ### Steps -/

namespace Erases

variable {x : Rule α} {y : Reading .erased α} {f : α → Rule β} {g : α → Reading .erased β}

theorem pure {a b : α} (h : erased a = b) : Erases (pure a) (Pure.pure b) := by
  intro s
  rw [← h]
  rfl

theorem bind (hx : Erases x y) (hf : ∀ a, Erases (f a) (g (erased a))) :
    Erases (x >>= f) (y >>= g) := by
  intro s
  show EStateM.bind y g s.erase = match EStateM.bind x f s with
    | .ok a t => .ok (erased a) t.erase
    | .error e t => .error e t.erase
  unfold EStateM.bind
  rw [hx s]
  cases x s with
  | ok a t => exact hf a t
  | error e t => rfl

theorem ite {c : Prop} [Decidable c] {x' : Rule α} {y' : Reading .erased α} (hx : Erases x y)
    (hy : Erases x' y') : Erases (if c then x else x') (if c then y else y') := by
  split
  · exact hx
  · exact hy

/-- Both see the same state, up to what they make of places. -/
theorem get {f : State → Rule α} {g : State .erased → Reading .erased α}
    (h : ∀ s, Erases (f s) (g s.erase)) : Erases (get >>= f) (get >>= g) := by
  intro s
  exact h s s

theorem current {f : Token → Rule α} {g : Token → Reading .erased α}
    (h : ∀ t, Erases (f t) (g t)) : Erases (current >>= f) (Parser.current >>= g) := by
  intro s
  exact h s.current s

theorem roundsLeft {f : Nat → Rule α} {g : Nat → Reading .erased α}
    (h : ∀ n, Erases (f n) (g n)) : Erases (roundsLeft >>= f) (Parser.roundsLeft >>= g) := by
  intro s
  exact h s.ahead.length s

theorem advance : Erases advance Parser.advance := by
  intro s
  show EStateM.Result.ok () s.erase.advance = .ok () s.advance.erase
  rw [s.erase_advance]

theorem peekIs (k : TokenKind) : Erases (peekIs k) (Parser.peekIs k) := by
  intro s
  rfl

theorem report (span : Span) (p : Problem) : Erases (report span p) (Parser.report span p) := by
  intro s
  rfl

theorem fail (span : Span) (p : Problem) : Erases (fail span p : Rule α) (Parser.fail span p) := by
  intro s
  rfl

theorem synchronize : Erases synchronize Parser.synchronize := by
  intro s
  rfl

theorem identifier : Erases identifier Parser.identifier := by
  intro s
  rfl

theorem spanFrom (n m : Nat) : Erases (spanFrom n) (Parser.spanFrom m) := by
  intro s
  rfl

theorem expect (k : TokenKind) (place : Place) : Erases (expect k place) (Parser.expect k place) :=
  .get fun _ => .ite .advance (.fail _ _)

theorem skip (k : TokenKind) : Erases (skip k) (Parser.skip k) :=
  .bind (.peekIs k) fun _ => .ite .advance (.pure rfl)

theorem attempt (hx : Erases x y) : Erases (attempt x) (Parser.attempt y) := by
  intro s
  unfold Parser.attempt
  rw [hx s]
  cases x s <;> rfl

end Erases

/-! ### Rules -/

/-- The rules of either reading, where each rule of the second erases what the first keeps. -/
structure Rules.Erase (r : Rules) (r' : Rules .erased) : Prop where
  statement : Erases r.statement r'.statement
  expression : ∀ floor, Erases (r.expression floor) (r'.expression floor)
  conditional : Erases r.conditional r'.conditional

theorem moreParameters_erases : ∀ n, Erases (moreParameters n) (moreParameters n)
  | 0 => .pure rfl
  | n + 1 => by
    refine .bind (.peekIs .comma) fun _ => .ite ?_ (.pure rfl)
    refine .bind .advance fun _ => .bind (.expect .ident _) fun _ => .bind .identifier fun x => ?_
    exact .bind (moreParameters_erases n) fun xs => .pure rfl

theorem parameters_erases : Erases parameters parameters := by
  refine .bind (.peekIs .rparen) fun _ => .ite ?_ ?_
  · exact .bind .advance fun _ => .pure rfl
  · refine .bind (.expect .ident _) fun _ => .bind .identifier fun x => .roundsLeft fun n => ?_
    refine .bind (moreParameters_erases n) fun xs => .bind (.expect .rparen _) fun _ => ?_
    exact .pure rfl

theorem functionName_erases : Erases functionName functionName := by
  refine .bind (.peekIs .ident) fun _ => .ite ?_ (.pure rfl)
  exact .bind .advance fun _ => .bind .identifier fun x => .pure rfl

theorem integer_erases : Erases integer integer :=
  .current fun _ => .ite (.pure rfl) (.fail _ _)

theorem string_erases : Erases string string := by
  refine .current fun t => .ite ?_ (.pure rfl)
  exact .bind (.report _ _) fun _ => .pure rfl

section

variable {inner : Rules} {inner' : Rules .erased} (h : inner.Erase inner')
include h

theorem blockStatements_erases :
    ∀ n, Erases (blockStatements inner n) (blockStatements inner' n)
  | 0 => .pure rfl
  | n + 1 => by
    refine .current fun t => .ite (.pure rfl) (.bind (.attempt h.statement) fun x => ?_)
    cases x with
    | some x =>
      exact .bind .advance fun _ => .bind (blockStatements_erases n) fun xs => .pure rfl
    | none =>
      refine .bind .synchronize fun _ => .current fun t => .ite (.pure rfl) ?_
      exact .bind .advance fun _ => blockStatements_erases n

theorem block_erases : Erases (block inner) (block inner') := by
  refine .current fun first => .bind .advance fun _ => .roundsLeft fun n => ?_
  refine .bind (blockStatements_erases h n) fun ss => .current fun last => ?_
  have hspan : Erases
      (do return Block.mk (← spanFrom first.span.start) ss : Rule (Block Unit))
      (do return Block.mk (← spanFrom first.span.start) (erased ss)) :=
    .bind (.spanFrom _ _) fun span => .pure (erased_block span ss)
  exact .ite (.bind (.report _ _) fun _ => hspan) hspan

theorem function_erases : Erases (function inner) (function inner') := by
  refine .current fun t => .bind functionName_erases fun x => .bind (.expect .lparen _) fun _ => ?_
  refine .bind parameters_erases fun xs => .bind (.expect .lbrace _) fun _ => ?_
  exact .bind (block_erases h) fun b => .bind (.spanFrom _ _) fun span => .pure rfl

theorem moreExpressions_erases (close : TokenKind) :
    ∀ n, Erases (moreExpressions inner close n) (moreExpressions inner' close n)
  | 0 => .pure rfl
  | n + 1 => by
    refine .bind (.peekIs .comma) fun _ => .ite ?_ (.pure rfl)
    refine .bind .advance fun _ => .bind (.peekIs close) fun _ => .ite (.pure rfl) ?_
    refine .bind .advance fun _ => .bind (h.expression _) fun e => ?_
    exact .bind (moreExpressions_erases close n) fun es => .pure rfl

theorem expressions_erases (close : TokenKind) :
    Erases (expressions inner close) (expressions inner' close) := by
  refine .bind (.peekIs close) fun _ => .ite ?_ ?_
  · exact .bind .advance fun _ => .pure rfl
  · refine .bind .advance fun _ => .bind (h.expression _) fun e => .roundsLeft fun n => ?_
    refine .bind (moreExpressions_erases h close n) fun es => .bind (.expect close _) fun _ => ?_
    exact .pure rfl

theorem propertyValue_erases : Erases (propertyValue inner) (propertyValue inner') := by
  refine .bind (.peekIs .colon) fun _ => .ite ?_ (.pure rfl)
  refine .bind .advance fun _ => .bind .advance fun _ => ?_
  exact .bind (h.expression _) fun e => .pure rfl

theorem properties_erases : ∀ n, Erases (properties inner n) (properties inner' n)
  | 0 => .pure rfl
  | n + 1 => by
    refine .bind (.peekIs .rbrace) fun _ => .ite (.bind .advance fun _ => .pure rfl) ?_
    refine .bind (.expect .ident _) fun _ => .bind .identifier fun key => ?_
    refine .bind (propertyValue_erases h) fun v => .bind (.spanFrom _ _) fun span => ?_
    refine .bind (.peekIs .comma) fun _ => .ite ?_ ?_
    · exact .bind .advance fun _ => .bind (properties_erases n) fun ps => .pure rfl
    · exact .bind (.expect .rbrace _) fun _ => .pure rfl

theorem alternative_erases : Erases (alternative inner) (alternative inner') := by
  refine .bind (.peekIs .elseKw) fun _ => .ite ?_ (.pure rfl)
  refine .bind .advance fun _ => .bind (.peekIs .ifKw) fun _ => .ite ?_ ?_
  · refine .bind .advance fun _ => .bind h.conditional fun e => .pure ?_
    rw [span_erased]
    rfl
  · refine .bind (.expect .lbrace _) fun _ => ?_
    exact .bind (block_erases h) fun b => .pure rfl

theorem conditional_erases : Erases (conditional inner) (conditional inner') := by
  refine .current fun t => .bind (.expect .lparen _) fun _ => .bind .advance fun _ => ?_
  refine .bind (h.expression _) fun c => .bind (.expect .rparen _) fun _ => ?_
  refine .bind (.expect .lbrace _) fun _ => .bind (block_erases h) fun b => ?_
  refine .bind (alternative_erases h) fun a => .bind (.spanFrom _ _) fun span => ?_
  exact .pure (erased_cond span c b a)

theorem unary_erases (op : UnaryOp) : Erases (unary inner op) (unary inner' op) := by
  refine .current fun t => .bind .advance fun _ => .bind (h.expression _) fun e => ?_
  exact .bind (.spanFrom _ _) fun span => .pure rfl

theorem group_erases : Erases (group inner) (group inner') := by
  refine .current fun t => .bind .advance fun _ => .bind (h.expression _) fun e => ?_
  refine .bind (.expect .rparen _) fun _ => .bind (.spanFrom _ _) fun span => ?_
  exact .pure (erased_withSpan span e)

theorem object_erases : Erases (object inner) (object inner') := by
  refine .current fun t => .roundsLeft fun n => .bind (properties_erases h n) fun ps => ?_
  exact .bind (.spanFrom _ _) fun span => .pure (erased_object span ps)

theorem array_erases : Erases (array inner) (array inner') := by
  refine .current fun t => .bind (expressions_erases h .rbracket) fun es => ?_
  exact .bind (.spanFrom _ _) fun span => .pure (erased_array span es)

theorem operand_erases : Erases (operand inner) (operand inner') := by
  refine .current fun t => ?_
  cases t.kind with
  | ident | trueKw | falseKw => exact .pure rfl
  | int => exact integer_erases
  | string => exact string_erases
  | bang | minus => exact unary_erases h _
  | lparen => exact group_erases h
  | lbrace => exact object_erases h
  | lbracket => exact array_erases h
  | ifKw => exact conditional_erases h
  | functionKw =>
    refine .bind (function_erases h) fun fn => .pure ?_
    rw [span_erased_function]
    rfl
  | _ => exact .fail _ _

theorem operation_erases (left : Expr Unit) :
    Erases (operation inner left) (operation inner' (erased left)) := by
  have hbinary (floor : Precedence) (op : BinaryOp) : Erases
      (do
        advance
        let right ← inner.expression floor
        return .binary (← spanFrom left.span.start) op left right : Rule (Expr Unit))
      (do
        advance
        let right ← inner'.expression floor
        return .binary (← spanFrom (erased left).span.start) op (erased left) right) := by
    refine .bind .advance fun _ => .bind (h.expression _) fun e => ?_
    exact .bind (.spanFrom _ _) fun span => .pure rfl
  refine .current fun t => ?_
  cases t.kind with
  | lparen =>
    refine .bind (expressions_erases h .rparen) fun es => .bind (.spanFrom _ _) fun span => ?_
    exact .pure (erased_call span left es)
  | lbracket =>
    refine .bind .advance fun _ => .bind (h.expression _) fun e => ?_
    exact .bind (.expect .rbracket _) fun _ => .bind (.spanFrom _ _) fun span => .pure rfl
  | assign =>
    refine .bind .advance fun _ => .bind (h.expression _) fun e => ?_
    exact .bind (.spanFrom _ _) fun span => .pure rfl
  | plus | minus | asterisk | slash | lt | lte | gt | gte | eq | notEq => exact hbinary _ _
  | _ => exact .pure rfl

theorem operations_erases (floor : Precedence) : ∀ n (left : Expr Unit),
    Erases (operations inner floor n left) (operations inner' floor n (erased left))
  | 0, _ => .pure rfl
  | n + 1, left => by
    refine .get fun s => .ite ?_ (.pure rfl)
    refine .bind .advance fun _ => .bind (operation_erases h left) fun e => ?_
    exact operations_erases floor n e

theorem expression_erases (floor : Precedence) :
    Erases (expression inner floor) (expression inner' floor) :=
  .bind (operand_erases h) fun e => .roundsLeft fun n => operations_erases h floor n e

theorem declaration_erases : Erases (declaration inner) (declaration inner') := by
  refine .current fun first => .bind (.expect .ident _) fun _ => .bind .identifier fun x => ?_
  have hspan (v : Option (Expr Unit)) : Erases
      (do return .declare (← spanFrom first.span.start) (first.is .constKw) x v : Rule (Stmt Unit))
      (do return .declare (← spanFrom first.span.start) (first.is .constKw) (erased x)
            (erased v)) :=
    .bind (.spanFrom _ _) fun span => .pure (erased_declare span _ x v)
  refine .bind (.peekIs .semicolon) fun _ => .ite ?_ ?_
  · refine .bind .advance fun _ => .ite ?_ (hspan none)
    exact .current fun t => .bind (.report _ _) fun _ => hspan none
  · refine .bind (.expect .assign _) fun _ => .bind .advance fun _ => ?_
    refine .bind (h.expression _) fun e => .bind (.expect .semicolon _) fun _ => ?_
    exact hspan (some e)

theorem returnStatement_erases : Erases (returnStatement inner) (returnStatement inner') := by
  refine .current fun t => .bind .advance fun _ => .current fun t => .ite (.fail _ _) ?_
  refine .bind (h.expression _) fun e => .bind (.skip .semicolon) fun _ => ?_
  exact .bind (.spanFrom _ _) fun span => .pure rfl

theorem functionStatement_erases (x : Ident) :
    Erases (functionStatement inner x) (functionStatement inner' (erased x)) := by
  refine .current fun t => .bind (function_erases h) fun fn => .bind (.skip .semicolon) fun _ => ?_
  exact .bind (.spanFrom _ _) fun span => .pure rfl

theorem expressionStatement_erases :
    Erases (expressionStatement inner) (expressionStatement inner') := by
  refine .current fun t => .bind (h.expression _) fun e => .bind (.skip .semicolon) fun _ => ?_
  exact .bind (.spanFrom _ _) fun span => .pure rfl

theorem statement_erases : Erases (statement inner) (statement inner') := by
  refine .get fun s => ?_
  have hcurrent : s.erase.current = s.current := rfl
  rw [hcurrent]
  cases s.current.kind with
  | letKw | constKw => exact declaration_erases h
  | returnKw => exact returnStatement_erases h
  | functionKw => exact .ite (functionStatement_erases h _) (expressionStatement_erases h)
  | _ => exact expressionStatement_erases h

theorem programStatements_erases :
    ∀ n, Erases (programStatements inner n) (programStatements inner' n)
  | 0 => .pure rfl
  | n + 1 => by
    refine .current fun t => .ite (.pure rfl) (.bind (.attempt h.statement) fun x => ?_)
    cases x with
    | some x =>
      exact .bind .advance fun _ => .bind (programStatements_erases n) fun xs => .pure rfl
    | none =>
      refine .bind .synchronize fun _ => .bind .advance fun _ => ?_
      exact programStatements_erases n

end

theorem refuse_erases : Erases (refuse : Rule α) refuse := .current fun _ => .fail _ _

theorem level_erase (n : Nat) : (level n).Erase (level n) := by
  induction n with
  | zero => exact ⟨refuse_erases, fun _ => refuse_erases, refuse_erases⟩
  | succ n ih => exact ⟨statement_erases ih, expression_erases ih, conditional_erases ih⟩

theorem program_erases : Erases program program := by
  refine .roundsLeft fun n => .bind (programStatements_erases (level_erase _) n) fun ss => ?_
  exact .bind (.spanFrom _ _) fun span => .pure (erased_program span ss)

theorem State.ofString_erase (source : String) : (ofString source).erase = ofString source := by
  unfold ofString ofTokens
  cases lex source <;> rfl

end Parser

/-- A source is read without places as it is read with them, and then they are erased; the
diagnostics are the same, places included. -/
theorem parseAs_erased (source : String) :
    parseAs .erased source = ((parse source).1.eraseSpans, (parse source).2) := by
  have hprogram := Parser.program_erases (.ofString source)
  rw [Parser.State.ofString_erase] at hprogram
  unfold parse parseAs Parser.State.readProgram
  rw [hprogram]
  cases Parser.program (Parser.State.ofString source : Parser.State) <;> rfl

end Primer
