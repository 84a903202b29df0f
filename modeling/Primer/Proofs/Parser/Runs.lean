/-
  Primer/Proofs/Parser/Runs.lean
  ==============================
  **The successful runs of each rule.**

  For every rule one statement says when it succeeds, with which result and in which state,
  in terms of the runs of the rules it uses; what is proved about results of rules is proved
  from these statements and does not open the rules again.  The second half says that every
  rule moves on in the sense of `Moves`, down to every level of nesting.
-/
import Primer.Proofs.Parser.Steps

namespace Primer.Parser

variable {s u : State} {inner : Rules} {n : Nat}

/-- The current token as a name. -/
def State.name (s : State) : Ident := ⟨s.current.span, s.current.literal⟩

/-- The span from the current token of `s` to that of `t`. -/
def State.spanTo (s t : State) : Span := ⟨s.current.span.start, t.current.span.stop⟩

/-! ### Blocks -/

theorem blockStatements_ok {ss : List (Stmt Unit)} :
    blockStatements inner (n + 1) s = .ok ss u ↔
      if s.current.kind = .rbrace ∨ s.current.kind = .eof then [] = ss ∧ s = u
      else match inner.statement s with
        | .ok x t => ∃ xs, blockStatements inner n t.advance = .ok xs u ∧ x :: xs = ss
        | .error _ t =>
          if t.synchronize.current.kind = .rbrace then [] = ss ∧ t.synchronize = u
          else blockStatements inner n t.synchronize.advance = .ok ss u := by
  simp only [blockStatements, blockRound, current_bind, ite_ok, is_eq_true, Bool.or_eq_true,
    attempt_bind, pure_ok]
  cases inner.statement s with
  | ok x t =>
    simp only [advance_bind, bind_ok, pure_ok]
    grind
  | error e t =>
    simp only [synchronize_bind, current_bind, ite_ok, advance_bind, pure_ok]

theorem block_ok {b : Block Unit} :
    block inner s = .ok b u ↔
      ∃ ss t, blockStatements inner s.advance.ahead.length s.advance = .ok ss t ∧
        (if t.current.kind = .rbrace then t else t.report t.current.span .unclosedBlock) = u ∧
        ⟨s.spanTo t, ss⟩ = b := by
  simp only [block, current_bind, advance_bind, roundsLeft_bind, bind_ok, ite_ok, report_bind,
    spanFrom_bind, pure_ok, not_is_eq_true]
  refine exists_congr fun ss => exists_congr fun t => and_congr_right fun _ => ?_
  by_cases h : t.current.kind = .rbrace
  · rw [if_neg (not_not_intro h), if_pos h, and_comm]
    rfl
  · rw [if_pos h, if_neg h, and_comm]
    rfl

/-! ### Functions -/

theorem moreParameters_ok {xs : List Ident} :
    moreParameters (n + 1) s = .ok xs u ↔
      if s.peek.kind = .comma then
        s.advance.peek.kind = .ident ∧
          ∃ ys, moreParameters n s.advance.advance = .ok ys u ∧
            s.advance.advance.name :: ys = xs
      else [] = xs ∧ s = u := by
  simp only [moreParameters, parametersRound, peekIs_bind, ite_ok, is_eq_true, advance_bind,
    bind_ok, expect_ok, identifier_bind, pure_ok, State.name]
  grind

theorem parameters_ok {xs : List Ident} :
    parameters s = .ok xs u ↔
      if s.peek.kind = .rparen then [] = xs ∧ s.advance = u
      else s.peek.kind = .ident ∧
        ∃ ys t, moreParameters s.advance.ahead.length s.advance = .ok ys t ∧
          t.peek.kind = .rparen ∧ t.advance = u ∧ s.advance.name :: ys = xs := by
  simp only [parameters, peekIs_bind, ite_ok, is_eq_true, advance_bind, bind_ok, expect_ok,
    identifier_bind, roundsLeft_bind, pure_ok, State.name]
  grind

theorem functionName_ok {x : Option Ident} :
    functionName s = .ok x u ↔
      if s.peek.kind = .ident then some s.advance.name = x ∧ s.advance = u
      else none = x ∧ s = u := by
  simp only [functionName, peekIs_bind, ite_ok, is_eq_true, advance_bind, identifier_bind, pure_ok,
    State.name]

theorem function_ok {fn : Function Unit} :
    function inner s = .ok fn u ↔
      ∃ x t xs v b, functionName s = .ok x t ∧ t.peek.kind = .lparen ∧
        parameters t.advance = .ok xs v ∧ v.peek.kind = .lbrace ∧
        block inner v.advance = .ok b u ∧ ⟨s.spanTo u, (), x, xs, b⟩ = fn := by
  simp only [function, current_bind, bind_ok, expect_ok, spanFrom_bind, pure_ok, State.spanTo]
  grind

/-! ### Lists and entries -/

theorem moreExpressions_ok {close : TokenKind} {es : List (Expr Unit)} :
    moreExpressions inner close (n + 1) s = .ok es u ↔
      if s.peek.kind = .comma then
        if s.advance.peek.kind = close then [] = es ∧ s.advance = u
        else ∃ e t fs, inner.expression .lowest s.advance.advance = .ok e t ∧
          moreExpressions inner close n t = .ok fs u ∧ e :: fs = es
      else [] = es ∧ s = u := by
  simp only [moreExpressions, listRound, peekIs_bind, ite_ok, is_eq_true, advance_bind, bind_ok,
    pure_ok]
  grind

theorem expressions_ok {close : TokenKind} {es : List (Expr Unit)} :
    expressions inner close s = .ok es u ↔
      if s.peek.kind = close then [] = es ∧ s.advance = u
      else ∃ e t fs v, inner.expression .lowest s.advance = .ok e t ∧
        moreExpressions inner close t.ahead.length t = .ok fs v ∧
        v.peek.kind = close ∧ v.advance = u ∧ e :: fs = es := by
  simp only [expressions, peekIs_bind, ite_ok, is_eq_true, advance_bind, bind_ok, roundsLeft_bind,
    expect_ok, pure_ok]
  grind

theorem propertyValue_ok {v : Option (Expr Unit)} :
    propertyValue inner s = .ok v u ↔
      if s.peek.kind = .colon then
        ∃ e, inner.expression .lowest s.advance.advance = .ok e u ∧ some e = v
      else none = v ∧ s = u := by
  simp only [propertyValue, peekIs_bind, ite_ok, is_eq_true, advance_bind, bind_ok, pure_ok]
  grind

theorem properties_ok {ps : List (Property (Option (Expr Unit)))} :
    properties inner (n + 1) s = .ok ps u ↔
      if s.peek.kind = .rbrace then [] = ps ∧ s.advance = u
      else s.peek.kind = .ident ∧ ∃ v t, propertyValue inner s.advance = .ok v t ∧
        if t.peek.kind = .comma then
          ∃ qs, properties inner n t.advance = .ok qs u ∧
            ⟨s.advance.spanTo t, s.advance.name, v⟩ :: qs = ps
        else t.peek.kind = .rbrace ∧ t.advance = u ∧
          [⟨s.advance.spanTo t, s.advance.name, v⟩] = ps := by
  simp only [properties, propertiesRound, peekIs_bind, ite_ok, is_eq_true, advance_bind, bind_ok,
    expect_ok, identifier_bind, spanFrom_bind, pure_ok, State.name, State.spanTo]
  grind

/-! ### What starts an expression -/

theorem alternative_ok {b : Option (Block Unit)} :
    alternative inner s = .ok b u ↔
      if s.peek.kind = .elseKw then
        if s.advance.peek.kind = .ifKw then
          ∃ e, inner.conditional s.advance.advance = .ok e u ∧
            some ⟨e.span, [.expr e.span e]⟩ = b
        else s.advance.peek.kind = .lbrace ∧
          ∃ c, block inner s.advance.advance = .ok c u ∧ some c = b
      else none = b ∧ s = u := by
  simp only [alternative, peekIs_bind, ite_ok, is_eq_true, advance_bind, bind_ok, expect_ok,
    pure_ok]
  grind

theorem conditional_ok {e : Expr Unit} :
    conditional inner s = .ok e u ↔
      ∃ c t b v a, s.peek.kind = .lparen ∧
        inner.expression .lowest s.advance.advance = .ok c t ∧ t.peek.kind = .rparen ∧
        t.advance.peek.kind = .lbrace ∧ block inner t.advance.advance = .ok b v ∧
        alternative inner v = .ok a u ∧ .cond (s.spanTo u) c b a = e := by
  simp only [conditional, current_bind, bind_ok, expect_ok, advance_bind, spanFrom_bind, pure_ok,
    State.spanTo]
  grind

theorem integer_ok {e : Expr Unit} :
    integer s = .ok e u ↔
      Nat.ofDigitChars 10 s.current.literal.toList 0 ≤ maxInteger ∧ s = u ∧
        .int s.current.span (Nat.ofDigitChars 10 s.current.literal.toList 0) = e := by
  simp only [integer, current_bind, ite_ok, fail_ok, pure_ok]
  grind

theorem string_ok {e : Expr Unit} :
    string s = .ok e u ↔
      (if s.current.span.length = s.current.literal.utf8ByteSize + 1 then
        s.report s.current.span .unterminatedString else s) = u ∧
      .str s.current.span s.current.literal = e := by
  simp only [string, current_bind, ite_ok, report_bind, pure_ok]
  grind

theorem unary_ok {op : UnaryOp} {e : Expr Unit} :
    unary inner op s = .ok e u ↔
      ∃ x, inner.expression .unary s.advance = .ok x u ∧ .unary (s.spanTo u) op x = e := by
  simp only [unary, current_bind, advance_bind, bind_ok, spanFrom_bind, pure_ok, State.spanTo]
  grind

theorem group_ok {e : Expr Unit} :
    group inner s = .ok e u ↔
      ∃ x t, inner.expression .lowest s.advance = .ok x t ∧ t.peek.kind = .rparen ∧
        t.advance = u ∧ x.withSpan (s.spanTo u) = e := by
  simp only [group, current_bind, advance_bind, bind_ok, expect_ok, spanFrom_bind, pure_ok,
    State.spanTo]
  grind

theorem object_ok {e : Expr Unit} :
    object inner s = .ok e u ↔
      ∃ ps, properties inner s.ahead.length s = .ok ps u ∧ .object (s.spanTo u) () ps = e := by
  simp only [object, current_bind, roundsLeft_bind, bind_ok, spanFrom_bind, pure_ok, State.spanTo]
  grind

theorem array_ok {e : Expr Unit} :
    array inner s = .ok e u ↔
      ∃ es, expressions inner .rbracket s = .ok es u ∧ .array (s.spanTo u) () es = e := by
  simp only [array, current_bind, bind_ok, spanFrom_bind, pure_ok, State.spanTo]
  grind

theorem operand_ok {e : Expr Unit} :
    operand inner s = .ok e u ↔
      match s.current.kind with
      | .ident => s = u ∧ .ident s.current.span s.current.literal = e
      | .int => integer s = .ok e u
      | .string => string s = .ok e u
      | .trueKw => s = u ∧ .bool s.current.span true = e
      | .falseKw => s = u ∧ .bool s.current.span false = e
      | .bang => unary inner .not s = .ok e u
      | .minus => unary inner .neg s = .ok e u
      | .lparen => group inner s = .ok e u
      | .lbrace => object inner s = .ok e u
      | .lbracket => array inner s = .ok e u
      | .ifKw => conditional inner s = .ok e u
      | .functionKw => ∃ fn, function inner s = .ok fn u ∧ .function fn.span fn = e
      | _ => False := by
  unfold operand
  rw [current_bind]
  cases s.current.kind <;> simp only [Layout.place_kept, pure_ok, bind_ok, fail_ok, and_comm]
  grind

/-! ### What goes on behind an expression -/

theorem operation_ok {left e : Expr Unit} :
    operation inner left s = .ok e u ↔
      match s.current.kind with
      | .lparen => ∃ args, expressions inner .rparen s = .ok args u ∧
          .call ⟨left.span.start, u.current.span.stop⟩ left args = e
      | .lbracket => ∃ k t, inner.expression .lowest s.advance = .ok k t ∧
          t.peek.kind = .rbracket ∧ t.advance = u ∧
          .index ⟨left.span.start, u.current.span.stop⟩ left k = e
      | .assign => ∃ v, inner.expression .lowest s.advance = .ok v u ∧
          .assign ⟨left.span.start, u.current.span.stop⟩ left v = e
      | kind =>
        match BinaryOp.ofToken? kind with
        | some op => ∃ r, inner.expression (.of kind) s.advance = .ok r u ∧
            .binary ⟨left.span.start, u.current.span.stop⟩ op left r = e
        | none => left = e ∧ s = u := by
  unfold operation
  rw [current_bind]
  cases s.current.kind <;>
    simp only [BinaryOp.ofToken?, pure_ok, bind_ok, advance_bind, expect_ok, spanFrom_bind] <;>
    grind

theorem operations_ok {floor : Precedence} {left e : Expr Unit} :
    operations inner floor (n + 1) left s = .ok e u ↔
      if floor < .of s.peek.kind then
        ∃ x t, operation inner left s.advance = .ok x t ∧ operations inner floor n x t = .ok e u
      else left = e ∧ s = u := by
  simp only [operations, operationsRound, get_bind, ite_ok, advance_bind, bind_ok, pure_ok]

theorem expression_ok {floor : Precedence} {e : Expr Unit} :
    expression inner floor s = .ok e u ↔
      ∃ x t, operand inner s = .ok x t ∧ operations inner floor t.ahead.length x t = .ok e u := by
  simp only [expression, bind_ok, roundsLeft_bind]

/-! ### Statements -/

theorem declaration_ok {x : Stmt Unit} :
    declaration inner s = .ok x u ↔
      s.peek.kind = .ident ∧
        if s.advance.peek.kind = .semicolon then
          (if s.current.kind = .constKw then
            s.advance.advance.report s.advance.advance.current.span
              (.uninitializedConstant s.advance.name.name)
            else s.advance.advance) = u ∧
          .declare (s.spanTo u) (s.current.is .constKw) s.advance.name none = x
        else s.advance.peek.kind = .assign ∧
          ∃ v t, inner.expression .lowest s.advance.advance.advance = .ok v t ∧
            t.peek.kind = .semicolon ∧ t.advance = u ∧
            .declare (s.spanTo u) (s.current.is .constKw) s.advance.name (some v) = x := by
  simp only [declaration, current_bind, bind_ok, expect_ok, identifier_bind, peekIs_bind, ite_ok,
    is_eq_true, advance_bind, report_bind, spanFrom_bind, pure_ok, State.name, State.spanTo]
  grind

theorem returnStatement_ok {x : Stmt Unit} :
    returnStatement inner s = .ok x u ↔
      ¬(s.advance.current.kind = .semicolon ∨ s.advance.current.kind = .eof) ∧
        ∃ v t, inner.expression .lowest s.advance = .ok v t ∧
          (if t.peek.kind = .semicolon then t.advance else t) = u ∧ .ret (s.spanTo u) v = x := by
  simp only [returnStatement, current_bind, advance_bind, ite_ok, Bool.or_eq_true, is_eq_true,
    fail_ok, bind_ok, skip_bind, spanFrom_bind, pure_ok, State.spanTo]
  grind

theorem functionStatement_ok {name : Ident} {x : Stmt Unit} :
    functionStatement inner name s = .ok x u ↔
      ∃ fn t, function inner s = .ok fn t ∧
        (if t.peek.kind = .semicolon then t.advance else t) = u ∧
        .function (s.spanTo u) name fn = x := by
  simp only [functionStatement, current_bind, bind_ok, skip_bind, spanFrom_bind, pure_ok,
    State.spanTo]
  grind

theorem expressionStatement_ok {x : Stmt Unit} :
    expressionStatement inner s = .ok x u ↔
      ∃ v t, inner.expression .lowest s = .ok v t ∧
        (if t.peek.kind = .semicolon then t.advance else t) = u ∧ .expr (s.spanTo u) v = x := by
  simp only [expressionStatement, current_bind, bind_ok, skip_bind, spanFrom_bind, pure_ok,
    State.spanTo]
  grind

theorem statement_run :
    statement inner s =
      match s.current.kind with
      | .letKw | .constKw => declaration inner s
      | .returnKw => returnStatement inner s
      | .functionKw =>
        if s.peek.kind = .ident then functionStatement inner ⟨s.peek.span, s.peek.literal⟩ s
        else expressionStatement inner s
      | _ => expressionStatement inner s := by
  unfold statement
  rw [get_bind]
  cases s.current.kind <;> try rfl
  by_cases h : s.peek.kind = .ident
  · rw [if_pos h, if_pos ((is_eq_true _ _).2 h)]
    rfl
  · rw [if_neg h, if_neg (mt (is_eq_true _ _).1 h)]

/-! ### Programs -/

theorem programStatements_ok {ss : List (Stmt Unit)} :
    programStatements inner (n + 1) s = .ok ss u ↔
      if s.current.kind = .eof then [] = ss ∧ s = u
      else match inner.statement s with
        | .ok x t => ∃ xs, programStatements inner n t.advance = .ok xs u ∧ x :: xs = ss
        | .error _ t => programStatements inner n t.synchronize.advance = .ok ss u := by
  simp only [programStatements, programRound, current_bind, ite_ok, is_eq_true, attempt_bind,
    pure_ok]
  cases inner.statement s with
  | ok x t =>
    simp only [advance_bind, bind_ok, pure_ok]
    grind
  | error e t => simp only [synchronize_bind, advance_bind]

theorem program_ok {p : Program Unit} :
    program s = .ok p u ↔
      ∃ ss, programStatements (level maxNesting) s.ahead.length s = .ok ss u ∧
        ⟨⟨0, u.current.span.stop⟩, ss⟩ = p := by
  simp only [program, roundsLeft_bind, bind_ok, spanFrom_bind, pure_ok]
  grind

/-! ### Every rule moves on -/

/-- Each of the rules moves on. -/
structure Rules.Move (r : Rules) : Prop where
  statement : Moves r.statement
  expression : ∀ floor, Moves (r.expression floor)
  conditional : Moves r.conditional

section Moves

variable (h : inner.Move)
include h

theorem blockStatements_moves : ∀ n, Moves (blockStatements inner n)
  | 0 => .pure []
  | n + 1 => by
    refine .bind .current fun t => .ite (.pure []) (.bind h.statement.attempt fun x => ?_)
    cases x with
    | some x =>
      exact .bind .advance fun _ => .bind (blockStatements_moves n) fun _ => .pure _
    | none =>
      exact .bind .synchronize fun _ => .bind .current fun _ =>
        .ite (.pure []) (.bind .advance fun _ => blockStatements_moves n)

theorem block_moves : Moves (block inner) := by
  have hspan (n : Nat) (ss : List (Stmt Unit)) :
      Moves (do return ⟨← spanFrom n, ss⟩ : Rule (Block Unit)) :=
    .bind (.spanFrom n) fun _ => .pure _
  exact .bind .current fun _ => .bind .advance fun _ => .bind .roundsLeft fun _ =>
    .bind (blockStatements_moves h _) fun _ => .bind .current fun _ =>
      .ite (.bind (.report _ _) fun _ => hspan _ _) (hspan _ _)

omit h in
theorem moreParameters_moves : ∀ n, Moves (moreParameters n)
  | 0 => .pure []
  | n + 1 => .bind (.peekIs _) fun _ => .ite
      (.bind .advance fun _ => .bind (.expect _ _) fun _ => .bind .identifier fun _ =>
        .bind (moreParameters_moves n) fun _ => .pure _)
      (.pure [])

omit h in
theorem parameters_moves : Moves parameters :=
  .bind (.peekIs _) fun _ => .ite
    (.bind .advance fun _ => .pure [])
    (.bind (.expect _ _) fun _ => .bind .identifier fun _ => .bind .roundsLeft fun _ =>
      .bind (moreParameters_moves _) fun _ => .bind (.expect _ _) fun _ => .pure _)

omit h in
theorem functionName_moves : Moves functionName :=
  .bind (.peekIs _) fun _ => .ite
    (.bind .advance fun _ => .bind .identifier fun _ => .pure _)
    (.pure none)

theorem function_moves : Moves (function inner) :=
  .bind .current fun _ => .bind functionName_moves fun _ => .bind (.expect _ _) fun _ =>
    .bind parameters_moves fun _ => .bind (.expect _ _) fun _ => .bind (block_moves h) fun _ =>
      .bind (.spanFrom _) fun _ => .pure _

theorem moreExpressions_moves (close : TokenKind) : ∀ n, Moves (moreExpressions inner close n)
  | 0 => .pure []
  | n + 1 => .bind (.peekIs _) fun _ => .ite
      (.bind .advance fun _ => .bind (.peekIs _) fun _ => .ite (.pure [])
        (.bind .advance fun _ => .bind (h.expression _) fun _ =>
          .bind (moreExpressions_moves close n) fun _ => .pure _))
      (.pure [])

theorem expressions_moves (close : TokenKind) : Moves (expressions inner close) :=
  .bind (.peekIs _) fun _ => .ite
    (.bind .advance fun _ => .pure [])
    (.bind .advance fun _ => .bind (h.expression _) fun _ => .bind .roundsLeft fun _ =>
      .bind (moreExpressions_moves h close _) fun _ => .bind (.expect _ _) fun _ => .pure _)

theorem propertyValue_moves : Moves (propertyValue inner) :=
  .bind (.peekIs _) fun _ => .ite
    (.bind .advance fun _ => .bind .advance fun _ => .bind (h.expression _) fun _ => .pure _)
    (.pure none)

theorem properties_moves : ∀ n, Moves (properties inner n)
  | 0 => .pure []
  | n + 1 => .bind (.peekIs _) fun _ => .ite
      (.bind .advance fun _ => .pure [])
      (.bind (.expect _ _) fun _ => .bind .identifier fun _ =>
        .bind (propertyValue_moves h) fun _ => .bind (.spanFrom _) fun _ =>
        .bind (.peekIs _) fun _ => .ite
          (.bind .advance fun _ => .bind (properties_moves n) fun _ => .pure _)
          (.bind (.expect _ _) fun _ => .pure _))

theorem alternative_moves : Moves (alternative inner) :=
  .bind (.peekIs _) fun _ => .ite
    (.bind .advance fun _ => .bind (.peekIs _) fun _ => .ite
      (.bind .advance fun _ => .bind h.conditional fun _ => .pure _)
      (.bind (.expect _ _) fun _ => .bind (block_moves h) fun _ => .pure _))
    (.pure none)

theorem conditional_moves : Moves (conditional inner) :=
  .bind .current fun _ => .bind (.expect _ _) fun _ => .bind .advance fun _ =>
    .bind (h.expression _) fun _ => .bind (.expect _ _) fun _ => .bind (.expect _ _) fun _ =>
      .bind (block_moves h) fun _ => .bind (alternative_moves h) fun _ =>
        .bind (.spanFrom _) fun _ => .pure _

omit h in
theorem integer_moves : Moves integer :=
  .bind .current fun _ => .ite (.pure _) (.fail _ _)

omit h in
theorem string_moves : Moves string :=
  .bind .current fun _ => .ite (.bind (.report _ _) fun _ => .pure _) (.pure _)

theorem unary_moves (op : UnaryOp) : Moves (unary inner op) :=
  .bind .current fun _ => .bind .advance fun _ => .bind (h.expression _) fun _ =>
    .bind (.spanFrom _) fun _ => .pure _

theorem group_moves : Moves (group inner) :=
  .bind .current fun _ => .bind .advance fun _ => .bind (h.expression _) fun _ =>
    .bind (.expect _ _) fun _ => .bind (.spanFrom _) fun _ => .pure _

theorem object_moves : Moves (object inner) :=
  .bind .current fun _ => .bind .roundsLeft fun _ => .bind (properties_moves h _) fun _ =>
    .bind (.spanFrom _) fun _ => .pure _

theorem array_moves : Moves (array inner) :=
  .bind .current fun _ => .bind (expressions_moves h _) fun _ => .bind (.spanFrom _) fun _ =>
    .pure _

theorem operand_moves : Moves (operand inner) := by
  refine .bind .current fun t => ?_
  cases t.kind with
  | ident | trueKw | falseKw => exact .pure _
  | int => exact integer_moves
  | string => exact string_moves
  | bang | minus => exact unary_moves h _
  | lparen => exact group_moves h
  | lbrace => exact object_moves h
  | lbracket => exact array_moves h
  | ifKw => exact conditional_moves h
  | functionKw => exact .bind (function_moves h) fun _ => .pure _
  | _ => exact .fail _ _

theorem operation_moves (left : Expr Unit) : Moves (operation inner left) := by
  refine .bind .current fun t => ?_
  have hbinary (kind : TokenKind) (op : BinaryOp) : Moves (do
      advance
      let right ← inner.expression (.of kind)
      return .binary (← spanFrom left.span.start) op left right : Rule (Expr Unit)) :=
    .bind .advance fun _ => .bind (h.expression _) fun _ => .bind (.spanFrom _) fun _ => .pure _
  cases t.kind with
  | lparen =>
    exact .bind (expressions_moves h _) fun _ => .bind (.spanFrom _) fun _ => .pure _
  | lbracket =>
    exact .bind .advance fun _ => .bind (h.expression _) fun _ => .bind (.expect _ _) fun _ =>
      .bind (.spanFrom _) fun _ => .pure _
  | assign =>
    exact .bind .advance fun _ => .bind (h.expression _) fun _ => .bind (.spanFrom _) fun _ =>
      .pure _
  | plus | minus | asterisk | slash | lt | lte | gt | gte | eq | notEq => exact hbinary _ _
  | _ => exact .pure _

theorem operations_moves (floor : Precedence) :
    ∀ n left, Moves (operations inner floor n left)
  | 0, _ => .pure _
  | n + 1, left => .bind .get fun _ => .ite
      (.bind .advance fun _ => .bind (operation_moves h left) fun x => operations_moves floor n x)
      (.pure _)

theorem expression_moves (floor : Precedence) : Moves (expression inner floor) :=
  .bind (operand_moves h) fun x => .bind .roundsLeft fun n => operations_moves h floor n x

theorem declaration_moves : Moves (declaration inner) := by
  have hspan (n : Nat) (c : Bool) (x : Ident) (v : Option (Expr Unit)) :
      Moves (do return .declare (← spanFrom n) c x v : Rule (Stmt Unit)) :=
    .bind (.spanFrom n) fun _ => .pure _
  exact .bind .current fun _ => .bind (.expect _ _) fun _ => .bind .identifier fun _ =>
    .bind (.peekIs _) fun _ => .ite
      (.bind .advance fun _ => .ite
        (.bind .current fun _ => .bind (.report _ _) fun _ => hspan _ _ _ _) (hspan _ _ _ _))
      (.bind (.expect _ _) fun _ => .bind .advance fun _ => .bind (h.expression _) fun _ =>
        .bind (.expect _ _) fun _ => hspan _ _ _ _)

theorem returnStatement_moves : Moves (returnStatement inner) :=
  .bind .current fun _ => .bind .advance fun _ => .bind .current fun _ => .ite
    (.fail _ _)
    (.bind (h.expression _) fun _ => .bind (.skip _) fun _ => .bind (.spanFrom _) fun _ => .pure _)

theorem functionStatement_moves (name : Ident) : Moves (functionStatement inner name) :=
  .bind .current fun _ => .bind (function_moves h) fun _ => .bind (.skip _) fun _ =>
    .bind (.spanFrom _) fun _ => .pure _

theorem expressionStatement_moves : Moves (expressionStatement inner) :=
  .bind .current fun _ => .bind (h.expression _) fun _ => .bind (.skip _) fun _ =>
    .bind (.spanFrom _) fun _ => .pure _

theorem statement_moves : Moves (statement inner) := by
  refine .bind .get fun s => ?_
  cases s.current.kind with
  | letKw | constKw => exact declaration_moves h
  | returnKw => exact returnStatement_moves h
  | functionKw => exact .ite (functionStatement_moves h _) (expressionStatement_moves h)
  | _ => exact expressionStatement_moves h

theorem programStatements_moves : ∀ n, Moves (programStatements inner n)
  | 0 => .pure []
  | n + 1 => by
    refine .bind .current fun t => .ite (.pure []) (.bind h.statement.attempt fun x => ?_)
    cases x with
    | some x =>
      exact .bind .advance fun _ => .bind (programStatements_moves n) fun _ => .pure _
    | none =>
      exact .bind .synchronize fun _ => .bind .advance fun _ => programStatements_moves n

end Moves

theorem refuse_moves {α : Type} : Moves (refuse : Rule α) := .bind .current fun _ => .fail _ _

/-- At every level of nesting, each rule moves on. -/
theorem level_moves : ∀ n, (level n).Move
  | 0 => ⟨refuse_moves, fun _ => refuse_moves, refuse_moves⟩
  | n + 1 =>
    have h := level_moves n
    ⟨statement_moves h, expression_moves h, conditional_moves h⟩

end Primer.Parser
