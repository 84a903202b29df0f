/-
  Primer/Proofs/Parser/Names.lean
  ===============================
  **Names in a tree are names.**

  Whatever is wrong with a source, a name in its tree was read from a token of the kind of names,
  and the lexer gives that kind to nothing but words of letters that are not reserved.  A function
  that is declared goes by the name that its declaration goes by, since both are read from one
  token.  So the tree can be told from its S-expression, up to spans.
-/
import Primer.Proofs.Parser.Layout
import Primer.Proofs.Tree.Sexpr

namespace Primer

/-! ### Tokens -/

theorem punctuator?_ne_ident {c : Char} {kind : TokenKind} (h : punctuator? c = some kind) :
    kind ≠ .ident := by
  unfold punctuator? at h
  split at h
  all_goals
    cases h
    try decide

theorem pairing?_ne_ident {c : Char} {p : Pairing} (h : pairing? c = some p) :
    p.pair ≠ .ident ∧ p.alone ≠ .ident := by
  unfold pairing? at h
  split at h
  all_goals
    cases h
    try decide

theorem isName_of_letters {c : Char} {cs : List Char} (h : ∀ d ∈ c :: cs, isLetter d = true)
    (hk : TokenKind.ofWord (String.ofList (c :: cs)) = .ident) :
    isName (String.ofList (c :: cs)) = true := by
  unfold isName
  rw [hk, String.toList_ofList, List.all_eq_true.2 h]
  rfl

theorem Lexeme.read_isName (c : Char) (cs : List Char) :
    (read c cs).kind = .ident → isName (String.ofList (read c cs).literal) = true := by
  unfold read
  split
  next kind hkind => exact fun h => absurd h (punctuator?_ne_ident hkind)
  next =>
    split
    next p hp =>
      obtain ⟨hpair, halone⟩ := pairing?_ne_ident hp
      split
      · split
        · exact fun h => absurd h hpair
        · exact fun h => absurd h halone
      · exact fun h => absurd h halone
    next =>
      split
      next =>
        unfold readString
        split <;> exact nofun
      next =>
        split
        next => exact nofun
        next =>
          split
          next hletter =>
            intro h
            refine isName_of_letters (List.forall_mem_cons.2 ⟨hletter, fun d hd => ?_⟩) h
            exact List.all_eq_true.1 List.all_takeWhile d hd
          next => exact nofun

theorem Cursor.tokens_isName (c : Cursor) :
    ∀ t ∈ c.tokens, t.kind = .ident → isName t.literal = true := by
  induction c using Cursor.tokens.induct with
  | case1 c heof =>
    rw [Cursor.tokens, dif_pos heof]
    intro t ht hk
    rw [List.mem_singleton.1 ht, heof] at hk
    cases hk
  | case2 c hne ih =>
    rw [Cursor.tokens, dif_neg hne]
    refine List.forall_mem_cons.2 ⟨?_, ih⟩
    simp only [Cursor.next]
    split
    · intro hk
      cases hk
    next x xs _ => exact Lexeme.read_isName x xs

namespace Parser

variable {α β : Type} {P : α → Prop} {Q : β → Prop} {x : Rule α} {f : α → Rule β} {s : State}

/-- Names among the tokens from the current one on are names. -/
def State.Named (s : State) : Prop := ∀ t ∈ s.tokens, t.kind = .ident → isName t.literal = true

theorem State.Named.of_leads {u : State} (hs : s.Named) (h : s.Leads u) : u.Named :=
  fun t ht => hs t (List.IsSuffix.mem ht h.suffix)

theorem State.ofString_named (source : String) : (ofString source).Named := by
  unfold State.Named
  rw [ofString_tokens]
  exact Cursor.tokens_isName _

/-- What the rule yields from `s` has the property, and names are names behind it. -/
def ProducesFrom (s : State) (P : α → Prop) (x : Rule α) : Prop :=
  match x s with
  | .ok a u => P a ∧ u.Named
  | .error _ u => u.Named

/-- The same, from wherever names are names. -/
def Produces (P : α → Prop) (x : Rule α) : Prop := ∀ s : State, s.Named → ProducesFrom s P x

/-! ### Steps -/

namespace Produces

theorem pure {a : α} (h : P a) : Produces P (pure a) := fun _ hs => ⟨h, hs⟩

theorem bind (hx : Produces P x) (hf : ∀ a, P a → Produces Q (f a)) : Produces Q (x >>= f) := by
  intro s hs
  have hx := hx s hs
  show ProducesFrom s Q (EStateM.bind x f)
  unfold ProducesFrom EStateM.bind at *
  cases hr : x s with
  | ok a t =>
    rw [hr] at hx
    exact hf a hx.1 t hx.2
  | error e t =>
    rw [hr] at hx
    exact hx

/-- A step of which the result does not matter. -/
theorem step (hx : Moves x) (hf : ∀ a, Produces Q (f a)) : Produces Q (x >>= f) := by
  refine bind (P := fun _ => True) (fun s hs => ?_) fun a _ => hf a
  unfold ProducesFrom
  cases hr : x s with
  | ok a t => exact ⟨trivial, hs.of_leads (hx.ok hr)⟩
  | error e t => exact hs.of_leads (hx.error hr).1

theorem ite {c : Prop} [Decidable c] {y : Rule α} (hx : Produces P x) (hy : Produces P y) :
    Produces P (if c then x else y) := by
  split
  · exact hx
  · exact hy

theorem fail (span : Span) (p : Problem) : Produces P (fail span p : Rule α) :=
  fun s hs => hs.of_leads (s.leads_report span p)

theorem attempt (hx : Produces P x) : Produces (fun a => ∀ b ∈ a, P b) (attempt x) := by
  intro s hs
  have hx := hx s hs
  unfold ProducesFrom Parser.attempt at *
  cases hr : x s with
  | ok a t =>
    rw [hr] at hx
    exact ⟨fun b hb => Option.some.inj hb ▸ hx.1, hx.2⟩
  | error e t =>
    rw [hr] at hx
    exact ⟨nofun, hx⟩

theorem current {f : Token → Rule α}
    (hf : ∀ t : Token, (t.kind = .ident → isName t.literal = true) → Produces P (f t)) :
    Produces P (current >>= f) :=
  fun s hs => hf s.current (hs s.current List.mem_cons_self) s hs

theorem name_of_peek (hs : s.Named) (hk : s.peek.kind = .ident) : s.advance.name.WellNamed := by
  rw [← s.advance_current] at hk
  exact hs.of_leads s.leads_advance _ List.mem_cons_self hk

/-- A name that has to be there. -/
theorem name {place : Place} {f : Ident → Rule α} (hf : ∀ x, x.WellNamed → Produces P (f x)) :
    Produces P (expect .ident place >>= fun _ => identifier >>= f) := by
  intro s hs
  show ProducesFrom s P (EStateM.bind (Parser.expect .ident place) _)
  unfold ProducesFrom EStateM.bind
  cases hr : Parser.expect .ident place s with
  | ok a t =>
    obtain ⟨hk, rfl⟩ := expect_ok.1 hr
    exact hf _ (name_of_peek hs hk) _ (hs.of_leads s.leads_advance)
  | error e t => exact hs.of_leads ((Moves.expect .ident place).error hr).1

end Produces

/-! ### Rules -/

theorem wellNamed_withSpan {ι : Type} (span : Span) {e : Expr ι} (h : e.WellNamed) :
    (e.withSpan span).WellNamed := by
  cases e with
  | cond _ _ _ a => cases a <;> exact h
  | _ => exact h

/-- All that the rules yield is well named. -/
structure Rules.Name (r : Rules) : Prop where
  statement : Produces Stmt.WellNamed r.statement
  expression : ∀ floor, Produces Expr.WellNamed (r.expression floor)
  conditional : Produces Expr.WellNamed r.conditional

theorem moreParameters_wellNamed : ∀ n, Produces (∀ x ∈ ·, x.WellNamed) (moreParameters n)
  | 0 => .pure nofun
  | n + 1 => by
    refine .step (.peekIs .comma) fun _ => .ite (.step .advance fun _ => ?_) (.pure nofun)
    refine .name fun x hx => .bind (moreParameters_wellNamed n) fun xs hxs => ?_
    exact .pure (List.forall_mem_cons.2 ⟨hx, hxs⟩)

theorem parameters_wellNamed : Produces (∀ x ∈ ·, x.WellNamed) parameters := by
  refine .step (.peekIs .rparen) fun _ => .ite ?_ ?_
  · exact .step .advance fun _ => .pure nofun
  · refine .name fun x hx => .step .roundsLeft fun n => ?_
    refine .bind (moreParameters_wellNamed n) fun xs hxs => .step (.expect .rparen _) fun _ => ?_
    exact .pure (List.forall_mem_cons.2 ⟨hx, hxs⟩)

theorem functionName_wellNamed : Produces (∀ x ∈ ·, x.WellNamed) functionName := by
  intro s hs
  unfold ProducesFrom
  cases hr : functionName s with
  | ok x u =>
    refine ⟨?_, hs.of_leads (functionName_moves.ok hr)⟩
    rw [functionName_ok] at hr
    split at hr
    next hk =>
      obtain ⟨rfl, -⟩ := hr
      rintro x ⟨⟩
      exact Produces.name_of_peek hs hk
    next =>
      obtain ⟨rfl, -⟩ := hr
      exact nofun
  | error e u => exact hs.of_leads (functionName_moves.error hr).1

section

variable {inner : Rules} (h : inner.Name)
include h

theorem blockStatements_wellNamed : ∀ n, Produces WellNamedStmts (blockStatements inner n)
  | 0 => .pure trivial
  | n + 1 => by
    refine .current fun t _ => .ite (.pure trivial) (.bind (.attempt h.statement) fun x hx => ?_)
    cases x with
    | some x =>
      refine .step .advance fun _ => .bind (blockStatements_wellNamed n) fun xs hxs => ?_
      exact .pure ⟨hx x rfl, hxs⟩
    | none =>
      refine .step .synchronize fun _ => .current fun t _ => .ite (.pure trivial) ?_
      exact .step .advance fun _ => blockStatements_wellNamed n

theorem block_wellNamed : Produces Block.WellNamed (block inner) := by
  refine .current fun first _ => .step .advance fun _ => .step .roundsLeft fun n => ?_
  refine .bind (blockStatements_wellNamed h n) fun ss hss => .current fun last _ => ?_
  have hblock : Produces Block.WellNamed (do return ⟨← spanFrom first.span.start, ss⟩) :=
    .step (.spanFrom _) fun span => .pure hss
  exact .ite (.step (.report _ _) fun _ => hblock) hblock

theorem function_wellNamed : Produces Function.WellNamed (function inner) := by
  refine .current fun t _ => .bind functionName_wellNamed fun x hx => ?_
  refine .step (.expect .lparen _) fun _ => .bind parameters_wellNamed fun xs hxs => ?_
  refine .step (.expect .lbrace _) fun _ => .bind (block_wellNamed h) fun b hb => ?_
  exact .step (.spanFrom _) fun span => .pure ⟨hx, hxs, hb⟩

theorem moreExpressions_wellNamed (close : TokenKind) :
    ∀ n, Produces WellNamedExprs (moreExpressions inner close n)
  | 0 => .pure trivial
  | n + 1 => by
    refine .step (.peekIs .comma) fun _ => .ite (.step .advance fun _ => ?_) (.pure trivial)
    refine .step (.peekIs close) fun _ => .ite (.pure trivial) (.step .advance fun _ => ?_)
    refine .bind (h.expression _) fun e he => ?_
    exact .bind (moreExpressions_wellNamed close n) fun es hes => .pure ⟨he, hes⟩

theorem expressions_wellNamed (close : TokenKind) :
    Produces WellNamedExprs (expressions inner close) := by
  refine .step (.peekIs close) fun _ => .ite ?_ ?_
  · exact .step .advance fun _ => .pure trivial
  · refine .step .advance fun _ => .bind (h.expression _) fun e he => .step .roundsLeft fun n => ?_
    refine .bind (moreExpressions_wellNamed h close n) fun es hes => ?_
    exact .step (.expect close _) fun _ => .pure ⟨he, hes⟩

theorem propertyValue_wellNamed : Produces (∀ e ∈ ·, e.WellNamed) (propertyValue inner) := by
  refine .step (.peekIs .colon) fun _ => .ite ?_ (.pure nofun)
  refine .step .advance fun _ => .step .advance fun _ => .bind (h.expression _) fun e he => ?_
  refine .pure fun e' he' => ?_
  cases he'
  exact he

omit h in
theorem wellNamedProperties_cons {span : Span} {key : Ident} {v : Option (Expr Unit)}
    {ps : List (Property (Option (Expr Unit)))} (hkey : key.WellNamed)
    (hv : ∀ e ∈ v, e.WellNamed) (hps : WellNamedProperties ps) :
    WellNamedProperties (⟨span, key, v⟩ :: ps) := by
  cases v with
  | none => exact ⟨hkey, hps⟩
  | some e => exact ⟨hkey, hv e rfl, hps⟩

theorem properties_wellNamed : ∀ n, Produces WellNamedProperties (properties inner n)
  | 0 => .pure trivial
  | n + 1 => by
    refine .step (.peekIs .rbrace) fun _ => .ite (.step .advance fun _ => .pure trivial) ?_
    refine .name fun key hkey => .bind (propertyValue_wellNamed h) fun v hv => ?_
    refine .step (.spanFrom _) fun span => .step (.peekIs .comma) fun _ => .ite ?_ ?_
    · refine .step .advance fun _ => .bind (properties_wellNamed n) fun ps hps => ?_
      exact .pure (wellNamedProperties_cons hkey hv hps)
    · exact .step (.expect .rbrace _) fun _ => .pure (wellNamedProperties_cons hkey hv trivial)

theorem alternative_wellNamed : Produces (∀ b ∈ ·, b.WellNamed) (alternative inner) := by
  have hsome {b : Block Unit} (hb : b.WellNamed) : ∀ b' ∈ some b, b'.WellNamed := by
    rintro b' ⟨⟩
    exact hb
  refine .step (.peekIs .elseKw) fun _ => .ite (.step .advance fun _ => ?_) (.pure nofun)
  refine .step (.peekIs .ifKw) fun _ => .ite ?_ ?_
  · exact .step .advance fun _ => .bind h.conditional fun e he => .pure (hsome ⟨he, trivial⟩)
  · exact .step (.expect .lbrace _) fun _ => .bind (block_wellNamed h) fun b hb => .pure (hsome hb)

theorem conditional_wellNamed : Produces Expr.WellNamed (conditional inner) := by
  refine .current fun t _ => .step (.expect .lparen _) fun _ => .step .advance fun _ => ?_
  refine .bind (h.expression _) fun c hc => .step (.expect .rparen _) fun _ => ?_
  refine .step (.expect .lbrace _) fun _ => .bind (block_wellNamed h) fun b hb => ?_
  refine .bind (alternative_wellNamed h) fun a ha => .step (.spanFrom _) fun span => .pure ?_
  cases a with
  | none => exact ⟨hc, hb⟩
  | some a => exact ⟨hc, hb, ha a rfl⟩

omit h in
theorem integer_wellNamed : Produces Expr.WellNamed integer :=
  .current fun _ _ => .ite (.pure trivial) (.fail _ _)

omit h in
theorem string_wellNamed : Produces Expr.WellNamed string := by
  refine .current fun t _ => .ite (.step (.report _ _) fun _ => ?_) (.pure trivial)
  exact .pure trivial

theorem unary_wellNamed (op : UnaryOp) : Produces Expr.WellNamed (unary inner op) := by
  refine .current fun t _ => .step .advance fun _ => .bind (h.expression _) fun e he => ?_
  exact .step (.spanFrom _) fun span => .pure he

theorem group_wellNamed : Produces Expr.WellNamed (group inner) := by
  refine .current fun t _ => .step .advance fun _ => .bind (h.expression _) fun e he => ?_
  refine .step (.expect .rparen _) fun _ => .step (.spanFrom _) fun span => ?_
  exact .pure (wellNamed_withSpan span he)

theorem object_wellNamed : Produces Expr.WellNamed (object inner) := by
  refine .current fun t _ => .step .roundsLeft fun n => ?_
  refine .bind (properties_wellNamed h n) fun ps hps => ?_
  exact .step (.spanFrom _) fun span => .pure hps

theorem array_wellNamed : Produces Expr.WellNamed (array inner) := by
  refine .current fun t _ => .bind (expressions_wellNamed h .rbracket) fun es hes => ?_
  exact .step (.spanFrom _) fun span => .pure hes

theorem operand_wellNamed : Produces Expr.WellNamed (operand inner) := by
  refine .current fun t ht => ?_
  cases hk : t.kind with
  | ident => exact .pure (ht hk)
  | trueKw | falseKw => exact .pure trivial
  | int => exact integer_wellNamed
  | string => exact string_wellNamed
  | bang | minus => exact unary_wellNamed h _
  | lparen => exact group_wellNamed h
  | lbrace => exact object_wellNamed h
  | lbracket => exact array_wellNamed h
  | ifKw => exact conditional_wellNamed h
  | functionKw => exact .bind (function_wellNamed h) fun fn hfn => .pure hfn
  | _ => exact .fail _ _

theorem operation_wellNamed {left : Expr Unit} (hleft : left.WellNamed) :
    Produces Expr.WellNamed (operation inner left) := by
  have hbinary (floor : Precedence) (op : BinaryOp) : Produces Expr.WellNamed (do
      advance
      let right ← inner.expression floor
      return .binary (← spanFrom left.span.start) op left right) := by
    refine .step .advance fun _ => .bind (h.expression _) fun e he => ?_
    exact .step (.spanFrom _) fun span => .pure ⟨hleft, he⟩
  refine .current fun t _ => ?_
  cases t.kind with
  | lparen =>
    refine .bind (expressions_wellNamed h .rparen) fun es hes => ?_
    exact .step (.spanFrom _) fun span => .pure ⟨hleft, hes⟩
  | lbracket =>
    refine .step .advance fun _ => .bind (h.expression _) fun e he => ?_
    refine .step (.expect .rbracket _) fun _ => .step (.spanFrom _) fun span => ?_
    exact .pure ⟨hleft, he⟩
  | assign =>
    refine .step .advance fun _ => .bind (h.expression _) fun e he => ?_
    exact .step (.spanFrom _) fun span => .pure ⟨hleft, he⟩
  | plus | minus | asterisk | slash | lt | lte | gt | gte | eq | notEq => exact hbinary _ _
  | _ => exact .pure hleft

theorem operations_wellNamed (floor : Precedence) : ∀ n {left : Expr Unit}, left.WellNamed →
    Produces Expr.WellNamed (operations inner floor n left)
  | 0, _, hleft => .pure hleft
  | n + 1, left, hleft => by
    refine .step .get fun s => .ite (.step .advance fun _ => ?_) (.pure hleft)
    exact .bind (operation_wellNamed h hleft) fun e he => operations_wellNamed floor n he

theorem expression_wellNamed (floor : Precedence) :
    Produces Expr.WellNamed (expression inner floor) :=
  .bind (operand_wellNamed h) fun _ he =>
    .step .roundsLeft fun n => operations_wellNamed h floor n he

theorem declaration_wellNamed : Produces Stmt.WellNamed (declaration inner) := by
  refine .current fun first _ => .name fun x hx => .step (.peekIs .semicolon) fun _ => .ite ?_ ?_
  · have hstmt : Produces Stmt.WellNamed (do
        return .declare (← spanFrom first.span.start) (first.is .constKw) x none :
        Rule (Stmt Unit)) := .step (.spanFrom _) fun span => .pure hx
    refine .step .advance fun _ => .ite ?_ hstmt
    exact .current fun t _ => .step (.report _ _) fun _ => hstmt
  · refine .step (.expect .assign _) fun _ => .step .advance fun _ => ?_
    refine .bind (h.expression _) fun e he => .step (.expect .semicolon _) fun _ => ?_
    exact .step (.spanFrom _) fun span => .pure ⟨hx, he⟩

theorem returnStatement_wellNamed : Produces Stmt.WellNamed (returnStatement inner) := by
  refine .current fun t _ => .step .advance fun _ => .current fun t _ => .ite (.fail _ _) ?_
  refine .bind (h.expression _) fun e he => .step (.skip .semicolon) fun _ => ?_
  exact .step (.spanFrom _) fun span => .pure he

theorem expressionStatement_wellNamed : Produces Stmt.WellNamed (expressionStatement inner) := by
  refine .current fun t _ => .bind (h.expression _) fun e he => .step (.skip .semicolon) fun _ => ?_
  exact .step (.spanFrom _) fun span => .pure he

omit h in
/-- A function in front of which a name stands goes by that name. -/
theorem function_name_of_peek {fn : Function Unit} {u : State} (hk : s.peek.kind = .ident)
    (hr : function inner s = .ok fn u) : fn.name.map (·.name) = some s.peek.literal := by
  obtain ⟨x, t, xs, v, b, hx, -, -, -, -, rfl⟩ := function_ok.1 hr
  rw [functionName_ok, if_pos hk] at hx
  obtain ⟨rfl, -⟩ := hx
  rw [← s.advance_current]
  rfl

theorem functionStatement_wellNamed (hs : s.Named) (hk : s.peek.kind = .ident) :
    ProducesFrom s Stmt.WellNamed (functionStatement inner ⟨s.peek.span, s.peek.literal⟩) := by
  have hfn (x : Ident) : Produces (fun y => ∃ span fn, y = .function span x fn ∧ fn.WellNamed)
      (functionStatement inner x) := by
    refine .current fun t _ => .bind (function_wellNamed h) fun fn hfn => ?_
    refine .step (.skip .semicolon) fun _ => .step (.spanFrom _) fun span => ?_
    exact .pure ⟨span, fn, rfl, hfn⟩
  have hyields := hfn ⟨s.peek.span, s.peek.literal⟩ s hs
  unfold ProducesFrom at hyields ⊢
  cases hr : functionStatement inner ⟨s.peek.span, s.peek.literal⟩ s with
  | ok y u =>
    rw [hr] at hyields
    obtain ⟨⟨span, fn, rfl, hfn⟩, hu⟩ := hyields
    obtain ⟨fn', t, hfn', -, ⟨⟩⟩ := functionStatement_ok.1 hr
    exact ⟨⟨function_name_of_peek hk hfn', hfn⟩, hu⟩
  | error e u =>
    rw [hr] at hyields
    exact hyields

theorem statement_wellNamed : Produces Stmt.WellNamed (statement inner) := by
  intro s hs
  unfold ProducesFrom
  rw [statement_run]
  cases s.current.kind with
  | letKw | constKw => exact declaration_wellNamed h s hs
  | returnKw => exact returnStatement_wellNamed h s hs
  | functionKw =>
    dsimp only
    by_cases hk : s.peek.kind = .ident
    · rw [if_pos hk]
      exact functionStatement_wellNamed h hs hk
    · rw [if_neg hk]
      exact expressionStatement_wellNamed h s hs
  | _ => exact expressionStatement_wellNamed h s hs

theorem programStatements_wellNamed : ∀ n, Produces WellNamedStmts (programStatements inner n)
  | 0 => .pure trivial
  | n + 1 => by
    refine .current fun t _ => .ite (.pure trivial) (.bind (.attempt h.statement) fun x hx => ?_)
    cases x with
    | some x =>
      refine .step .advance fun _ => .bind (programStatements_wellNamed n) fun xs hxs => ?_
      exact .pure ⟨hx x rfl, hxs⟩
    | none =>
      exact .step .synchronize fun _ => .step .advance fun _ => programStatements_wellNamed n

end

theorem refuse_wellNamed : Produces P refuse := .current fun _ _ => .fail _ _

theorem level_name (n : Nat) : (level n).Name := by
  induction n with
  | zero => exact ⟨refuse_wellNamed, fun _ => refuse_wellNamed, refuse_wellNamed⟩
  | succ n ih => exact ⟨statement_wellNamed ih, expression_wellNamed ih, conditional_wellNamed ih⟩

theorem program_wellNamed : Produces (fun p => WellNamedStmts p.statements) program := by
  refine .step .roundsLeft fun n =>
    .bind (programStatements_wellNamed (level_name _) n) fun ss hss => ?_
  exact .step (.spanFrom _) fun span => .pure hss

end Parser

/-- Names in what is parsed are names, whatever diagnostics there are. -/
theorem parse_wellNamed (source : String) : WellNamedStmts (parse source).1.statements := by
  have hprogram := Parser.program_wellNamed _ (Parser.State.ofString_named source)
  unfold Parser.ProducesFrom at hprogram
  unfold parse parseAs Parser.State.readProgram
  cases hr : Parser.program (Parser.State.ofString source : Parser.State) with
  | ok p u =>
    rw [hr] at hprogram
    exact hprogram.1
  | error e u => trivial

/-- **The S-expression loses nothing but spans.**  Two sources with the same S-expression have the
same tree once spans are erased, whatever diagnostics there are, and so the same tree when they are
read without places. -/
theorem parse_eraseSpans_of_sexpr {a b : String} (h : (parse a).1.sexpr = (parse b).1.sexpr) :
    (parse a).1.eraseSpans = (parse b).1.eraseSpans ∧
      (parseAs .erased a).1 = (parseAs .erased b).1 := by
  have htree := Program.eraseSpans_eq_of_sexpr_eq (parse_wellNamed a) (parse_wellNamed b) h
  rw [parseAs_erased, parseAs_erased]
  exact ⟨htree, htree⟩

/-- A call written in two ways, once with a broken statement behind it. -/
theorem parse_eraseSpans_of_sexpr_call :
    (parse "f('a'); let = 1;").1.sexpr = "(call f \"a\")" ∧
      (parse "f('a'); let = 1;").1.eraseSpans = (parse "(f)( \"a\" ,)").1.eraseSpans ∧
      (parseAs .erased "f('a'); let = 1;").1 = (parseAs .erased "(f)( \"a\" ,)").1 :=
  ⟨by decide +kernel, parse_eraseSpans_of_sexpr (by decide +kernel)⟩

end Primer
