/-
  Primer/Proofs/Parser/Reports.lean
  =================================
  **Diagnostics stand at tokens, in the order of the source.**

  A rule reports what is wrong with the token it stands on or with the next one.  A report at the
  next token must not be followed by one at the current token, so it matters how far ahead something
  has been reported (`Horizon`).  A rule starts with nothing reported behind its first token, and
  may leave a report at the token behind its last.  What follows it then either looks at that token
  as well or moves on first: a rule that has failed is given up by all rules around it, up to the
  loop over statements that skips what is left of it, and that loop moves on before it reads the
  next statement.  There is one case in which it does not, where a closing brace ends the block
  early.  A block reports at its last token, but only if that is the end of the source, behind which
  nothing can have been reported.
-/
import Primer.Proofs.Parser.Append
import Primer.Proofs.Parser.Lockstep
import Primer.Proofs.Parser.Spans

namespace Primer

namespace Parser

variable {α β : Type} {source : String} {s t u : State} {inner : Rules}

/-- How far ahead of a reading something may have been reported. -/
inductive Horizon where
  /-- up to the token it stands on -/
  | current
  /-- up to the next token -/
  | next

namespace State

/-- The offset up to which something may have been reported. -/
def horizon (s : State) : Horizon → Nat
  | .current => s.current.span.start
  | .next => s.peek.span.start

/-- What has been reported stands at tokens of the source, in order and up to the horizon. -/
structure Reported (source : String) (h : Horizon) (s : State) : Prop where
  on : s.On source
  placed : ∀ d ∈ s.diagnostics, ∃ t ∈ lex source, d.span = t.span
  ordered : s.diagnostics.Pairwise fun a b => a.span.start ≤ b.span.start
  bounded : ∀ d ∈ s.diagnostics, d.span.start ≤ s.horizon h

namespace Reported

variable {h : Horizon}

/-- The next token does not stand before the current one. -/
theorem horizon_le (hs : s.Reported source h) : s.horizon h ≤ s.horizon .next := by
  cases h with
  | current =>
    have hle := Nat.le_trans hs.on.start_le_stop hs.on.stop_le_advance
    rwa [s.advance_current] at hle
  | next => exact Nat.le_refl _

theorem next (hs : s.Reported source h) : s.Reported source .next :=
  ⟨hs.on, hs.placed, hs.ordered, fun d hd => Nat.le_trans (hs.bounded d hd) hs.horizon_le⟩

/-- At the end of the source there is nothing ahead. -/
theorem current_of_eof (hs : s.Reported source h) (hc : s.current.kind = .eof) :
    s.Reported source .current := by
  have hpeek : s.peek = s.current := by
    unfold peek
    rw [ahead_eq_nil hs.on.ended hc]
    rfl
  refine ⟨hs.on, hs.placed, hs.ordered, fun d hd => ?_⟩
  have hle := hs.next.bounded d hd
  unfold horizon at hle ⊢
  rwa [hpeek] at hle

theorem advance (hs : s.Reported source h) : s.advance.Reported source .current := by
  refine ⟨hs.on.advance, ?_, ?_, ?_⟩
  · rw [s.advance_diagnostics]
    exact hs.placed
  · rw [s.advance_diagnostics]
    exact hs.ordered
  · rw [s.advance_diagnostics]
    intro d hd
    have hle := hs.next.bounded d hd
    unfold horizon at hle ⊢
    rwa [s.advance_current]

/-- Something is reported at the horizon. -/
theorem report (hs : s.Reported source h) {span : Span} (hspan : ∃ t ∈ lex source, span = t.span)
    (hstart : span.start = s.horizon h) (p : Problem) :
    (s.report span p).Reported source h := by
  refine ⟨hs.on, ?_, ?_, ?_⟩
  · exact List.forall_mem_append.2 ⟨hs.placed, List.forall_mem_singleton.2 hspan⟩
  · refine List.pairwise_append.2 ⟨hs.ordered, List.pairwise_singleton _ _, fun a ha b hb => ?_⟩
    rw [List.mem_singleton.1 hb, hstart]
    exact hs.bounded a ha
  · refine List.forall_mem_append.2 ⟨hs.bounded, List.forall_mem_singleton.2 ?_⟩
    exact Nat.le_of_eq hstart

theorem report_current (hs : s.Reported source .current) (p : Problem) :
    (s.report s.current.span p).Reported source .current :=
  hs.report ⟨s.current, hs.on.mem, rfl⟩ rfl p

theorem report_next (hs : s.Reported source h) (p : Problem) :
    (s.report s.peek.span p).Reported source .next := by
  have hmem := hs.on.advance.mem
  rw [s.advance_current] at hmem
  exact hs.next.report ⟨s.peek, hmem, rfl⟩ rfl p

theorem synchronize (hs : s.Reported source h) : s.synchronize.Reported source .next := by
  induction hn : s.ahead.length using Nat.strongRecOn generalizing s h with
  | ind n ih =>
    subst hn
    have hround := synchronize_round hs.on.ended
    split at hround
    next =>
      rw [hround]
      exact hs.next
    next =>
      rw [hround.2]
      exact ih _ hround.1 hs.advance rfl

end Reported

end State

/-! ### Rules that report in order -/

/-- However the rule ends, reports are in order; if it succeeds, up to the horizon `k`. -/
def Ends (source : String) (k : Horizon) : EStateM.Result Failed State α → Prop
  | .ok _ t => t.Reported source k
  | .error _ t => t.Reported source .next

/-- From where reports are in order up to the horizon `h`, the rule keeps them so. -/
def Reports (source : String) (h : Horizon) (x : Rule α) (k : Horizon) : Prop :=
  ∀ s, s.Reported source h → Ends source k (x s)

theorem ends_ite {k : Horizon} {c : Prop} [Decidable c] {x y : Rule α}
    (hx : Ends source k (x s)) (hy : Ends source k (y s)) :
    Ends source k ((if c then x else y : Rule α) s) := by
  split
  · exact hx
  · exact hy

theorem ends_fail {k : Horizon} (hs : s.Reported source .current) (p : Problem) :
    Ends source k (fail s.current.span p s : EStateM.Result Failed State α) :=
  (hs.report_current p).next

namespace Reports

variable {h k l : Horizon} {x : Rule α} {f : α → Rule β}

theorem pure (a : α) : Reports source h (pure a : Rule α) .next := fun _ hs => hs.next

theorem bind (hx : Reports source h x k) (hf : ∀ a, Reports source k (f a) l) :
    Reports source h (x >>= f) l := by
  intro s hs
  have hends := hx s hs
  cases hr : x s with
  | ok a t =>
    rw [hr] at hends
    rw [bind_of_ok hr]
    exact hf a t hends
  | error e t =>
    rw [hr] at hends
    rw [bind_of_error hr]
    exact hends

theorem ite {c : Prop} [Decidable c] {y : Rule α} (hx : Reports source h x k)
    (hy : Reports source h y k) : Reports source h (if c then x else y) k := by
  split
  · exact hx
  · exact hy

theorem get : Reports source h (get : Rule State) h := fun _ hs => hs

theorem current : Reports source h current h := fun _ hs => hs

theorem peekIs (kind : TokenKind) : Reports source h (peekIs kind) h := fun _ hs => hs

theorem spanFrom (n : Nat) : Reports source h (spanFrom n) h := fun _ hs => hs

theorem identifier : Reports source h identifier h := fun _ hs => hs

theorem roundsLeft : Reports source h roundsLeft h := fun _ hs => hs

theorem advance : Reports source h advance .current := fun _ hs => hs.advance

theorem synchronize : Reports source h synchronize .next := fun _ hs => hs.synchronize

theorem expect (kind : TokenKind) (place : Place) :
    Reports source h (expect kind place) .current := by
  intro s hs
  by_cases hk : s.peek.kind = kind
  · rw [expect_of_peek hk]
    exact hs.advance
  · rw [expect_of_not_peek hk]
    exact hs.report_next _

theorem skip (kind : TokenKind) : Reports source h (skip kind) .next :=
  bind (peekIs kind) fun _ => ite (fun _ hs => hs.advance.next) (pure ())

theorem attempt (hx : Reports source h x .next) : Reports source h (attempt x) .next := by
  intro s hs
  have hends := hx s hs
  unfold Parser.attempt
  cases hr : x s with
  | ok a t =>
    rw [hr] at hends
    exact hends
  | error e t =>
    rw [hr] at hends
    exact hends

/-- Where a rule stands may be used to report at that token. -/
theorem atCurrent {f : Token → Rule β}
    (hf : ∀ s, s.Reported source .current → Ends source k (f s.current s)) :
    Reports source .current (Parser.current >>= f) k := hf

end Reports

/-- The rules report in order. -/
structure Rules.Report (source : String) (r : Rules) : Prop where
  statement : Reports source .current r.statement .next
  expression : ∀ floor, Reports source .current (r.expression floor) .next
  conditional : Reports source .current r.conditional .next

/-! ### The rules -/

section

variable (h : inner.Report source)
include h

theorem blockStatements_reports :
    ∀ n, Reports source .current (blockStatements inner n) .next
  | 0 => .pure []
  | n + 1 => by
    refine .bind .current fun t => .ite (.pure []) (.bind h.statement.attempt fun x => ?_)
    cases x with
    | some x =>
      exact .bind .advance fun _ => .bind (blockStatements_reports n) fun _ => .pure _
    | none =>
      exact .bind .synchronize fun _ => .bind .current fun _ =>
        .ite (.pure []) (.bind .advance fun _ => blockStatements_reports n)

/-- Only at the end of the source does a block report that it is not closed. -/
theorem block_reports (hm : inner.Move) {k : Horizon} :
    Reports source k (block inner) .next := by
  intro s hs
  obtain ⟨ss, t, hss⟩ := blockStatements_total inner s.advance.ahead.length s.advance
  have hends := blockStatements_ends hm hs.advance.on.ended (Nat.le_refl _) hss
  have ht : t.Reported source .next := by
    have hreports := blockStatements_reports h s.advance.ahead.length s.advance hs.advance
    rwa [hss] at hreports
  rw [block_ok.2 ⟨ss, t, hss, rfl, rfl⟩]
  show State.Reported source .next (if _ then _ else _)
  split
  next => exact ht
  next hbrace =>
    have heof := hends.resolve_left hbrace
    exact ((ht.current_of_eof heof).report_current _).next

omit h in
theorem moreParameters_reports {k : Horizon} :
    ∀ n, Reports source k (moreParameters n) .next
  | 0 => .pure []
  | n + 1 => .bind (.peekIs _) fun _ => .ite
      (.bind .advance fun _ => .bind (.expect _ _) fun _ => .bind .identifier fun _ =>
        .bind (moreParameters_reports n) fun _ => .pure _)
      (.pure [])

omit h in
theorem parameters_reports {k : Horizon} : Reports source k parameters .next :=
  .bind (.peekIs _) fun _ => .ite
    (.bind .advance fun _ => .pure [])
    (.bind (.expect _ _) fun _ => .bind .identifier fun _ => .bind .roundsLeft fun _ =>
      .bind (moreParameters_reports _) fun _ => .bind (.expect _ _) fun _ => .pure _)

omit h in
theorem functionName_reports {k : Horizon} : Reports source k functionName .next :=
  .bind (.peekIs _) fun _ => .ite
    (.bind .advance fun _ => .bind .identifier fun _ => .pure _)
    (.pure none)

theorem function_reports (hm : inner.Move) : Reports source .current (function inner) .next :=
  .bind .current fun _ => .bind functionName_reports fun _ => .bind (.expect _ _) fun _ =>
    .bind parameters_reports fun _ => .bind (.expect _ _) fun _ => .bind (block_reports h hm) fun _ =>
      .bind (.spanFrom _) fun _ => .pure _

theorem moreExpressions_reports (close : TokenKind) {k : Horizon} :
    ∀ n, Reports source k (moreExpressions inner close n) .next
  | 0 => .pure []
  | n + 1 => .bind (.peekIs _) fun _ => .ite
      (.bind .advance fun _ => .bind (.peekIs _) fun _ => .ite (.pure [])
        (.bind .advance fun _ => .bind (h.expression _) fun _ =>
          .bind (moreExpressions_reports close n) fun _ => .pure _))
      (.pure [])

theorem expressions_reports (close : TokenKind) {k : Horizon} :
    Reports source k (expressions inner close) .next :=
  .bind (.peekIs _) fun _ => .ite
    (.bind .advance fun _ => .pure [])
    (.bind .advance fun _ => .bind (h.expression _) fun _ => .bind .roundsLeft fun _ =>
      .bind (moreExpressions_reports h close _) fun _ => .bind (.expect _ _) fun _ => .pure _)

theorem propertyValue_reports {k : Horizon} : Reports source k (propertyValue inner) .next :=
  .bind (.peekIs _) fun _ => .ite
    (.bind .advance fun _ => .bind .advance fun _ => .bind (h.expression _) fun _ => .pure _)
    (.pure none)

theorem properties_reports {k : Horizon} :
    ∀ n, Reports source k (properties inner n) .next
  | 0 => .pure []
  | n + 1 => .bind (.peekIs _) fun _ => .ite
      (.bind .advance fun _ => .pure [])
      (.bind (.expect _ _) fun _ => .bind .identifier fun _ =>
        .bind (propertyValue_reports h) fun _ => .bind (.spanFrom _) fun _ =>
        .bind (.peekIs _) fun _ => .ite
          (.bind .advance fun _ => .bind (properties_reports n) fun _ => .pure _)
          (.bind (.expect _ _) fun _ => .pure _))

theorem alternative_reports (hm : inner.Move) {k : Horizon} :
    Reports source k (alternative inner) .next :=
  .bind (.peekIs _) fun _ => .ite
    (.bind .advance fun _ => .bind (.peekIs _) fun _ => .ite
      (.bind .advance fun _ => .bind h.conditional fun _ => .pure _)
      (.bind (.expect _ _) fun _ => .bind (block_reports h hm) fun _ => .pure _))
    (.pure none)

theorem conditional_reports (hm : inner.Move) :
    Reports source .current (conditional inner) .next :=
  .bind .current fun _ => .bind (.expect _ _) fun _ => .bind .advance fun _ =>
    .bind (h.expression _) fun _ => .bind (.expect _ _) fun _ => .bind (.expect _ _) fun _ =>
      .bind (block_reports h hm) fun _ => .bind (alternative_reports h hm) fun _ =>
        .bind (.spanFrom _) fun _ => .pure _

omit h in
theorem integer_reports : Reports source .current integer .next :=
  .atCurrent fun _ hs => ends_ite hs.next (ends_fail hs _)

omit h in
theorem string_reports : Reports source .current string .next := by
  refine .atCurrent fun s hs => ?_
  dsimp only
  split
  · exact (hs.report_current _).next
  · exact hs.next

theorem unary_reports (op : UnaryOp) : Reports source .current (unary inner op) .next :=
  .bind .current fun _ => .bind .advance fun _ => .bind (h.expression _) fun _ =>
    .bind (.spanFrom _) fun _ => .pure _

theorem group_reports : Reports source .current (group inner) .next :=
  .bind .current fun _ => .bind .advance fun _ => .bind (h.expression _) fun _ =>
    .bind (.expect _ _) fun _ => .bind (.spanFrom _) fun _ => .pure _

theorem object_reports : Reports source .current (object inner) .next :=
  .bind .current fun _ => .bind .roundsLeft fun _ => .bind (properties_reports h _) fun _ =>
    .bind (.spanFrom _) fun _ => .pure _

theorem array_reports : Reports source .current (array inner) .next :=
  .bind .current fun _ => .bind (expressions_reports h _) fun _ => .bind (.spanFrom _) fun _ =>
    .pure _

theorem operand_reports (hm : inner.Move) : Reports source .current (operand inner) .next := by
  refine .atCurrent fun s hs => ?_
  cases s.current.kind with
  | ident | trueKw | falseKw => exact hs.next
  | int => exact integer_reports s hs
  | string => exact string_reports s hs
  | bang | minus => exact unary_reports h _ s hs
  | lparen => exact group_reports h s hs
  | lbrace => exact object_reports h s hs
  | lbracket => exact array_reports h s hs
  | ifKw => exact conditional_reports h hm s hs
  | functionKw => exact Reports.bind (function_reports h hm) (fun _ => .pure _) s hs
  | _ => exact ends_fail hs _

theorem operation_reports (left : Expr Unit) :
    Reports source .current (operation inner left) .next := by
  have hbinary (kind : TokenKind) (op : BinaryOp) : Reports source .current (do
      advance
      let right ← inner.expression (.of kind)
      return .binary (← spanFrom left.span.start) op left right : Rule (Expr Unit)) .next :=
    .bind .advance fun _ => .bind (h.expression _) fun _ => .bind (.spanFrom _) fun _ => .pure _
  refine .bind .current fun t => ?_
  cases t.kind with
  | lparen =>
    exact .bind (expressions_reports h _) fun _ => .bind (.spanFrom _) fun _ => .pure _
  | lbracket =>
    exact .bind .advance fun _ => .bind (h.expression _) fun _ => .bind (.expect _ _) fun _ =>
      .bind (.spanFrom _) fun _ => .pure _
  | assign =>
    exact .bind .advance fun _ => .bind (h.expression _) fun _ => .bind (.spanFrom _) fun _ =>
      .pure _
  | plus | minus | asterisk | slash | lt | lte | gt | gte | eq | notEq => exact hbinary _ _
  | _ => exact .pure _

theorem operations_reports (floor : Precedence) {k : Horizon} :
    ∀ n left, Reports source k (operations inner floor n left) .next
  | 0, _ => .pure _
  | n + 1, left => .bind .get fun _ => .ite
      (.bind .advance fun _ => .bind (operation_reports h left) fun x =>
        operations_reports floor n x)
      (.pure _)

theorem expression_reports (hm : inner.Move) (floor : Precedence) :
    Reports source .current (expression inner floor) .next :=
  .bind (operand_reports h hm) fun x => .bind .roundsLeft fun n => operations_reports h floor n x

theorem declaration_reports : Reports source .current (declaration inner) .next := by
  have hspan {k : Horizon} (n : Nat) (c : Bool) (x : Ident) (v : Option (Expr Unit)) :
      Reports source k (do return .declare (← spanFrom n) c x v : Rule (Stmt Unit)) .next :=
    .bind (.spanFrom n) fun _ => .pure _
  refine .bind .current fun _ => .bind (.expect _ _) fun _ => .bind .identifier fun _ =>
    .bind (.peekIs _) fun _ => .ite (.bind .advance fun _ => .ite ?_ (hspan _ _ _ _)) ?_
  · intro s hs
    exact (hs.report_current _).next
  · exact .bind (.expect _ _) fun _ => .bind .advance fun _ => .bind (h.expression _) fun _ =>
      .bind (.expect _ _) fun _ => hspan _ _ _ _

theorem returnStatement_reports : Reports source .current (returnStatement inner) .next := by
  refine .bind .current fun _ => .bind .advance fun _ => .atCurrent fun s hs => ?_
  refine ends_ite (ends_fail hs _) ?_
  exact Reports.bind (h.expression _) (fun _ => .bind (.skip _) fun _ =>
    .bind (.spanFrom _) fun _ => .pure _) s hs

theorem functionStatement_reports (hm : inner.Move) (name : Ident) :
    Reports source .current (functionStatement inner name) .next :=
  .bind .current fun _ => .bind (function_reports h hm) fun _ => .bind (.skip _) fun _ =>
    .bind (.spanFrom _) fun _ => .pure _

theorem expressionStatement_reports :
    Reports source .current (expressionStatement inner) .next :=
  .bind .current fun _ => .bind (h.expression _) fun _ => .bind (.skip _) fun _ =>
    .bind (.spanFrom _) fun _ => .pure _

theorem statement_reports (hm : inner.Move) : Reports source .current (statement inner) .next := by
  refine .bind .get fun s => ?_
  cases s.current.kind with
  | letKw | constKw => exact declaration_reports h
  | returnKw => exact returnStatement_reports h
  | functionKw => exact .ite (functionStatement_reports h hm _) (expressionStatement_reports h)
  | _ => exact expressionStatement_reports h

theorem programStatements_reports :
    ∀ n, Reports source .current (programStatements inner n) .next
  | 0 => .pure []
  | n + 1 => by
    refine .bind .current fun t => .ite (.pure []) (.bind h.statement.attempt fun x => ?_)
    cases x with
    | some x =>
      exact .bind .advance fun _ => .bind (programStatements_reports n) fun _ => .pure _
    | none =>
      exact .bind .synchronize fun _ => .bind .advance fun _ => programStatements_reports n

end

theorem refuse_reports : Reports source .current (refuse : Rule α) .next :=
  .atCurrent fun _ hs => ends_fail hs _

/-- At every level of nesting the rules report in order. -/
theorem level_reports (source : String) : ∀ n, (level n).Report source
  | 0 => ⟨refuse_reports, fun _ => refuse_reports, refuse_reports⟩
  | n + 1 =>
    have h := level_reports source n
    have hm := level_moves n
    ⟨statement_reports h hm, expression_reports h hm, conditional_reports h hm⟩

end Parser

open Primer.Parser

/-- **Diagnostics point at tokens, in order.**  Each diagnostic has the span of a token of the
source, which may be its end, and no diagnostic starts before the one that was reported before it. -/
theorem parse_reports_in_order (source : String) :
    (∀ d ∈ (parse source).2, ∃ t ∈ lex source, d.span = t.span) ∧
      (parse source).2.Pairwise fun a b => a.span.start ≤ b.span.start := by
  have hstart : (State.ofString source : State).Reported source .current := by
    refine ⟨State.ofString_on source, ?_, ?_, ?_⟩
    all_goals
      rw [State.ofString_diagnostics]
      simp
  obtain ⟨p, u, hrun, -⟩ := program_ends hstart.on.ended
  obtain ⟨ss, hss, -⟩ := program_ok.1 hrun
  have hends := programStatements_reports (level_reports source maxNesting)
    (State.ofString source : State).ahead.length _ hstart
  rw [hss] at hends
  have hparse : (parse source).2 = u.diagnostics := by
    unfold parse parseAs State.readProgram
    rw [hrun]
  rw [hparse]
  exact ⟨hends.placed, hends.ordered⟩

end Primer
