/-
  Primer/Proofs/Parser/RoundTrip.lean
  ===================================
  **Reading a program that was written down gives the program back.**

  Lists, entries, functions, blocks and statements are followed through the rules as
  expressions are.  Putting the constructs together along a tree, every tree that can be
  written is read back from its words where its nesting is allowed, and as the text of a
  program is read as its words, every such program is read back from its text.
-/
import Primer.Proofs.Parser.Layout
import Primer.Proofs.Parser.Readable

namespace Primer

namespace Parser

variable {α : Type} {s t u : State} {w : Word} {ws vs : List Word} {n d : Nat} {p q : Precedence}
variable {e l r : Expr Unit} {inner : Rules}

/-! ### Lists -/

/-- Each of the lists of words is read as the expression in the same place. -/
def AllReadable (d : Nat) (wss : List (List Word)) (es : List (Expr Unit)) : Prop :=
  List.Forall₂ (fun ws e => ∃ p, Readable ws p d e) wss es

/-- What ends a list ends its last expression and starts no other. -/
theorem closes {close : TokenKind} (h : close = .rparen ∨ close = .rbracket) :
    Precedence.of close = .lowest ∧ close ≠ .elseKw ∧ close ≠ .comma ∧
      startsExpression close = false := by
  rcases h with rfl | rfl <;> decide

/-- An expression of a list ends before the next comma or before the end of the list. -/
theorem passes_commas_peek {wss : List (List Word)} {close : TokenKind}
    (hclose : close = .rparen ∨ close = .rbracket)
    (h : s.Passes (wss.flatMap (.symbol .comma :: ·)) t) (ht : t.peek.kind = close) :
    Precedence.of s.peek.kind = .lowest ∧ s.peek.kind ≠ .elseKw := by
  cases wss with
  | nil =>
    cases h
    rw [ht]
    exact ⟨(closes hclose).1, (closes hclose).2.1⟩
  | cons ws wss =>
    rw [h.1.kind]
    decide

theorem moreExpressions_yields {wss : List (List Word)} {es : List (Expr Unit)}
    {close : TokenKind} (hclose : close = .rparen ∨ close = .rbracket)
    (h : AllReadable d wss es) (hd : d ≤ n) (hp : s.Passes (wss.flatMap (.symbol .comma :: ·)) t)
    (ht : t.peek.kind = close) (m : Nat) (hm : s.ahead.length ≤ m) :
    Yields (moreExpressions (level n) close m) (List.map Expr.eraseSpans) s es t := by
  obtain ⟨-, -, hcomma, hstarts⟩ := closes hclose
  induction h generalizing s m with
  | nil =>
    cases hp
    refine ⟨[], ?_, rfl⟩
    cases m with
    | zero => rfl
    | succ m =>
      rw [moreExpressions_ok, if_neg (by rw [ht]; exact hcomma)]
      exact ⟨rfl, rfl⟩
  | @cons ws e wss es hws _ ih =>
    obtain ⟨p, hws⟩ := hws
    obtain ⟨hsep, hp⟩ := hp
    obtain ⟨v, hpass, hrest⟩ := State.passes_append.1 hp
    have hlen := hsep.length
    have hlen' := hpass.length
    obtain ⟨m, rfl⟩ : ∃ k, m = k + 1 := Nat.exists_eq_succ_of_ne_zero (by omega)
    obtain ⟨hlowest, helse⟩ := passes_commas_peek hclose hrest ht
    obtain ⟨e', hrun, he⟩ := hws.yields hd hpass hlowest helse
    obtain ⟨es', hruns, hes⟩ := ih hrest m (by omega)
    refine ⟨e' :: es', ?_, by rw [List.map_cons, List.map_cons, he, hes]⟩
    rw [moreExpressions_ok, if_pos hsep.symbol, if_neg (hws.starts.peek_ne hpass hstarts)]
    exact ⟨e', v, es', hrun, hruns, rfl⟩

theorem expressions_yields {wss : List (List Word)} {es : List (Expr Unit)} {close : TokenKind}
    (hclose : close = .rparen ∨ close = .rbracket) (h : AllReadable d wss es) (hd : d ≤ n)
    (hp : s.Passes (commas wss ++ [.symbol close]) t) :
    Yields (expressions (level n) close) (List.map Expr.eraseSpans) s es t := by
  obtain ⟨-, -, -, hstarts⟩ := closes hclose
  obtain ⟨v, hpass, hend, rfl⟩ := State.passes_append.1 hp
  cases h with
  | nil =>
    cases hpass
    refine ⟨[], ?_, rfl⟩
    rw [expressions_ok, if_pos hend.symbol]
    exact ⟨rfl, rfl⟩
  | @cons ws e wss es hws hrest =>
    obtain ⟨p, hws⟩ := hws
    obtain ⟨x, hx, hmore⟩ := State.passes_append.1 hpass
    obtain ⟨hlowest, helse⟩ := passes_commas_peek hclose hmore hend.kind
    obtain ⟨e', hrun, he⟩ := hws.yields hd hx hlowest helse
    obtain ⟨es', hruns, hes⟩ :=
      moreExpressions_yields hclose hrest hd hmore hend.kind _ (Nat.le_refl _)
    refine ⟨e' :: es', ?_, by rw [List.map_cons, List.map_cons, he, hes]⟩
    rw [expressions_ok, if_neg (hws.starts.peek_ne hx hstarts)]
    exact ⟨e', x, es', v, hrun, hruns, hend.kind, rfl, rfl⟩

namespace Readable

theorem call (span : Span) {d' : Nat} {wss : List (List Word)} {es : List (Expr Unit)}
    (hl : Readable vs q d l) (hargs : AllReadable d' wss es) (hq : .call ≤ q) :
    Readable (vs ++ .symbol .lparen :: (commas wss ++ [.symbol .rparen])) .call (max d (d' + 1))
      (.call span l es) := by
  refine behind (hl.mono (Nat.le_max_left ..)) (by decide) hq (by decide) ?_ ?_
  · intro floor hf _
    exact ⟨Precedence.admits_of_call_le hf hq, Precedence.lt_call_of_le hf⟩
  · intro n hn s t l' hpass hfollows helse hl'
    obtain ⟨hopen, hpass⟩ := hpass
    obtain ⟨es', hrun, hes⟩ := expressions_yields (n := n) (.inl rfl) hargs (by omega) hpass
    refine ⟨.call ⟨l'.span.start, t.current.span.stop⟩ l' es', operation_ok.2 ?_, ?_⟩
    · rw [hopen.current_kind]
      exact ⟨es', hrun, rfl⟩
    · show Expr.call Span.zero l'.eraseSpans (mapSpansExprs _ es') =
        .call Span.zero l.eraseSpans (mapSpansExprs _ es)
      rw [hl', mapSpansExprs_eq_map, hes, mapSpansExprs_eq_map]

theorem array (span : Span) {wss : List (List Word)} {es : List (Expr Unit)}
    (h : AllReadable d wss es) :
    Readable (.symbol .lbracket :: (commas wss ++ [.symbol .rbracket])) .index (d + 1)
      (.array span () es) := by
  refine of_operand (.cons (by decide) _) (Nat.succ_pos d) fun n hn s t hp _ => ?_
  obtain ⟨hopen, hpass⟩ := hp
  obtain ⟨es', hrun, hes⟩ := expressions_yields (n := n) (.inr rfl) h (by omega) hpass
  refine ⟨.array (s.advance.spanTo t) () es', operand_ok.2 ?_, ?_⟩
  · rw [hopen.current_kind]
    exact array_ok.2 ⟨es', hrun, rfl⟩
  · show Expr.array Span.zero () (mapSpansExprs _ es') = .array Span.zero () (mapSpansExprs _ es)
    rw [mapSpansExprs_eq_map, hes, mapSpansExprs_eq_map]

end Readable

/-! ### Entries -/

/-- The words are read as the entry of an object. -/
def Entry (d : Nat) (ws : List Word) (x : Property (Option (Expr Unit))) : Prop :=
  match x.value with
  | none => ws = [.name x.key.name]
  | some e => ∃ vs p, ws = .name x.key.name :: .symbol .colon :: vs ∧ Readable vs p d e

theorem Entry.yields {x : Property (Option (Expr Unit))} (h : Entry d ws x) (hd : d ≤ n)
    (hp : s.Passes ws t) (ht : t.peek.kind = .comma ∨ t.peek.kind = .rbrace) :
    s.Meets (.name x.key.name) ∧
      Yields (propertyValue (level n)) (Option.map Expr.eraseSpans) s.advance x.value t := by
  obtain ⟨span, key, value⟩ := x
  cases value with
  | none =>
    obtain rfl : ws = [.name key.name] := h
    obtain ⟨hkey, rfl⟩ := hp
    refine ⟨hkey, none, ?_, rfl⟩
    rw [propertyValue_ok, if_neg (by rcases ht with ht | ht <;> rw [ht] <;> decide)]
    exact ⟨rfl, rfl⟩
  | some e =>
    obtain ⟨vs, p, rfl, hvs⟩ := h
    obtain ⟨hkey, hcolon, hpass⟩ := hp
    obtain ⟨e', hrun, he⟩ := hvs.yields hd hpass
      (by rcases ht with ht | ht <;> rw [ht] <;> rfl)
      (by rcases ht with ht | ht <;> rw [ht] <;> decide)
    refine ⟨hkey, some e', ?_, congrArg some he⟩
    rw [propertyValue_ok, if_pos hcolon.symbol]
    exact ⟨e', hrun, rfl⟩

theorem properties_yields {wss : List (List Word)} {ps : List (Property (Option (Expr Unit)))}
    (h : List.Forall₂ (Entry d) wss ps) (hd : d ≤ n)
    (hp : s.Passes (commas wss ++ [.symbol .rbrace]) t) (m : Nat) (hm : s.ahead.length ≤ m) :
    Yields (properties (level n) m) (List.map (·.eraseSpans)) s ps t := by
  induction h generalizing s m with
  | nil =>
    obtain ⟨hend, rfl⟩ := hp
    have hlen := hend.length
    obtain ⟨m, rfl⟩ : ∃ k, m = k + 1 := Nat.exists_eq_succ_of_ne_zero (by omega)
    refine ⟨[], ?_, rfl⟩
    rw [properties_ok, if_pos hend.symbol]
    exact ⟨rfl, rfl⟩
  | @cons ws x wss ps hx hps ih =>
    rw [commas, List.append_assoc] at hp
    obtain ⟨v, hws, hrest⟩ := State.passes_append.1 hp
    -- behind the entry there is a comma, or the end of the object
    have hnext : v.peek.kind = .comma ∨ v.peek.kind = .rbrace := by
      cases wss with
      | nil => exact .inr hrest.1.symbol
      | cons ws' wss => exact .inl hrest.1.symbol
    obtain ⟨hkey, value, hrun, hvalue⟩ := hx.yields hd hws hnext
    have hlen := hkey.length
    have hlen' := hp.length
    have hkind : s.peek.kind = .ident := hkey.kind
    obtain ⟨m, rfl⟩ : ∃ k, m = k + 1 := Nat.exists_eq_succ_of_ne_zero (by omega)
    have herase : Property.eraseSpans ⟨s.advance.spanTo v, s.advance.name, value⟩ =
        x.eraseSpans := by
      show Property.mk _ s.advance.name.eraseSpans (value.map Expr.eraseSpans) = _
      rw [hkey.eraseSpans_name, hvalue]
    cases wss with
    | nil =>
      cases hps
      obtain ⟨hend, rfl⟩ := hrest
      refine ⟨[⟨s.advance.spanTo v, s.advance.name, value⟩], ?_, congrArg (· :: []) herase⟩
      rw [properties_ok, if_neg (by rw [hkind]; decide)]
      refine ⟨hkind, value, v, hrun, ?_⟩
      rw [if_neg (by rw [hend.symbol]; decide)]
      exact ⟨hend.symbol, rfl, rfl⟩
    | cons ws' wss =>
      obtain ⟨hcomma, hrest⟩ := hrest
      have hlen'' := hcomma.length
      have hws' := hws.length
      obtain ⟨ps', hruns, hps'⟩ := ih hrest m (by omega)
      refine ⟨_ :: ps', ?_, List.cons_eq_cons.2 ⟨herase, hps'⟩⟩
      rw [properties_ok, if_neg (by rw [hkind]; decide)]
      refine ⟨hkind, value, v, hrun, ?_⟩
      rw [if_pos hcomma.symbol]
      exact ⟨ps', hruns, rfl⟩

theorem Readable.object (span : Span) {wss : List (List Word)}
    {ps : List (Property (Option (Expr Unit)))} (h : List.Forall₂ (Entry d) wss ps) :
    Readable (.symbol .lbrace :: (commas wss ++ [.symbol .rbrace])) .index (d + 1)
      (.object span () ps) := by
  refine of_operand (.cons (by decide) _) (Nat.succ_pos d) fun n hn s t hp _ => ?_
  obtain ⟨hopen, hpass⟩ := hp
  obtain ⟨ps', hrun, hps⟩ := properties_yields (n := n) h (by omega) hpass _ (Nat.le_refl _)
  refine ⟨.object (s.advance.spanTo t) () ps', operand_ok.2 ?_, ?_⟩
  · rw [hopen.current_kind]
    exact object_ok.2 ⟨ps', hrun, rfl⟩
  · show Expr.object Span.zero () (mapSpansProperties _ ps') =
      .object Span.zero () (mapSpansProperties _ ps)
    rw [mapSpansProperties_zero, hps, mapSpansProperties_zero]

/-! ### Statements and blocks -/

/-- Wherever the words are ahead, the rule takes them and yields `a`, spans aside. -/
def Takes (r : Rule α) (erase : α → α) (ws : List Word) (a : α) : Prop :=
  ∀ s t : State, s.Passes ws t → Yields r erase s.advance a t

/-- The words are those of the statement `x`, read where `d` levels may be nested. -/
structure Sentence (d : Nat) (ws : List Word) (x : Stmt Unit) : Prop where
  nonempty : ws ≠ []
  takes : ∀ n, d ≤ n → Takes (level n).statement Stmt.eraseSpans ws x

theorem refuse_ok {a : α} : ¬(refuse : Rule α) s = .ok a u := fail_ok

theorem expression_starts {floor : Precedence} (h : (level n).expression floor s = .ok e u) :
    startsExpression s.current.kind := by
  cases n with
  | zero => exact absurd h refuse_ok
  | succ n =>
    obtain ⟨x, t, hx, -⟩ := expression_ok.1 h
    rw [operand_ok] at hx
    cases hk : s.current.kind with
    | ident | int | string | trueKw | falseKw | bang | minus | lparen | lbrace | lbracket | ifKw
    | functionKw => rfl
    | _ =>
      rw [hk] at hx
      exact absurd hx id

/-- A statement is read neither from a closing brace nor from the end of the source. -/
theorem statement_starts {x : Stmt Unit} (h : (level n).statement s = .ok x u) :
    ¬(s.current.kind = .rbrace ∨ s.current.kind = .eof) := by
  cases n with
  | zero => exact absurd h refuse_ok
  | succ n =>
    intro hk
    have hrun : expressionStatement (level n) s = .ok x u := by
      have h' : statement (level n) s = .ok x u := h
      rw [statement_run] at h'
      rcases hk with hk | hk <;> rw [hk] at h' <;> exact h'
    obtain ⟨v, t, hv, -⟩ := expressionStatement_ok.1 hrun
    have hstarts := expression_starts hv
    rcases hk with hk | hk <;> rw [hk] at hstarts <;> exact absurd hstarts Bool.false_ne_true

theorem blockStatements_yields {wss : List (List Word)} {xs : List (Stmt Unit)}
    (h : List.Forall₂ (Sentence d) wss xs) (hd : d ≤ n)
    (hp : s.Passes (wss.flatten ++ [.symbol .rbrace]) t) (m : Nat) (hm : s.ahead.length ≤ m + 1) :
    Yields (blockStatements (level n) m) (List.map Stmt.eraseSpans) s.advance xs t := by
  induction h generalizing s m with
  | nil =>
    obtain ⟨hend, rfl⟩ := hp
    refine ⟨[], ?_, rfl⟩
    cases m with
    | zero => rfl
    | succ m =>
      rw [blockStatements_ok, if_pos (.inl hend.current_kind)]
      exact ⟨rfl, rfl⟩
  | @cons ws x wss xs hx hxs ih =>
    rw [List.flatten_cons, List.append_assoc] at hp
    obtain ⟨v, hws, hrest⟩ := State.passes_append.1 hp
    have hpos := List.length_pos_iff.2 hx.nonempty
    have hlen := hws.length
    have hlen' := hrest.length
    rw [List.length_append, List.length_singleton] at hlen'
    obtain ⟨m, rfl⟩ : ∃ k, m = k + 1 := Nat.exists_eq_succ_of_ne_zero (by omega)
    obtain ⟨x', hrun, hx'⟩ := hx.takes n hd s v hws
    obtain ⟨xs', hruns, hxs'⟩ := ih hrest m (by omega)
    refine ⟨x' :: xs', ?_, List.cons_eq_cons.2 ⟨hx', hxs'⟩⟩
    rw [blockStatements_ok, if_neg (statement_starts hrun), hrun]
    exact ⟨xs', hruns, rfl⟩

theorem block_takes (span : Span) {wss : List (List Word)} {xs : List (Stmt Unit)}
    (h : List.Forall₂ (Sentence d) wss xs) (hd : d ≤ n) :
    Takes (block (level n)) Block.eraseSpans
      (.symbol .lbrace :: (wss.flatten ++ [.symbol .rbrace])) ⟨span, xs⟩ := by
  rintro s t ⟨hopen, hpass⟩
  obtain ⟨v, hws, hend, rfl⟩ := State.passes_append.1 hpass
  obtain ⟨xs', hruns, hxs⟩ := blockStatements_yields h hd hpass _ s.advance.length_le_advance
  refine ⟨⟨s.advance.spanTo v.advance, xs'⟩, block_ok.2 ⟨xs', v.advance, hruns, ?_, rfl⟩, ?_⟩
  · exact if_pos hend.current_kind
  · show Block.mk Span.zero (mapSpansStmts _ xs') = ⟨Span.zero, mapSpansStmts _ xs⟩
    rw [mapSpansStmts_eq_map, hxs, mapSpansStmts_eq_map]

/-! ### Functions -/

theorem moreParameters_yields {xs : List Ident}
    (hp : s.Passes ((xs.map fun x => [.name x.name]).flatMap (.symbol .comma :: ·)) t)
    (ht : t.peek.kind = .rparen) (m : Nat) (hm : s.ahead.length ≤ m) :
    Yields (moreParameters m) (List.map Ident.eraseSpans) s xs t := by
  induction xs generalizing s m with
  | nil =>
    cases hp
    refine ⟨[], ?_, rfl⟩
    cases m with
    | zero => rfl
    | succ m =>
      rw [moreParameters_ok, if_neg (by rw [ht]; decide)]
      exact ⟨rfl, rfl⟩
  | cons x xs ih =>
    obtain ⟨hcomma, hx, hrest⟩ := hp
    have hlen := hcomma.length
    have hlen' := hx.length
    obtain ⟨m, rfl⟩ : ∃ k, m = k + 1 := Nat.exists_eq_succ_of_ne_zero (by omega)
    obtain ⟨xs', hruns, hxs⟩ := ih hrest m (by omega)
    refine ⟨s.advance.advance.name :: xs', ?_, List.cons_eq_cons.2 ⟨hx.eraseSpans_name, hxs⟩⟩
    rw [moreParameters_ok, if_pos hcomma.symbol]
    exact ⟨hx.kind, xs', hruns, rfl⟩

theorem parameters_yields {xs : List Ident}
    (hp : s.Passes (commas (xs.map fun x => [.name x.name]) ++ [.symbol .rparen]) t) :
    Yields parameters (List.map Ident.eraseSpans) s xs t := by
  obtain ⟨v, hpass, hend, rfl⟩ := State.passes_append.1 hp
  cases xs with
  | nil =>
    cases hpass
    refine ⟨[], ?_, rfl⟩
    rw [parameters_ok, if_pos hend.symbol]
    exact ⟨rfl, rfl⟩
  | cons x xs =>
    obtain ⟨hx, hmore⟩ := hpass
    have hkind : s.peek.kind = .ident := hx.kind
    obtain ⟨xs', hruns, hxs⟩ := moreParameters_yields hmore hend.symbol _ (Nat.le_refl _)
    refine ⟨s.advance.name :: xs', ?_, List.cons_eq_cons.2 ⟨hx.eraseSpans_name, hxs⟩⟩
    rw [parameters_ok, if_neg (by rw [hkind]; decide)]
    exact ⟨hkind, xs', v, hruns, hend.symbol, rfl, rfl⟩

theorem functionName_yields {x : Option Ident} (hp : s.Passes (x.toList.map (.name ·.name)) t)
    (ht : t.peek.kind = .lparen) :
    Yields functionName (Option.map Ident.eraseSpans) s x t := by
  cases x with
  | none =>
    cases hp
    refine ⟨none, ?_, rfl⟩
    rw [functionName_ok, if_neg (by rw [ht]; decide)]
    exact ⟨rfl, rfl⟩
  | some x =>
    obtain ⟨hx, rfl⟩ := hp
    have hkind : s.peek.kind = .ident := hx.kind
    refine ⟨some s.advance.name, ?_, congrArg some hx.eraseSpans_name⟩
    rw [functionName_ok, if_pos hkind]
    exact ⟨rfl, rfl⟩

theorem function_takes (span : Span) (x : Option Ident) (xs : List Ident) {b : Block Unit}
    (hb : Takes (block (level n)) Block.eraseSpans (.symbol .lbrace :: ws) b) :
    Takes (function (level n)) Function.eraseSpans
      (.symbol .functionKw :: (x.toList.map (.name ·.name) ++ .symbol .lparen ::
        (commas (xs.map fun x => [.name x.name]) ++ .symbol .rparen :: .symbol .lbrace :: ws)))
      ⟨span, (), x, xs, b⟩ := by
  rintro s u ⟨hfn, hp⟩
  obtain ⟨t, hname, hopen, hp⟩ := State.passes_append.1 hp
  rw [← List.singleton_append, ← List.append_assoc] at hp
  obtain ⟨v, hparams, hbody⟩ := State.passes_append.1 hp
  obtain ⟨x', hx', hx⟩ := functionName_yields hname hopen.symbol
  obtain ⟨xs', hxs', hxs⟩ := parameters_yields hparams
  obtain ⟨b', hb', hb⟩ := hb v u hbody
  refine ⟨⟨s.advance.spanTo u, (), x', xs', b'⟩, function_ok.2
    ⟨x', t, xs', v, b', hx', hopen.symbol, hxs', hbody.1.symbol, hb', rfl⟩, ?_⟩
  show Function.mk Span.zero () (x'.map Ident.eraseSpans) (xs'.map Ident.eraseSpans)
    b'.eraseSpans = _
  rw [hx, hxs, hb]
  rfl

/-- A function with a name is written in parentheses. -/
theorem Readable.function (span span' : Span) (x : Option Ident) (xs : List Ident)
    {b : Block Unit}
    (hb : ∀ n, d ≤ n → Takes (block (level n)) Block.eraseSpans (.symbol .lbrace :: ws) b) :
    Readable (Primer.parens x.isSome
      (.symbol .functionKw :: (x.toList.map (.name ·.name) ++ .symbol .lparen ::
        (commas (xs.map fun x => [.name x.name]) ++ .symbol .rparen :: .symbol .lbrace :: ws))))
      .index (within x.isSome (d + 1)) (.function span ⟨span', (), x, xs, b⟩) := by
  have h : Legible (.symbol .functionKw :: (x.toList.map (.name ·.name) ++ .symbol .lparen ::
      (commas (xs.map fun x => [.name x.name]) ++ .symbol .rparen :: .symbol .lbrace :: ws)))
      .index (d + 1) (.function span ⟨span', (), x, xs, b⟩) := by
    refine .of_operand (Nat.succ_pos d) fun n hn s t hp _ => ?_
    have hfn := hp.1
    obtain ⟨fn, hrun, herase⟩ := function_takes span' x xs (hb n (by omega)) s t hp
    refine ⟨.function fn.span fn, operand_ok.2 ?_, ?_⟩
    · rw [hfn.current_kind]
      exact ⟨fn, hrun, rfl⟩
    · show Expr.function Span.zero fn.eraseSpans = .function Span.zero (Function.eraseSpans _)
      rw [herase]
  cases x with
  | none => exact ⟨h, rfl, fun _ => by decide⟩
  | some x => exact group h

/-! ### Conditionals -/

theorem alternative_none (hp : s.Passes [] t) (h : t.peek.kind ≠ .elseKw) :
    Yields (alternative inner) (Option.map Block.eraseSpans) s none t := by
  cases hp
  refine ⟨none, ?_, rfl⟩
  rw [alternative_ok, if_neg h]
  exact ⟨rfl, rfl⟩

theorem alternative_some {b : Block Unit}
    (hb : Takes (block inner) Block.eraseSpans (.symbol .lbrace :: ws) b)
    (hp : s.Passes (.symbol .elseKw :: .symbol .lbrace :: ws) t) :
    Yields (alternative inner) (Option.map Block.eraseSpans) s (some b) t := by
  obtain ⟨helse, hpass⟩ := hp
  have hopen := hpass.1
  obtain ⟨b', hrun, hb'⟩ := hb s.advance t hpass
  refine ⟨some b', ?_, congrArg some hb'⟩
  rw [alternative_ok, if_pos helse.symbol, if_neg (by rw [hopen.symbol]; decide)]
  exact ⟨hopen.symbol, b', hrun, rfl⟩

theorem Readable.cond (span : Span) {c : Expr Unit} {b : Block Unit} {a : Option (Block Unit)}
    {us : List Word} (hc : Readable us p d c)
    (hb : ∀ n, d ≤ n → Takes (block (level n)) Block.eraseSpans (.symbol .lbrace :: vs) b)
    (ha : ∀ n, d ≤ n → ∀ s t : State, s.Passes ws t → t.peek.kind ≠ .elseKw →
      Yields (alternative (level n)) (Option.map Block.eraseSpans) s a t) :
    Readable (.symbol .ifKw :: .symbol .lparen ::
      (us ++ .symbol .rparen :: ((.symbol .lbrace :: vs) ++ ws))) .index (d + 1)
      (.cond span c b a) := by
  refine of_operand (.cons (by decide) _) (Nat.succ_pos d) fun n hn s t hp helse => ?_
  obtain ⟨hif, hopen, hp⟩ := hp
  obtain ⟨v, hcond, hclose, hp⟩ := State.passes_append.1 hp
  obtain ⟨x, hblock, halt⟩ := State.passes_append.1 hp
  have hd : d ≤ n := Nat.le_of_succ_le_succ hn
  obtain ⟨c', hrunc, hc'⟩ := hc.yields hd hcond (by rw [hclose.kind]; rfl)
    (by rw [hclose.kind]; decide)
  obtain ⟨b', hrunb, hb'⟩ := hb n hd v.advance x hblock
  obtain ⟨a', hruna, ha'⟩ := ha n hd x t halt helse
  refine ⟨.cond (s.advance.spanTo t) c' b' a', operand_ok.2 ?_, ?_⟩
  · rw [hif.current_kind]
    exact conditional_ok.2 ⟨c', v, b', x, a', hopen.symbol, hrunc, hclose.symbol,
      hblock.1.symbol, hrunb, hruna, rfl⟩
  · rw [Expr.eraseSpans_cond, Expr.eraseSpans_cond, hc', hb', ha']

/-! ### Statements -/

namespace Sentence

theorem mono {d' : Nat} {x : Stmt Unit} (h : Sentence d ws x) (hd : d ≤ d') : Sentence d' ws x :=
  ⟨h.nonempty, fun n hn => h.takes n (Nat.le_trans hd hn)⟩

theorem of_statement {x : Stmt Unit} (hne : ws ≠ [])
    (h : ∀ n, d ≤ n → Takes (statement (level n)) Stmt.eraseSpans ws x) :
    Sentence (d + 1) ws x := by
  refine ⟨hne, fun n hn => ?_⟩
  obtain ⟨m, rfl⟩ : ∃ m, n = m + 1 := Nat.exists_eq_succ_of_ne_zero (by omega)
  exact h m (Nat.le_of_succ_le_succ hn)

theorem declare_none (span : Span) (x : Ident) :
    Sentence 1 [.symbol .letKw, .name x.name, .symbol .semicolon] (.declare span false x none) := by
  refine of_statement (List.cons_ne_nil _ _) fun n _ => ?_
  rintro s t ⟨hlet, hname, hend, rfl⟩
  have hkind : s.advance.current.kind = .letKw := hlet.current_kind
  refine ⟨.declare (s.advance.spanTo s.advance.advance.advance) (s.advance.current.is .constKw)
    s.advance.advance.name none, ?_, ?_⟩
  · rw [statement_run, hkind]
    refine declaration_ok.2 ⟨hname.kind, ?_⟩
    rw [if_pos hend.symbol, if_neg (by rw [hkind]; decide)]
    exact ⟨rfl, rfl⟩
  · show Stmt.declare Span.zero (s.advance.current.kind == .constKw)
      s.advance.advance.name.eraseSpans none = _
    rw [hname.eraseSpans_name, hkind]
    rfl

theorem declare_some (span : Span) (isConst : Bool) (x : Ident) (h : Readable ws p d e) :
    Sentence (d + 1) (.symbol (if isConst then .constKw else .letKw) :: .name x.name ::
      .symbol .assign :: (ws ++ [.symbol .semicolon])) (.declare span isConst x (some e)) := by
  refine of_statement (List.cons_ne_nil _ _) fun n hn => ?_
  rintro s t ⟨hkw, hname, hassign, hp⟩
  obtain ⟨v, hws, hend, rfl⟩ := State.passes_append.1 hp
  obtain ⟨e', hrun, he⟩ := h.yields hn hws (by rw [hend.kind]; rfl) (by rw [hend.kind]; decide)
  have hkind : s.advance.current.kind = if isConst then .constKw else .letKw := hkw.current_kind
  refine ⟨.declare (s.advance.spanTo v.advance) (s.advance.current.is .constKw)
    s.advance.advance.name (some e'), ?_, ?_⟩
  · have hdecl : declaration (level n) s.advance = .ok _ v.advance :=
      declaration_ok.2 ⟨hname.kind, by
        rw [if_neg (by rw [hassign.symbol]; decide)]
        exact ⟨hassign.symbol, e', v, hrun, hend.symbol, rfl, rfl⟩⟩
    rw [statement_run, hkind]
    cases isConst <;> exact hdecl
  · show Stmt.declare Span.zero (s.advance.current.kind == .constKw)
      s.advance.advance.name.eraseSpans (some e'.eraseSpans) = _
    rw [hname.eraseSpans_name, hkind, he]
    cases isConst <;> rfl

theorem ret (span : Span) (h : Readable ws p d e) :
    Sentence (d + 1) (.symbol .returnKw :: (ws ++ [.symbol .semicolon])) (.ret span e) := by
  refine of_statement (List.cons_ne_nil _ _) fun n hn => ?_
  rintro s t ⟨hkw, hp⟩
  obtain ⟨v, hws, hend, rfl⟩ := State.passes_append.1 hp
  obtain ⟨e', hrun, he⟩ := h.yields hn hws (by rw [hend.kind]; rfl) (by rw [hend.kind]; decide)
  refine ⟨.ret (s.advance.spanTo v.advance) e', ?_, congrArg (Stmt.ret .zero) he⟩
  rw [statement_run, hkw.current_kind]
  have hstarts := expression_starts hrun
  refine returnStatement_ok.2 ⟨?_, e', v, hrun, if_pos hend.symbol, rfl⟩
  rintro (hk | hk) <;> rw [hk] at hstarts <;> exact absurd hstarts Bool.false_ne_true

theorem expr (span : Span) (h : Readable ws p d e) :
    Sentence (d + 1) (ws ++ [.symbol .semicolon]) (.expr span e) := by
  refine of_statement (by simp) fun n hn => ?_
  intro s t hp
  obtain ⟨v, hws, hend, rfl⟩ := State.passes_append.1 hp
  obtain ⟨e', hrun, he⟩ := h.yields hn hws (by rw [hend.kind]; rfl) (by rw [hend.kind]; decide)
  refine ⟨.expr (s.advance.spanTo v.advance) e', ?_, congrArg (Stmt.expr .zero) he⟩
  have hstmt : expressionStatement (level n) s.advance =
      .ok (.expr (s.advance.spanTo v.advance) e') v.advance :=
    expressionStatement_ok.2 ⟨e', v, hrun, if_pos hend.symbol, rfl⟩
  have hstarts := expression_starts hrun
  rw [statement_run]
  cases hk : s.advance.current.kind with
  | letKw | constKw | returnKw =>
    rw [hk] at hstarts
    exact absurd hstarts Bool.false_ne_true
  | functionKw =>
    rw [if_neg (h.starts.anonymous hws hk)]
    exact hstmt
  | _ => exact hstmt

theorem function (span span' : Span) (x y : Ident) (hname : y.name = x.name) (xs : List Ident)
    {b : Block Unit}
    (hb : ∀ n, d ≤ n → Takes (block (level n)) Block.eraseSpans (.symbol .lbrace :: ws) b) :
    Sentence (d + 1) ((.symbol .functionKw :: .name y.name :: .symbol .lparen ::
      (commas (xs.map fun x => [.name x.name]) ++ .symbol .rparen :: .symbol .lbrace :: ws)) ++
      [.symbol .semicolon]) (.function span x ⟨span', (), some y, xs, b⟩) := by
  refine of_statement (List.cons_ne_nil _ _) fun n hn => ?_
  intro s t hp
  obtain ⟨v, hws, hend, rfl⟩ := State.passes_append.1 hp
  have hkw := hws.1
  have hy := hws.2.1
  have hkind : s.advance.peek.kind = .ident := hy.kind
  obtain ⟨fn, hrun, hfn⟩ := function_takes span' (some y) xs (hb n hn) s v hws
  refine ⟨.function (s.advance.spanTo v.advance)
    ⟨s.advance.peek.span, s.advance.peek.literal⟩ fn, ?_, ?_⟩
  · rw [statement_run, hkw.current_kind]
    show (if s.advance.peek.kind = .ident then _ else _) = _
    rw [if_pos hkind]
    exact functionStatement_ok.2 ⟨fn, v, hrun, if_pos hend.symbol, rfl⟩
  · show Stmt.function Span.zero ⟨Span.zero, s.advance.peek.literal⟩ fn.eraseSpans =
      .function Span.zero ⟨Span.zero, x.name⟩ (Function.eraseSpans _)
    rw [hfn, hy.names.literal, ← hname]
    rfl

end Sentence

/-! ### Every tree -/

theorem AllReadable.mono {d' : Nat} {wss : List (List Word)} {es : List (Expr Unit)}
    (h : AllReadable d wss es) (hd : d ≤ d') : AllReadable d' wss es :=
  h.imp fun _ _ ⟨p, h⟩ => ⟨p, h.mono hd⟩

theorem Entry.mono {d' : Nat} {x : Property (Option (Expr Unit))} (h : Entry d ws x)
    (hd : d ≤ d') : Entry d' ws x := by
  obtain ⟨_, _, _ | _⟩ := x
  · exact h
  · obtain ⟨vs, p, hws, h⟩ := h
    exact ⟨vs, p, hws, h.mono hd⟩

mutual

theorem readable_expr : ∀ e : Expr Unit, e.isWritable → Readable e.words e.level e.nesting e
  | .ident span name, _ => .ident span name
  | .str span text, _ => .str span text
  | .int span value, h => by
    rw [Expr.isWritable, decide_eq_true_eq] at h
    exact .int span h
  | .bool span value, _ => .bool span value
  | .unary span op operand, h => by
    have hoperand := (readable_expr operand h).parens (operand.level < .unary)
    exact .unary span op hoperand (Precedence.le_parens _ _)
  | .binary span op left right, h => by
    rw [Expr.isWritable, Bool.and_eq_true] at h
    have hleft := (readable_expr left h.1).parens (left.level < op.level)
    have hright := (readable_expr right h.2).parens (right.level ≤ op.level)
    exact .binary span op hleft hright (Precedence.le_parens _ _)
      (Precedence.lt_parens _ (by cases op <;> decide))
  | .cond span condition ⟨span₁, consequence⟩ none, h => by
    rw [Expr.isWritable, Block.isWritable, Bool.and_eq_true] at h
    rw [Expr.words, Expr.nesting, Block.words, Block.nesting]
    have hblock := sentences consequence h.2
    have hread := Readable.cond span ((readable_expr condition h.1).mono (Nat.le_max_left ..))
      (fun n hn => block_takes span₁ hblock (Nat.le_trans (Nat.le_max_right ..) hn))
      fun n _ s t hp helse => alternative_none hp helse
    rw [List.append_nil] at hread
    exact hread
  | .cond span condition ⟨span₁, consequence⟩ (some ⟨span₂, alternative⟩), h => by
    rw [Expr.isWritable, Block.isWritable, Block.isWritable, Bool.and_eq_true, Bool.and_eq_true]
      at h
    rw [Expr.words, Expr.nesting, Block.words, Block.nesting, Block.words, Block.nesting]
    have hblock := sentences consequence h.1.2
    have halternative := sentences alternative h.2
    exact .cond span ((readable_expr condition h.1.1).mono (Nat.le_max_left ..))
      (fun n hn => block_takes span₁ hblock (by omega))
      fun n hn s t hp _ => alternative_some (block_takes span₂ halternative (by omega)) hp
  | .function span ⟨span', (), name, params, span₁, body⟩, h => by
    rw [Expr.isWritable, Function.isWritable, Block.isWritable, Bool.and_eq_true] at h
    have hbody := sentences body h.2
    exact .function span span' name params fun n hn => block_takes span₁ hbody hn
  | .call span callee args, h => by
    rw [Expr.isWritable, Bool.and_eq_true] at h
    have hcallee := (readable_expr callee h.1).parens (callee.level < .call)
    exact .call span hcallee (readable_exprs args h.2) (Precedence.le_parens _ _)
  | .index span container key, h => by
    rw [Expr.isWritable, Bool.and_eq_true] at h
    have hcontainer := (readable_expr container h.1).parens (container.level < .call)
    exact .index span hcontainer (readable_expr key h.2) (Precedence.le_parens _ _)
  | .assign span target value, h => by
    rw [Expr.isWritable, Bool.and_eq_true] at h
    have htarget := (readable_expr target h.1).parens (target.level ≤ .assign)
    exact .assign span htarget (readable_expr value h.2) (Precedence.lt_parens _ (by decide))
  | .object span _ properties, h => .object span (entries properties h)
  | .array span _ elements, h => .array span (readable_exprs elements h)

theorem sentence : ∀ x : Stmt Unit, x.isWritable → Sentence x.nesting x.words x
  | .declare span isConst name none, h => by
    rw [Stmt.isWritable, Bool.and_eq_true] at h
    cases isConst with
    | true => exact absurd h.2 Bool.false_ne_true
    | false => exact .declare_none span name
  | .declare span isConst name (some value), h => by
    rw [Stmt.isWritable, Bool.and_eq_true] at h
    exact .declare_some span isConst name (readable_expr value h.2)
  | .function span x ⟨span', (), name, params, span₁, body⟩, h => by
    rw [Stmt.isWritable, Function.isWritable, Block.isWritable, Bool.and_eq_true, Bool.and_eq_true,
      beq_iff_eq] at h
    have hbody := sentences body h.2.2
    obtain ⟨y, rfl, hy⟩ := Option.map_eq_some_iff.1 h.1
    exact .function span span' x y hy params fun n hn => block_takes span₁ hbody hn
  | .ret span value, h => .ret span (readable_expr value h)
  | .expr span value, h => .expr span (readable_expr value h)

theorem readable_exprs : ∀ es : List (Expr Unit), areWritableExprs es →
    AllReadable (nestingExprs es) (wordsExprs es) es
  | [], _ => .nil
  | e :: es, h => by
    rw [areWritableExprs, Bool.and_eq_true] at h
    rw [nestingExprs, wordsExprs]
    exact .cons ⟨e.level, (readable_expr e h.1).mono (Nat.le_max_left ..)⟩
      ((readable_exprs es h.2).mono (Nat.le_max_right ..))

theorem entries : ∀ ps : List (Property (Option (Expr Unit))), areWritableProperties ps →
    List.Forall₂ (Entry (nestingProperties ps)) (wordsProperties ps) ps
  | [], _ => .nil
  | ⟨span, key, none⟩ :: ps, h => by
    rw [areWritableProperties, Bool.and_eq_true] at h
    exact .cons rfl (entries ps h.2)
  | ⟨span, key, some value⟩ :: ps, h => by
    rw [areWritableProperties, Bool.and_eq_true, Bool.and_eq_true] at h
    rw [nestingProperties, wordsProperties]
    exact .cons ⟨_, _, rfl, (readable_expr value h.1.2).mono (Nat.le_max_left ..)⟩
      ((entries ps h.2).imp fun _ _ hx => hx.mono (Nat.le_max_right ..))

theorem sentences : ∀ xs : List (Stmt Unit), areWritableStmts xs →
    List.Forall₂ (Sentence (nestingStmts xs)) (wordsStmts xs) xs
  | [], _ => .nil
  | x :: xs, h => by
    rw [areWritableStmts, Bool.and_eq_true] at h
    rw [nestingStmts, wordsStmts]
    exact .cons ((sentence x h.1).mono (Nat.le_max_left ..))
      ((sentences xs h.2).imp fun _ _ hx => hx.mono (Nat.le_max_right ..))

end

/-! ### Programs -/

theorem programStatements_yields {wss : List (List Word)} {xs : List (Stmt Unit)} {eof : Token}
    (h : List.Forall₂ (Sentence d) wss xs) (hd : d ≤ n) (hp : s.Passes wss.flatten t)
    (ht : t.ahead = [eof]) (heof : eof.kind = .eof) (m : Nat) (hm : s.ahead.length ≤ m + 1) :
    Yields (programStatements (level n) m) (List.map Stmt.eraseSpans) s.advance xs t.advance := by
  induction h generalizing s m with
  | nil =>
    cases hp
    refine ⟨[], ?_, rfl⟩
    cases m with
    | zero => rfl
    | succ m =>
      have hend : t.advance.current.kind = .eof := by
        unfold State.advance
        rw [ht]
        exact heof
      rw [programStatements_ok, if_pos hend]
      exact ⟨rfl, rfl⟩
  | @cons ws x wss xs hx hxs ih =>
    rw [List.flatten_cons] at hp
    obtain ⟨v, hws, hrest⟩ := State.passes_append.1 hp
    have hpos := List.length_pos_iff.2 hx.nonempty
    have hlen := hws.length
    have hlen' := hrest.length
    rw [ht, List.length_singleton] at hlen'
    obtain ⟨m, rfl⟩ : ∃ k, m = k + 1 := Nat.exists_eq_succ_of_ne_zero (by omega)
    obtain ⟨x', hrun, hx'⟩ := hx.takes n hd s v hws
    obtain ⟨xs', hruns, hxs'⟩ := ih hrest m (by omega)
    refine ⟨x' :: xs', ?_, List.cons_eq_cons.2 ⟨hx', hxs'⟩⟩
    rw [programStatements_ok, if_neg fun hk => statement_starts hrun (.inr hk), hrun]
    exact ⟨xs', hruns, rfl⟩

/-- Tokens that stand for words are passed as these words. -/
theorem State.passes_of_names {ts us : List Token} (h : List.Forall₂ Word.Names ws ts)
    (hs : s.ahead = ts ++ us) :
    ∃ t, s.Passes ws t ∧ t.ahead = us ∧ t.diagnostics = s.diagnostics := by
  induction h generalizing s with
  | nil => exact ⟨s, rfl, hs, rfl⟩
  | @cons w a ws ts hw _ ih =>
    have hadv : s.advance = { s with current := a, ahead := ts ++ us } := by
      unfold advance
      rw [hs]
      rfl
    have hmeets : s.Meets w := by
      refine ⟨by rw [hs]; exact List.cons_ne_nil _ _, ?_⟩
      unfold peek
      rw [hs]
      exact hw
    obtain ⟨t, hpass, hahead, hdiags⟩ := ih (s := s.advance) (by rw [hadv])
    exact ⟨t, ⟨hmeets, hpass⟩, hahead, by rw [hdiags, hadv]⟩

end Parser

/-- The text of a program is read without diagnostics as that program, spans aside. -/
theorem parse_text (p : Program Unit) (hw : p.isWritable) (hn : p.nesting ≤ Parser.maxNesting) :
    ∃ q, parse p.render = (q, []) ∧ q.eraseSpans = p.eraseSpans := by
  obtain ⟨ts, eof, hlex, heof, hnames⟩ :=
    lex_spaced (allLex_flatten (allLex_stmts p.statements hw))
  -- a state before the first token, so that the rules start behind it
  let s₀ : Parser.State := ⟨eof, ts ++ [eof], []⟩
  obtain ⟨t, hpass, hahead, hdiags⟩ := Parser.State.passes_of_names (s := s₀) hnames rfl
  have hstart : Parser.State.ofString p.render = s₀.advance := by
    unfold Parser.State.ofString Program.render
    rw [hlex]
    cases ts <;> rfl
  obtain ⟨xs, hrun, hxs⟩ := Parser.programStatements_yields (Parser.sentences p.statements hw) hn
    hpass hahead heof s₀.advance.ahead.length s₀.length_le_advance
  have hprogram := Parser.program_ok.2 ⟨xs, hrun, rfl⟩
  have hdiags' : t.advance.diagnostics = [] := by
    unfold Parser.State.advance
    rw [hahead]
    exact hdiags
  refine ⟨⟨⟨0, t.advance.current.span.stop⟩, xs⟩, ?_, ?_⟩
  · unfold parse parseAs Parser.State.readProgram
    rw [hstart, hprogram]
    exact Prod.ext rfl hdiags'
  · show Program.mk Span.zero (mapSpansStmts _ xs) = ⟨Span.zero, mapSpansStmts _ p.statements⟩
    rw [mapSpansStmts_eq_map, hxs, mapSpansStmts_eq_map]

/-- **Reading undoes writing.**  A program that can be written, and whose text does not nest
too deep, is read back from its text without diagnostics, spans aside, be the reading strict
or not. -/
theorem parse_render (p : Program Unit) (hw : p.isWritable) (hn : p.nesting ≤ Parser.maxNesting)
    (strict : Bool) : parseWith ⟨strict, true⟩ p.render = .ok (p.eraseSpans, []) := by
  obtain ⟨q, hparse, hq⟩ := parse_text p hw hn
  have herased : parseAs .erased p.render = (p.eraseSpans, []) := by
    rw [parseAs_erased, hparse, ← hq]
  unfold parseWith ParseOptions.layout
  rw [if_pos rfl, herased]
  cases strict <;> rfl

/-- A tree whose text needs parentheses, both quotes and every way to nest. -/
def sampleTree : Program Unit :=
  ⟨⟨0, 9⟩, [
    .declare ⟨0, 1⟩ true ⟨⟨2, 3⟩, "f"⟩ (some (.function ⟨3, 9⟩ ⟨⟨3, 9⟩, (), some ⟨.zero, "g"⟩,
      [⟨.zero, "x"⟩, ⟨.zero, "y"⟩], ⟨⟨5, 8⟩, [.ret .zero (.binary .zero .sub (.ident ⟨4, 5⟩ "x")
        (.binary ⟨5, 8⟩ .sub (.int ⟨5, 6⟩ 1) (.str ⟨7, 8⟩ "\"")))]⟩⟩)),
    .expr .zero (.index .zero (.call .zero (.assign .zero (.ident .zero "f")
      (.unary .zero .not (.bool .zero true))) [.array .zero () [], .str .zero "\'"])
      (.object .zero () [⟨.zero, ⟨.zero, "k"⟩, none⟩, ⟨.zero, ⟨.zero, "k"⟩, some (.int .zero 0)⟩])),
    .expr .zero (.cond .zero (.binary .zero .lt (.ident .zero "a") (.ident .zero "b"))
      ⟨.zero, [.declare .zero false ⟨.zero, "c"⟩ none]⟩ (some ⟨.zero, []⟩))]⟩

theorem parse_render_sampleTree :
    sampleTree.isWritable = true ∧ sampleTree.nesting ≤ Parser.maxNesting ∧
      sampleTree.render =
        "const f = ( function g ( x , y ) \x7b return x - ( 1 - '\"' ) ; \x7d ) ; " ++
          "( f = ! true ) ( [ ] , \"'\" ) [ \x7b k , k : 0 \x7d ] ; " ++
          "if ( a < b ) \x7b let c ; \x7d else \x7b \x7d ;" ∧
      parseWith ⟨true, true⟩ sampleTree.render = .ok (sampleTree.eraseSpans, []) := by
  have hw : sampleTree.isWritable = true := by decide +kernel
  have hn : sampleTree.nesting ≤ Parser.maxNesting := by decide +kernel
  exact ⟨hw, hn, by decide +kernel, parse_render sampleTree hw hn true⟩

end Primer
