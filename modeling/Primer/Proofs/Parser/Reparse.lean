/-
  Primer/Proofs/Parser/Reparse.lean
  =================================
  **The text of an expression is read as that expression.**

  Every expression of a program was in the hands of a rule at some time, when as much of it had
  been read as belongs to it and no more (`IsCut`).  The text from its first token to its last has
  the same tokens, and a semicolon behind it adds only one more (`lex_piece`).  So the rule reads
  the expression again (`expressionUpTo_replays`), and stops there by itself, because no operator
  follows.  What it reads does not depend on where the tokens stand but for the spans, so the text
  may as well stand behind `let x =`.
-/
import Primer.Proofs.Parser.Cuts
import Primer.Proofs.Parser.Readable
import Primer.Proofs.Parser.Replay
import Primer.Proofs.Token.Piece
import Primer.Tree.Equal

namespace Primer

/-! ### How expressions end -/

theorem UnaryOp.kind_ne_string (op : UnaryOp) : op.kind ≠ .string := by
  cases op <;> decide

theorem BinaryOp.kind_ne_string (op : BinaryOp) : op.kind ≠ .string := by
  cases op <;> decide

namespace Grammar

/-- The last token is no string without its second quote. -/
def EndsComplete (ts : List Token) : Prop := ∀ t ∈ ts.getLast?, t.Complete

namespace EndsComplete

variable {ts us : List Token} {t : Token}

theorem nil : EndsComplete [] := nofun

theorem append (ht : EndsComplete ts) (hu : EndsComplete us) : EndsComplete (ts ++ us) := by
  cases us with
  | nil => rwa [List.append_nil]
  | cons u us =>
    unfold EndsComplete
    rwa [List.getLast?_append_of_ne_nil _ (List.cons_ne_nil _ _)]

/-- Whatever stands before a token that is not a string makes no difference. -/
theorem behind (ts : List Token) {k : TokenKind} (hk : t.kind = k) (hne : k ≠ .string)
    (hu : EndsComplete us) : EndsComplete (ts ++ t :: us) := by
  unfold EndsComplete
  rw [List.getLast?_append_of_ne_nil _ (List.cons_ne_nil _ _)]
  cases us with
  | nil =>
    rintro a ⟨⟩ hstring
    exact absurd (hk.symm.trans hstring) hne
  | cons u us => rwa [List.getLast?_cons_cons]

end EndsComplete

theorem Body.endsComplete {ts : List Token} {b : Block Unit} : Body ts b → EndsComplete ts
  | .mk _ _ hc => .behind (_ :: _) hc (by decide) .nil

theorem FunctionLiteral.endsComplete {ts : List Token} {fn : Function Unit} :
    FunctionLiteral ts fn → EndsComplete ts
  | .mk _ _ ho _ hc hb =>
    .behind (_ :: _) ho (by decide) (.behind _ hc (by decide) hb.endsComplete)

mutual

theorem Expression.endsComplete {p : Precedence} {ts : List Token} {e : Expr Unit} :
    Expression p ts e → EndsComplete ts
  | .primary h => h.endsComplete
  | .unary hk h _ => .behind [] hk (UnaryOp.kind_ne_string _) h.endsComplete
  | .binary _ _ hk h _ => .behind _ hk (BinaryOp.kind_ne_string _) h.endsComplete
  | .assign _ _ hk h => .behind _ hk (by decide) h.endsComplete
  | .call _ _ ho _ hc | .index _ _ ho _ hc =>
    .behind _ ho (by decide) (.behind _ hc (by decide) .nil)

theorem Primary.endsComplete {ts : List Token} {e : Expr Unit} : Primary ts e → EndsComplete ts
  | .ident hk | .int hk _ | .true hk | .false hk => .behind [] hk (by decide) .nil
  | .str _ hclosed => by
    rintro t ⟨⟩ -
    exact hclosed
  | .group _ _ hc | .object _ _ hc | .array _ _ hc => .behind (_ :: _) hc (by decide) .nil
  | .conditional h => h.endsComplete
  | .function h => h.endsComplete

theorem Conditional.endsComplete {ts : List Token} {e : Expr Unit} :
    Conditional ts e → EndsComplete ts
  | .mk _ _ _ hc hb ha =>
    .behind (_ :: _ :: _) hc (by decide) (hb.endsComplete.append ha.endsComplete)

theorem Alternative.endsComplete {ts : List Token} {a : Option (Block Unit)} :
    Alternative ts a → EndsComplete ts
  | .none => .nil
  | .block hk hb => .behind [] hk (by decide) hb.endsComplete
  | .conditional hk h => .behind [] hk (by decide) h.endsComplete

end

end Grammar

/-- The text at a span is as wide as the span. -/
theorem Span.Holds.stop_eq {source text : String} {span : Span}
    (h : span.Holds source text.toList) : span.stop = span.start + text.utf8ByteSize := by
  obtain ⟨before, after, hcuts⟩ := h
  rw [← hcuts.start, ← width_toList, hcuts.stop]

namespace Parser

variable {s s' t u : State} {inner : Rules} {n k : Nat} {e : Expr Unit}

/-! ### The same tokens, with a semicolon behind them -/

/-- What was read up to now follows the grammar, whether or not an operator comes next. -/
theorem expressionUpTo_sound {m : Nat} (hs : s.Ended)
    (hr : expressionUpTo (level m) n s = .ok e u) (hu : u.diagnostics = []) :
    ∃ p ts, s.Takes ts u ∧ Grammar.Expression p (s.current :: ts) e := by
  have h := level_sound m
  have hm := level_moves m
  obtain ⟨x, t, hx, hr⟩ := expressionUpTo_ok.1 hr
  have htd := ((operations_moves hm .lowest _ x).ok hr).clean hu
  obtain ⟨p, ts, h₁, hx, hp, hfollows⟩ := operand_sound h hm hs hx htd
  have hadmits : Precedence.lowest.Admits p := by
    rcases hp with rfl | rfl <;> decide
  obtain ⟨q, us, h₂, he, -, -⟩ := operations_sound h hm (h₁.ended hs) h₁ hx hfollows hadmits hr hu
  exact ⟨q, us, h₂, he⟩

theorem expressionUpTo_replays (X : Excerpt) {m m' : Nat} (hle : m ≤ m') :
    X.Replays 0 (expressionUpTo (level m) n) (expressionUpTo (level m') n) := by
  have h := level_replays X hle
  have hm := level_moves m
  have hm' := level_moves m'
  exact .bind (operand_replays h hm hm') fun x => operations_replays h hm hm' .lowest n x

/-- Where no operator follows, more rounds make no difference. -/
theorem operations_of_stop {x : Expr Unit} (hr : operations inner .lowest n x s = .ok e u)
    (hstop : Precedence.of u.peek.kind = .lowest) (hle : n ≤ k) :
    operations inner .lowest k x s = .ok e u := by
  induction n generalizing k x s with
  | zero =>
    obtain ⟨rfl, rfl⟩ := pure_ok.1 hr
    exact operations_stop (by rw [hstop]; decide) k x
  | succ n ih =>
    obtain ⟨k, rfl⟩ := Nat.exists_eq_add_one_of_ne_zero (Nat.ne_zero_of_lt hle)
    rw [operations_ok] at hr
    split at hr
    next hgo =>
      obtain ⟨y, t, hy, hr⟩ := hr
      rw [operations_step hgo hy]
      exact ih hr (Nat.le_of_succ_le_succ hle)
    next hgo =>
      obtain ⟨rfl, rfl⟩ := hr
      exact operations_stop (Nat.not_lt.1 hgo) _ x

/-- An expression that no operator follows was read to its end. -/
theorem expression_of_upTo (hm : inner.Move) (hs : s.Ended)
    (hr : expressionUpTo inner n s = .ok e u) (hstop : Precedence.of u.peek.kind = .lowest) :
    expression inner .lowest s = .ok e u := by
  obtain ⟨x, t, hx, hr⟩ := expressionUpTo_ok.1 hr
  have ht := ((operand_moves hm).ok hx).ended hs
  have hmore := operations_of_stop hr hstop (Nat.le_max_left n t.ahead.length)
  rw [(operations_advances hm .lowest).settles ht trivial (Nat.le_max_right _ _)] at hmore
  exact expression_ok.2 ⟨x, t, hx, hmore⟩

/-- Where a semicolon stands behind the tokens of an expression, it is read up to there. -/
theorem expression_replayed {X : Excerpt} {m : Nat} (hlevel : m + 2 ≤ maxNesting)
    (hs : X.Along s s') (hr : expressionUpTo (level m) n s = .ok e u) (hu : u.diagnostics = [])
    (hrest : X.rest = u.ahead) :
    ∃ u', (level (maxNesting - 1)).expression .lowest s' = .ok e u' ∧ u'.diagnostics = [] ∧
      u'.ahead = X.stop :: X.behind := by
  have hle : m ≤ maxNesting - 2 := by omega
  have hlast : u.ahead.length = X.rest.length := by rw [hrest]
  obtain ⟨u', hr', hu'⟩ := (expressionUpTo_replays X hle).step hs hr hu (Nat.le_of_eq hlast.symm)
  have hstop : Precedence.of u'.peek.kind = .lowest := by
    rw [hu'.peek_of_le (Nat.le_of_eq hlast), X.stop_kind]
    rfl
  refine ⟨u', ?_, hu'.clean, hu'.ahead_of_le (Nat.le_of_eq hlast)⟩
  exact expression_of_upTo (level_moves (maxNesting - 2)) hs.ended' hr' hstop

/-- Nothing was reported, and all that is left behind the current token is a semicolon that ends
at that offset. -/
structure State.BeforeLast (stop : Nat) (s : State) : Prop where
  clean : s.diagnostics = []
  semicolon : s.peek.kind = .semicolon
  stop_eq : s.peek.span.stop = stop
  ending : s.advance.advance.current.kind = .eof

/-- **The text of a cut is read as an expression,** where its tokens stand as in the source. -/
theorem IsCut.exists_text {source : String} (h : IsCut source e) :
    ∃ text : String, e.span.Holds source text.toList ∧ ∀ s : State, s.Ended →
      s.tokens = (lex (text ++ ";")).map (·.shift e.span.start) → s.diagnostics = [] →
        ∃ u, (level (maxNesting - 1)).expression .lowest s = .ok e u ∧
          u.BeforeLast (text.utf8ByteSize + 1 + e.span.start) := by
  obtain ⟨m, n, s, u, hlevel, hs, hr, hclean⟩ := h
  obtain ⟨p, ts, htakes, he⟩ := expressionUpTo_sound hs.ended hr hclean
  have hspan : e.span = ⟨s.current.span.start, (ts.getLastD s.current).span.stop⟩ := he.span_eq
  have hahead : u.ahead ≠ [] := State.ahead_ne_nil (htakes.ended hs.ended) htakes.running
  have htokens : s.tokens = s.current :: ts ++ u.ahead := by
    unfold State.tokens
    rw [htakes.ahead]
    rfl
  have hcomplete : (ts.getLastD s.current).Complete := by
    apply he.endsComplete
    rw [List.getLast?_cons, List.getLastD_eq_getLast?]
    rfl
  have hon : s.current :: ts ++ u.ahead <:+ lex source := htokens ▸ hs
  obtain ⟨text, hholds, hlex⟩ := lex_piece hon hahead hcomplete
  have hstop : (ts.getLastD s.current).span.stop = s.current.span.start + text.utf8ByteSize :=
    hholds.stop_eq
  rw [hspan]
  refine ⟨text, hholds, fun s' hended' htokens' hclean' => ?_⟩
  rw [hlex, Cursor.tokens_semicolon] at htokens'
  generalize (ts.getLastD s.current).span.stop = stop at *
  -- the tokens of the expression, with a semicolon instead of what is behind them
  let X : Excerpt := ⟨u.ahead, hahead, ⟨.semicolon, ";", ⟨stop, stop + 1⟩⟩, rfl,
    [⟨.eof, "", ⟨stop + 1, stop + 1⟩⟩]⟩
  have halong : X.Along s s' :=
    ⟨⟨_, List.cons_ne_nil _ _, htokens, htokens'⟩, hs.ended, hended', hclean'⟩
  obtain ⟨u', hr', hu, hahead'⟩ := expression_replayed hlevel halong hr hclean rfl
  refine ⟨u', hr', hu, ?_, ?_, ?_⟩
  · rw [State.peek, hahead']
    rfl
  · rw [State.peek, hahead']
    show stop + 1 = text.utf8ByteSize + 1 + s.current.span.start
    omega
  · unfold State.advance
    rw [hahead']

/-! ### The same text in another place -/

/-- A second reading of the same tokens, moved over. -/
def Mirror.moved (k : Nat) : Mirror := ⟨k, id, [], none⟩

theorem Ended.shift {ts : List Token} (h : Ended ts) (k : Nat) : Ended (ts.map (·.shift k)) := by
  induction ts with
  | nil => exact h
  | cons a ts ih =>
    cases ts with
    | nil => exact h
    | cons b ts => exact ⟨h.1, ih h.2⟩

namespace Mirror

theorem twin_moved (hs : s.Ended) (htokens : s'.tokens = s.tokens.map (·.shift k))
    (hclean : s.diagnostics = []) (hclean' : s'.diagnostics = []) : (moved k).Twin s s' where
  tokens := by
    rw [htokens]
    exact abreast_shift rfl hs
  ended := hs
  ended_right := by
    unfold State.Ended
    rw [htokens]
    exact hs.shift k
  diagnostics := ⟨[], hclean', by rw [hclean]; exact like_nil⟩

theorem Twin.beforeLast_iff {stop : Nat} (h : (moved k).Twin s s') :
    s.BeforeLast stop ↔ s'.BeforeLast (stop + k) := by
  obtain ⟨hpeek, hadvance⟩ := h.next (.inl rfl)
  have hending := (hadvance.next (.inl rfl)).2.current.kind
  have hkind := hpeek.kind
  have hstop : s.peek.span.stop + k = s'.peek.span.stop := hpeek.stop
  have hclean : s.diagnostics = [] ↔ s'.diagnostics = [] := by
    obtain ⟨ds, hds, hlike⟩ := h.diagnostics
    have hds : s'.diagnostics = ds := hds
    have hlength := congrArg List.length hlike
    simp only [Placed.mapSpans, List.length_map] at hlength
    rw [hds, ← List.length_eq_zero_iff, ← List.length_eq_zero_iff, hlength]
  constructor
  · rintro ⟨h₁, h₂, h₃, h₄⟩
    exact ⟨hclean.1 h₁, hkind ▸ h₂, by omega, hending ▸ h₄⟩
  · rintro ⟨h₁, h₂, h₃, h₄⟩
    exact ⟨hclean.2 h₁, hkind ▸ h₂, by omega, hending ▸ h₄⟩

/-- An expression is read from the moved tokens exactly if it is read from the tokens. -/
theorem expression_moved (n : Nat) (h : (moved k).Twin s s') :
    (∀ {e u}, (level n).expression .lowest s = .ok e u → ∃ u',
      (level n).expression .lowest s' = .ok (e.mapSpans (.shift k)) u' ∧ (moved k).Twin u u') ∧
    (∀ {e' u'}, (level n).expression .lowest s' = .ok e' u' → ∃ e u,
      (level n).expression .lowest s = .ok e u ∧ e' = e.mapSpans (.shift k) ∧
        (moved k).Twin u u') := by
  have hstep := ((level_mirror (moved k) n).expression .lowest).step h trivial
  have hshift {e e' : Expr Unit} (hlike : (moved k).Like e e') : e' = e.mapSpans (.shift k) :=
    hlike.eq_shift rfl (Expr.mapSpans_id fun _ => rfl)
  constructor
  · intro e u hr
    rw [hr] at hstep
    rcases hstep with hstray | ⟨e', u', hr', hlike, htwin, -⟩
    · exact absurd rfl hstray.1
    · exact ⟨u', by rw [hr', hshift hlike], htwin⟩
  · intro e' u' hr'
    rw [hr'] at hstep
    cases hr : (level n).expression .lowest s with
    | ok e u =>
      rw [hr] at hstep
      rcases hstep with hstray | ⟨_, _, heq, hlike, htwin, -⟩
      · exact absurd rfl hstray.1
      · cases heq
        exact ⟨e, u, rfl, hshift hlike, htwin⟩
    | error x u =>
      rw [hr] at hstep
      rcases hstep with hstray | ⟨_, _, heq, -⟩
      · exact absurd rfl hstray.1
      · cases heq

end Mirror

/-- **The text of a cut is read as the same expression wherever it stands.** -/
theorem IsCut.exists_value {source : String} (h : IsCut source e) :
    ∃ text : String, e.span.Holds source text.toList ∧ ∀ (k : Nat) (s : State),
      s.tokens = (lex (text ++ ";")).map (·.shift k) → s.diagnostics = [] →
        ∃ v u, (level (maxNesting - 1)).expression .lowest s = .ok v u ∧
          u.BeforeLast (text.utf8ByteSize + 1 + k) ∧
          v.mapSpans (.shift e.span.start) = e.mapSpans (.shift k) := by
  obtain ⟨text, hholds, hread⟩ := h.exists_text
  refine ⟨text, hholds, fun k s htokens hclean => ?_⟩
  -- the text by itself, from which both places are seen
  have hended := State.ofString_ended (text ++ ";")
  have hclean₀ := State.ofString_diagnostics (text ++ ";")
  rw [← State.ofString_tokens] at htokens hread
  generalize (State.ofString (text ++ ";") : State) = s₀ at *
  obtain ⟨a, ts, hts⟩ := List.exists_cons_of_ne_nil
    (l := s₀.tokens.map (·.shift e.span.start)) (by simp [State.tokens])
  have htwin₁ : (Mirror.moved e.span.start).Twin s₀ ⟨a, ts, []⟩ :=
    Mirror.twin_moved hended hts.symm hclean₀ rfl
  obtain ⟨u₁, hr₁, hu₁⟩ := hread ⟨a, ts, []⟩ htwin₁.ended_right hts.symm rfl
  obtain ⟨e₀, u₀, hr₀, he, hu₀⟩ := (Mirror.expression_moved _ htwin₁).2 hr₁
  have htwin := Mirror.twin_moved hended htokens hclean₀ hclean
  obtain ⟨u, hr, hu⟩ := (Mirror.expression_moved _ htwin).1 hr₀
  refine ⟨_, u, hr, hu.beforeLast_iff.1 (hu₀.beforeLast_iff.2 hu₁), ?_⟩
  have hcomm (a : Span) : (a.shift k).shift e.span.start = (a.shift e.span.start).shift k := by
    simp [Span.shift, Nat.add_right_comm]
  rw [Expr.mapSpans_mapSpans hcomm]
  conv_rhs => rw [he]
  rw [Expr.mapSpans_mapSpans fun _ => rfl]

end Parser

/-! ### Behind `let x =` -/

/-- The tokens of a declaration of `x`, up to its value. -/
def declaring : List Token :=
  [⟨.letKw, "let", ⟨0, 3⟩⟩, ⟨.ident, "x", ⟨4, 5⟩⟩, ⟨.assign, "=", ⟨6, 7⟩⟩]

theorem lex_let (q : String) : lex ("let x = " ++ q) = declaring ++ (lex q).map (·.shift 8) := by
  have hlet (cs : List Char) : Cursor.next ⟨0, 'l' :: 'e' :: 't' :: ' ' :: cs⟩ =
      (⟨.letKw, "let", ⟨0, 3⟩⟩, ⟨3, ' ' :: cs⟩) := rfl
  have hx (cs : List Char) : Cursor.next ⟨3, ' ' :: 'x' :: ' ' :: cs⟩ =
      (⟨.ident, "x", ⟨4, 5⟩⟩, ⟨5, ' ' :: cs⟩) := rfl
  have hassign (cs : List Char) : Cursor.next ⟨5, ' ' :: '=' :: ' ' :: cs⟩ =
      (⟨.assign, "=", ⟨6, 7⟩⟩, ⟨7, ' ' :: cs⟩) := rfl
  have hshift := (Cursor.ofString q).tokens_shift 8
  have htext : Cursor.ofString ("let x = " ++ q) = ⟨0, "let x = ".toList ++ q.toList⟩ := by
    rw [Cursor.ofString, String.toList_append]
  unfold lex
  rw [← hshift, htext]
  show Cursor.tokens ⟨0, 'l' :: 'e' :: 't' :: ' ' :: 'x' :: ' ' :: '=' :: ' ' :: q.toList⟩ = _
  rw [Cursor.tokens_of_next (hlet _) (by decide), Cursor.tokens_of_next (hx _) (by decide),
    Cursor.tokens_of_next (hassign _) (by decide), Cursor.tokens_space]
  rfl

namespace Parser

section

variable {source : String} {a : Token} {ts : List Token} {v : Expr Unit} {u : State} {stop : Nat}
  (hr : (level (maxNesting - 1)).expression .lowest ⟨a, ts, []⟩ = .ok v u)
  (hu : u.BeforeLast stop)
include hr hu

/-- A value with only a semicolon behind it makes a declaration. -/
theorem statement_let : (level maxNesting).statement (.ofTokens (declaring ++ a :: ts)) =
    .ok (.declare ⟨0, stop⟩ false ⟨⟨4, 5⟩, "x"⟩ (some v)) u.advance := by
  have hassign : (State.ofTokens (declaring ++ a :: ts) : State).advance.peek.kind ≠ .semicolon :=
    show TokenKind.assign ≠ .semicolon by decide
  show statement (level (maxNesting - 1)) _ = _
  rw [statement_run]
  refine declaration_ok.2 ⟨rfl, ?_⟩
  rw [if_neg hassign]
  refine ⟨rfl, v, u, hr, hu.semicolon, rfl, ?_⟩
  unfold State.spanTo
  rw [u.advance_current, hu.stop_eq]
  rfl

/-- And that is all of the source. -/
theorem allStatements_let (hlex : lex source = declaring ++ a :: ts) :
    allStatements (level maxNesting) (.ofString source) =
      .ok [.declare ⟨0, stop⟩ false ⟨⟨4, 5⟩, "x"⟩ (some v)] u.advance.advance := by
  have hm := level_moves maxNesting
  have hended := State.ofString_ended source
  have hx := statement_let hr hu
  unfold State.ofString at hended ⊢
  rw [hlex] at hended ⊢
  have hend : u.advance.advance.Ended :=
    ((hm.statement.ok hx).trans u.advance.leads_advance).ended hended
  rw [allStatements_ok hm hended, if_neg (by exact nofun), hx]
  exact ⟨[], allStatements_at_end hm hend hu.ending, rfl⟩

end

end Parser

/-- **The text of an expression is read as that expression.**  In a program that is parsed without
diagnostics, every expression at any depth has a text, from the start of its span to the end.  Put
between `let x =` and a semicolon, that text is parsed without diagnostics as one declaration, the
value of which is the expression, with all spans moved from where it stood to where it stands. -/
theorem parse_text_of_expression {source : String} (hclean : (parse source).2 = [])
    {e : Expr Unit} (he : e ∈ (parse source).1.expressions) :
    ∃ text : String, e.span.Holds source text.toList ∧
      (parse ("let x = " ++ text ++ ";")).2 = [] ∧
      ∃ v : Expr Unit,
        (parse ("let x = " ++ text ++ ";")).1.statements =
          [.declare ⟨0, text.utf8ByteSize + 9⟩ false ⟨⟨4, 5⟩, "x"⟩ (some v)] ∧
        v.mapSpans (.shift e.span.start) = e.mapSpans (.shift 8) := by
  obtain ⟨text, hholds, hread⟩ := (isCut_of_mem_expressions hclean e he).exists_value
  obtain ⟨a, ts, hts⟩ : ∃ a ts, (lex (text ++ ";")).map (·.shift 8) = a :: ts := by
    apply List.exists_cons_of_ne_nil
    rw [← Parser.State.ofString_tokens]
    exact List.cons_ne_nil _ _
  obtain ⟨v, u, hr, hu, hv⟩ := hread 8 ⟨a, ts, []⟩ hts.symm rfl
  have hlex := lex_let (text ++ ";")
  rw [hts] at hlex
  refine ⟨text, hholds, ?_⟩
  rw [String.append_assoc, parse_of_allStatements (Parser.allStatements_let hr hu hlex)]
  refine ⟨?_, v, rfl, hv⟩
  rw [Parser.State.advance_diagnostics, Parser.State.advance_diagnostics]
  exact hu.clean

/-- The left operand of a product that is itself the right operand of a difference. -/
theorem parse_text_of_grouped_operand :
    (parse "f(1) - (2 + h) * k;").2 = [] ∧
      .binary ⟨7, 14⟩ .add (.int ⟨8, 9⟩ 2) (.ident ⟨12, 13⟩ "h") ∈
        (parse "f(1) - (2 + h) * k;").1.expressions ∧
      ∃ text : String, Span.Holds "f(1) - (2 + h) * k;" ⟨7, 14⟩ text.toList ∧
        (parse ("let x = " ++ text ++ ";")).2 = [] ∧
        ∃ v : Expr Unit,
          (parse ("let x = " ++ text ++ ";")).1.statements =
            [.declare ⟨0, text.utf8ByteSize + 9⟩ false ⟨⟨4, 5⟩, "x"⟩ (some v)] ∧
          v.mapSpans (.shift 7) =
            .binary ⟨15, 22⟩ .add (.int ⟨16, 17⟩ 2) (.ident ⟨20, 21⟩ "h") := by
  have hclean : (parse "f(1) - (2 + h) * k;").2 = [] := by decide +kernel
  have hmem : .binary ⟨7, 14⟩ .add (.int ⟨8, 9⟩ 2) (.ident ⟨12, 13⟩ "h") ∈
      (parse "f(1) - (2 + h) * k;").1.expressions := by decide +kernel
  exact ⟨hclean, hmem, parse_text_of_expression hclean hmem⟩

end Primer
