/-
  Primer/Proofs/Parser/Soundness.lean
  ===================================
  **What is read without diagnostics follows the grammar.**

  A rule that succeeds and leaves no diagnostics behind has taken exactly the tokens of its
  construct, and its result is the tree that the grammar gives them.  The proof goes from one
  level of nesting to the next (`Rules.Sound`).

  Expressions need more than that.  What the operators in front of an expression may assume
  about it is its level (`Precedence.Admits`), and what the operators behind it may assume is
  what the next token can do to it (`Precedence.Follows`): an operator that goes on behind an
  expression finds it tight enough for its left operand, because a looser one would have gone
  on itself.
-/
import Primer.Proofs.Parser.Grammar
import Primer.Proofs.Parser.Runs

namespace Primer

/-! ### Levels -/

namespace Precedence

/-- The least level that an operator of level `p` wants on its left. -/
def demand : Precedence → Precedence
  | assign => equals
  | index => call
  | p => p

/-- May an operator of level `q` go on behind an expression of level `p`? -/
def Follows (p q : Precedence) : Prop := q.demand ≤ p

/-- May an expression of level `p` stand where operators bind tighter than `floor`? Behind an
operator that stands before its operand, another one may follow. -/
def Admits (floor p : Precedence) : Prop := floor < p ∨ floor = unary ∧ p = unary

instance (p q : Precedence) : Decidable (Follows p q) := inferInstanceAs (Decidable (_ ≤ _))

instance (floor p : Precedence) : Decidable (Admits floor p) :=
  inferInstanceAs (Decidable (_ ∨ _ ∧ _))

theorem follows_index (q : Precedence) : Follows index q := by
  cases q <;> decide

theorem follows_call (q : Precedence) : Follows call q := by
  cases q <;> decide

theorem follows_unary {q : Precedence} (h : q ≤ unary) : Follows unary q := by
  revert h
  cases q <;> decide

theorem follows_assign {q : Precedence} (h : q ≤ lowest) : Follows assign q := by
  revert h
  cases q <;> decide

theorem follows_level {op : BinaryOp} {q : Precedence} (h : q ≤ op.level) :
    Follows op.level q := by
  revert h
  cases op <;> cases q <;> decide

theorem admits_index {floor : Precedence} (h : floor ≤ unary) : floor.Admits index := by
  revert h
  cases floor <;> decide

theorem admits_unary {floor : Precedence} (h : floor ≤ unary) : floor.Admits unary := by
  revert h
  cases floor <;> decide

theorem unary_le_of_admits {p : Precedence} (h : unary.Admits p) : unary ≤ p := by
  revert h
  cases p <;> decide

theorem level_lt_of_admits {op : BinaryOp} {p : Precedence} (h : op.level.Admits p) :
    op.level < p := by
  revert h
  cases op <;> cases p <;> decide

end Precedence

theorem BinaryOp.kind_of_ofToken? {k : TokenKind} {op : BinaryOp}
    (h : BinaryOp.ofToken? k = some op) : k = op.kind := by
  revert h
  cases k <;> cases op <;> decide

theorem BinaryOp.of_kind (op : BinaryOp) : Precedence.of op.kind = op.level := by
  cases op <;> rfl

/-- Only the tokens that go on behind an expression have a level. -/
theorem Precedence.of_eq_lowest {k : TokenKind} (hparen : k ≠ .lparen) (hbracket : k ≠ .lbracket)
    (hassign : k ≠ .assign) (hop : BinaryOp.ofToken? k = none) : Precedence.of k = .lowest := by
  revert hparen hbracket hassign hop
  cases k <;> decide

/-! ### Spans -/

namespace Grammar

theorem FunctionLiteral.span_eq {ts : List Token} {fn : Function Unit}
    (h : FunctionLiteral ts fn) : fn.span = cover ts := by
  cases h
  rfl

theorem Conditional.span_eq {ts : List Token} {e : Expr Unit} (h : Conditional ts e) :
    e.span = cover ts := by
  cases h
  rfl

theorem Primary.span_eq {ts : List Token} {e : Expr Unit} (h : Primary ts e) :
    e.span = cover ts := by
  cases h with
  | group => exact Expr.span_withSpan _ _
  | conditional h => exact h.span_eq
  | function h => exact h.span_eq
  | _ => rfl

/-- An expression spans its tokens. -/
theorem Expression.span_eq {p : Precedence} {ts : List Token} {e : Expr Unit}
    (h : Expression p ts e) : e.span = cover ts := by
  cases h with
  | primary h => exact h.span_eq
  | _ => rfl

end Grammar

namespace Parser

open Grammar

variable {s t u : State} {ts us : List Token} {inner : Rules} {n : Nat}

/-! ### Taking tokens -/

namespace State

theorem Reads.spanTo_eq (h : s.Reads ts u) : s.spanTo u = cover (s.current :: ts) := by
  unfold spanTo cover
  rw [h.current]

theorem Reads.span_eq (h : s.Reads ts u) :
    ⟨s.current.span.start, u.current.span.stop⟩ = cover (s.current :: ts) := h.spanTo_eq

theorem Reads.length_ahead (h : s.Reads ts u) : s.ahead.length = ts.length + u.ahead.length := by
  rw [h.ahead, List.length_append]

theorem Leads.length_ahead_le (h : s.Leads u) : u.ahead.length ≤ s.ahead.length := by
  obtain ⟨ts, hts⟩ := h.reads
  rw [hts.length_ahead]
  exact Nat.le_add_left _ _

/-- Passing from `s` to `u` moves over the tokens `ts` and does not come to the end. -/
structure Takes (s : State) (ts : List Token) (u : State) : Prop extends s.Reads ts u where
  running : u.current.kind ≠ .eof

theorem Takes.refl (h : s.current.kind ≠ .eof) : s.Takes [] s := ⟨.refl s, h⟩

theorem Reads.takes (h : s.Reads ts t) (h' : t.Takes us u) : s.Takes (ts ++ us) u :=
  ⟨h.trans h'.toReads, h'.running⟩

theorem advance_kind {k : TokenKind} (hs : s.Ended) (h : s.peek.kind = k) (hk : k ≠ .eof) :
    s.advance.current.kind = k := by
  rw [peek_eq_advance_current hs (by rw [h]; exact hk)]
  exact h

/-- A next token of a known kind is taken. -/
theorem takes_advance {k : TokenKind} (hs : s.Ended) (h : s.peek.kind = k) (hk : k ≠ .eof) :
    s.Takes [s.advance.current] s.advance := by
  have hp : s.peek.kind ≠ .eof := by rw [h]; exact hk
  refine ⟨?_, ?_⟩
  · rw [peek_eq_advance_current hs hp]
    exact reads_peek hs hp
  · rw [advance_kind hs h hk]
    exact hk

/-- What was taken up to a token stands before what is left behind that token. -/
theorem Takes.tokens_eq (h : s.Takes ts u) (hs : s.Ended) :
    s.tokens = s.current :: ts ++ u.advance.tokens := by
  have hu := reads_advance (h.ended hs) h.running
  unfold tokens
  rw [h.ahead, hu.ahead]
  rfl

/-- A semicolon is taken if there is one. -/
theorem takes_semicolon (hs : s.Ended) (h : s.current.kind ≠ .eof) :
    ∃ us, s.Takes us (if s.peek.kind = .semicolon then s.advance else s) ∧
      OptionalSemicolon us := by
  split
  next hp =>
    exact ⟨_, takes_advance hs hp (by decide), .some (advance_kind hs hp (by decide))⟩
  next => exact ⟨[], .refl h, .none⟩

theorem leads_semicolon (s : State) :
    s.Leads (if s.peek.kind = .semicolon then s.advance else s) := by
  split
  · exact leads_advance s
  · exact .refl s

end State

/-! ### From one level of nesting to the next -/

/-- What the rules read without diagnostics follows the grammar. -/
structure Rules.Sound (r : Rules) : Prop where
  statement : ∀ {s u x}, s.Ended → r.statement s = .ok x u → u.diagnostics = [] →
    ∃ ts, s.Takes ts u ∧ Statement (s.current :: ts) x
  expression : ∀ {floor s u e}, floor ≤ .unary → s.Ended → r.expression floor s = .ok e u →
    u.diagnostics = [] → ∃ p ts, s.Takes ts u ∧ Expression p (s.current :: ts) e ∧
      floor.Admits p ∧ .of u.peek.kind ≤ floor
  conditional : ∀ {s u e}, s.Ended → s.current.kind = .ifKw → r.conditional s = .ok e u →
    u.diagnostics = [] → ∃ ts, s.Takes ts u ∧ Conditional (s.current :: ts) e

/-- An expression behind the current token, whatever its level. -/
theorem Rules.Sound.nextExpression (h : inner.Sound) (hs : s.Ended)
    (hc : s.current.kind ≠ .eof) {e : Expr Unit}
    (hr : inner.expression .lowest s.advance = .ok e u) (hu : u.diagnostics = []) :
    ∃ p ts, s.Takes ts u ∧ Expression p ts e := by
  have h₁ := State.reads_advance hs hc
  obtain ⟨p, ts, h₂, he, -, -⟩ := h.expression (by decide) (h₁.ended hs) hr hu
  exact ⟨p, _, h₁.takes h₂, he⟩

/-! #### Parameters -/

theorem moreParameters_sound {xs : List Ident} (hs : s.Ended) (hc : s.current.kind = .ident)
    (hn : s.ahead.length ≤ n) (hr : moreParameters n s = .ok xs u) :
    ∃ ts, s.Takes ts u ∧ Names (s.current :: ts) (s.name :: xs) := by
  have hc' : s.current.kind ≠ .eof := by rw [hc]; decide
  induction n generalizing s xs with
  | zero =>
    exact absurd (List.eq_nil_of_length_eq_zero (Nat.le_zero.1 hn)) (State.ahead_ne_nil hs hc')
  | succ n ih =>
    rw [moreParameters_ok] at hr
    split at hr
    next hp =>
      obtain ⟨hi, ys, hr, rfl⟩ := hr
      have h₁ := State.takes_advance hs hp (by decide)
      have hs₁ := h₁.ended hs
      have h₂ := State.takes_advance hs₁ hi (by decide)
      have hk := State.advance_kind hs₁ hi (by decide)
      have hlen := h₁.length_ahead
      have hlen' := h₂.length_ahead
      simp only [List.length_singleton] at hlen hlen'
      obtain ⟨ts, h₃, hts⟩ := ih (h₂.ended hs₁) hk (by omega) hr (by rw [hk]; decide)
      exact ⟨_, (h₁.trans h₂.toReads).takes h₃,
        .cons hc (State.advance_kind hs hp (by decide)) hts⟩
    next =>
      obtain ⟨rfl, rfl⟩ := hr
      exact ⟨[], .refl hc', .last hc⟩

theorem parameters_sound {xs : List Ident} (hs : s.Ended) (hr : parameters s = .ok xs u) :
    ∃ ts c, s.Takes (ts ++ [c]) u ∧ Parameters ts xs ∧ c.kind = .rparen := by
  rw [parameters_ok] at hr
  split at hr
  next hp =>
    obtain ⟨rfl, rfl⟩ := hr
    exact ⟨[], _, State.takes_advance hs hp (by decide), .none,
      State.advance_kind hs hp (by decide)⟩
  next =>
    obtain ⟨hi, ys, t, hr, hp, rfl, rfl⟩ := hr
    have h₁ := State.takes_advance hs hi (by decide)
    have hs₁ := h₁.ended hs
    obtain ⟨ts, h₂, hts⟩ := moreParameters_sound hs₁ (State.advance_kind hs hi (by decide))
      (Nat.le_refl _) hr
    have hs₂ := h₂.ended hs₁
    have h₃ := State.takes_advance hs₂ hp (by decide)
    refine ⟨s.advance.current :: ts, t.advance.current, ?_, .some hts,
      State.advance_kind hs₂ hp (by decide)⟩
    exact (h₁.trans h₂.toReads).takes h₃

theorem functionName_sound {x : Option Ident} (hs : s.Ended) (hc : s.current.kind ≠ .eof)
    (hr : functionName s = .ok x u) : ∃ ts, s.Takes ts u ∧ OptionalName ts x := by
  rw [functionName_ok] at hr
  split at hr
  next hp =>
    obtain ⟨rfl, rfl⟩ := hr
    exact ⟨_, State.takes_advance hs hp (by decide), .some (State.advance_kind hs hp (by decide))⟩
  next =>
    obtain ⟨rfl, rfl⟩ := hr
    exact ⟨[], .refl hc, .none⟩

/-! #### Blocks -/

section Sound

variable (h : inner.Sound) (hm : inner.Move)
include h hm

/-- The statements of a block and of a program are read up to a token that ends them. A
statement that fails leaves a diagnostic, so none has failed. -/
theorem blockStatements_sound {ss : List (Stmt Unit)} (hs : s.Ended) (hn : s.ahead.length ≤ n)
    (hr : blockStatements inner n s = .ok ss u) (hu : u.diagnostics = []) :
    ∃ ts, s.tokens = ts ++ u.tokens ∧ Statements ts ss := by
  induction n generalizing s ss with
  | zero =>
    obtain ⟨rfl, rfl⟩ := pure_ok.1 hr
    exact ⟨[], rfl, .nil⟩
  | succ n ih =>
    rw [blockStatements_ok] at hr
    split at hr
    next =>
      obtain ⟨rfl, rfl⟩ := hr
      exact ⟨[], rfl, .nil⟩
    next hc =>
      split at hr
      next x t hx =>
        obtain ⟨xs, hr, rfl⟩ := hr
        have hmr := blockStatements_moves hm n
        have htd := ((State.leads_advance t).trans (hmr.ok hr)).clean hu
        obtain ⟨ts, h₁, hts⟩ := h.statement hs hx htd
        have hs₁ := h₁.ended hs
        have h₂ := State.reads_advance hs₁ h₁.running
        have hlen := h₁.length_ahead
        have hlen' := h₂.length_ahead
        simp only [List.length_singleton] at hlen'
        obtain ⟨us, heq, hus⟩ := ih (h₂.ended hs₁) (by omega) hr
        refine ⟨s.current :: ts ++ us, ?_, .cons hts hus⟩
        rw [List.append_assoc, ← heq]
        exact h₁.tokens_eq hs
      next e t hx =>
        have hbad := (hm.statement.error hx).2
        split at hr
        next =>
          obtain ⟨rfl, rfl⟩ := hr
          exact absurd ((State.leads_synchronize t).clean hu) hbad
        next =>
          have hlead := (State.leads_synchronize t).trans
            ((State.leads_advance _).trans ((blockStatements_moves hm n).ok hr))
          exact absurd (hlead.clean hu) hbad

theorem block_sound {b : Block Unit} (hs : s.Ended) (hc : s.current.kind = .lbrace)
    (hr : block inner s = .ok b u) (hu : u.diagnostics = []) :
    ∃ ts, s.Takes ts u ∧ Body (s.current :: ts) b := by
  obtain ⟨ss, t, hss, htu, rfl⟩ := block_ok.1 hr
  have h₁ := State.reads_advance hs (by rw [hc]; decide)
  split at htu
  next hk =>
    subst htu
    obtain ⟨ts, heq, hts⟩ := blockStatements_sound h hm (h₁.ended hs) (Nat.le_refl _) hss hu
    have h₂ : s.Reads (ts ++ [t.current]) t := by
      refine ⟨?_, (List.getLastD_concat ..).symm⟩
      rw [h₁.ahead, List.append_assoc]
      exact heq
    refine ⟨ts ++ [t.current], ⟨h₂, by rw [hk]; decide⟩, ?_⟩
    rw [h₂.spanTo_eq]
    exact .mk hc hts hk
  next =>
    -- an unclosed block is reported
    subst htu
    simp [State.report] at hu

theorem function_sound {fn : Function Unit} (hs : s.Ended) (hc : s.current.kind = .functionKw)
    (hr : function inner s = .ok fn u) (hu : u.diagnostics = []) :
    ∃ ts, s.Takes ts u ∧ FunctionLiteral (s.current :: ts) fn := by
  obtain ⟨x, t, xs, v, b, hx, ho, hxs, hb, hbody, rfl⟩ := function_ok.1 hr
  obtain ⟨ns, h₁, hns⟩ := functionName_sound hs (by rw [hc]; decide) hx
  have hs₁ := h₁.ended hs
  have h₂ := State.takes_advance hs₁ ho (by decide)
  have hs₂ := h₂.ended hs₁
  obtain ⟨ps, c, h₃, hps, hk⟩ := parameters_sound hs₂ hxs
  have hs₃ := h₃.ended hs₂
  have h₄ := State.takes_advance hs₃ hb (by decide)
  obtain ⟨bs, h₅, hbs⟩ := block_sound h hm (h₄.ended hs₃) (State.advance_kind hs₃ hb (by decide))
    hbody hu
  have hall := (h₁.trans (h₂.trans (h₃.trans h₄.toReads))).takes h₅
  refine ⟨_, hall, ?_⟩
  rw [hall.spanTo_eq]
  have hfn := FunctionLiteral.mk hc hns (State.advance_kind hs₁ ho (by decide)) hps hk hbs
  simpa using hfn

/-! #### Lists and entries -/

/-- More items make a list behind whatever the first item is. -/
theorem moreExpressions_sound {close : TokenKind} {es : List (Expr Unit)} (hs : s.Ended)
    (hc : s.current.kind ≠ .eof) (hn : s.ahead.length ≤ n)
    (hr : moreExpressions inner close n s = .ok es u) (hu : u.diagnostics = []) :
    ∃ us, s.Takes us u ∧
      ∀ {p ts e}, Expression p ts e → Items (ts ++ us) (e :: es) := by
  induction n generalizing s es with
  | zero =>
    exact absurd (List.eq_nil_of_length_eq_zero (Nat.le_zero.1 hn)) (State.ahead_ne_nil hs hc)
  | succ n ih =>
    rw [moreExpressions_ok] at hr
    split at hr
    next hp =>
      have h₁ := State.takes_advance hs hp (by decide)
      have hk := State.advance_kind hs hp (by decide)
      have hs₁ := h₁.ended hs
      split at hr
      next =>
        obtain ⟨rfl, rfl⟩ := hr
        exact ⟨_, h₁, fun he => .cons he hk .nil⟩
      next =>
        obtain ⟨e, t, fs, he, hr, rfl⟩ := hr
        have htd := ((moreExpressions_moves hm close n).ok hr).clean hu
        obtain ⟨p, ts, h₂, he⟩ := h.nextExpression hs₁ h₁.running he htd
        have hlen := h₁.length_ahead
        have hlen' := h₂.length_ahead
        simp only [List.length_singleton] at hlen
        obtain ⟨us, h₃, hus⟩ := ih (h₂.ended hs₁) h₂.running (by omega) hr
        refine ⟨_, (h₁.trans h₂.toReads).takes h₃, fun he' => ?_⟩
        have hitems := Items.cons he' hk (hus he)
        simpa using hitems
    next =>
      obtain ⟨rfl, rfl⟩ := hr
      refine ⟨[], .refl hc, fun he => ?_⟩
      rw [List.append_nil]
      exact .last he

theorem expressions_sound {close : TokenKind} {es : List (Expr Unit)} (hclose : close ≠ .eof)
    (hs : s.Ended) (hc : s.current.kind ≠ .eof) (hr : expressions inner close s = .ok es u)
    (hu : u.diagnostics = []) :
    ∃ ts c, s.Takes (ts ++ [c]) u ∧ Items ts es ∧ c.kind = close := by
  rw [expressions_ok] at hr
  split at hr
  next hp =>
    obtain ⟨rfl, rfl⟩ := hr
    exact ⟨[], _, State.takes_advance hs hp hclose, .nil, State.advance_kind hs hp hclose⟩
  next =>
    obtain ⟨e, t, fs, v, he, hr, hp, rfl, rfl⟩ := hr
    have hvd := (State.leads_advance v).clean hu
    have htd := ((moreExpressions_moves hm close _).ok hr).clean hvd
    obtain ⟨p, ts, h₁, he⟩ := h.nextExpression hs hc he htd
    have hs₁ := h₁.ended hs
    obtain ⟨us, h₂, hus⟩ := moreExpressions_sound h hm hs₁ h₁.running (Nat.le_refl _) hr hvd
    have hs₂ := h₂.ended hs₁
    have h₃ := State.takes_advance hs₂ hp hclose
    exact ⟨ts ++ us, _, (h₁.trans h₂.toReads).takes h₃, hus he, State.advance_kind hs₂ hp hclose⟩

omit hm in
theorem propertyValue_sound {v : Option (Expr Unit)} (hs : s.Ended)
    (hc : s.current.kind = .ident) (hr : propertyValue inner s = .ok v u)
    (hu : u.diagnostics = []) :
    ∃ ts, s.Takes ts u ∧ Entry (s.current :: ts) ⟨s.spanTo u, s.name, v⟩ := by
  rw [propertyValue_ok] at hr
  split at hr
  next hp =>
    obtain ⟨e, hr, rfl⟩ := hr
    have h₁ := State.takes_advance hs hp (by decide)
    obtain ⟨p, ts, h₂, he⟩ := h.nextExpression (h₁.ended hs) h₁.running hr hu
    have hall := h₁.takes h₂
    refine ⟨_, hall, ?_⟩
    rw [hall.spanTo_eq]
    exact .value hc (State.advance_kind hs hp (by decide)) he
  next =>
    obtain ⟨rfl, rfl⟩ := hr
    have hrefl : s.Takes [] s := .refl (by rw [hc]; decide)
    refine ⟨[], hrefl, ?_⟩
    rw [hrefl.spanTo_eq]
    exact .key hc

/-- Behind an opening brace or a comma. -/
theorem properties_sound {ps : List (Property (Option (Expr Unit)))} (hs : s.Ended)
    (hc : s.current.kind ≠ .eof) (hn : s.ahead.length ≤ n)
    (hr : properties inner n s = .ok ps u) (hu : u.diagnostics = []) :
    ∃ ts c, s.Takes (ts ++ [c]) u ∧ Entries ts ps ∧ c.kind = .rbrace := by
  induction n generalizing s ps with
  | zero =>
    exact absurd (List.eq_nil_of_length_eq_zero (Nat.le_zero.1 hn)) (State.ahead_ne_nil hs hc)
  | succ n ih =>
    rw [properties_ok] at hr
    split at hr
    next hp =>
      obtain ⟨rfl, rfl⟩ := hr
      exact ⟨[], _, State.takes_advance hs hp (by decide), .nil,
        State.advance_kind hs hp (by decide)⟩
    next =>
      obtain ⟨hi, v, t, hv, hr⟩ := hr
      have h₁ := State.takes_advance hs hi (by decide)
      have hs₁ := h₁.ended hs
      have hk := State.advance_kind hs hi (by decide)
      split at hr
      next hp =>
        obtain ⟨qs, hr, rfl⟩ := hr
        have htd := ((State.leads_advance t).trans ((properties_moves hm n).ok hr)).clean hu
        obtain ⟨ts, h₂, hp₂⟩ := propertyValue_sound h hs₁ hk hv htd
        have hs₂ := h₂.ended hs₁
        have h₃ := State.takes_advance hs₂ hp (by decide)
        have hlen := h₁.length_ahead
        have hlen₂ := h₂.length_ahead
        have hlen₃ := h₃.length_ahead
        simp only [List.length_singleton] at hlen hlen₃
        obtain ⟨us, c, h₄, hus, hcl⟩ := ih (h₃.ended hs₂) h₃.running (by omega) hr
        refine ⟨s.advance.current :: ts ++ t.advance.current :: us, c, ?_,
          .cons hp₂ (State.advance_kind hs₂ hp (by decide)) hus, hcl⟩
        have hall := (h₁.trans (h₂.trans h₃.toReads)).takes h₄
        simpa using hall
      next =>
        obtain ⟨hp, rfl, rfl⟩ := hr
        obtain ⟨ts, h₂, hp₂⟩ := propertyValue_sound h hs₁ hk hv ((State.leads_advance t).clean hu)
        have hs₂ := h₂.ended hs₁
        have h₃ := State.takes_advance hs₂ hp (by decide)
        exact ⟨s.advance.current :: ts, _, h₁.takes (h₂.takes h₃), .last hp₂,
          State.advance_kind hs₂ hp (by decide)⟩

/-! #### What starts an expression -/

theorem alternative_sound {a : Option (Block Unit)} (hs : s.Ended) (hc : s.current.kind ≠ .eof)
    (hr : alternative inner s = .ok a u) (hu : u.diagnostics = []) :
    ∃ ts, s.Takes ts u ∧ Alternative ts a := by
  rw [alternative_ok] at hr
  split at hr
  next hp =>
    have h₁ := State.takes_advance hs hp (by decide)
    have hs₁ := h₁.ended hs
    have hk := State.advance_kind hs hp (by decide)
    split at hr
    next hi =>
      obtain ⟨e, he, rfl⟩ := hr
      have h₂ := State.takes_advance hs₁ hi (by decide)
      obtain ⟨ts, h₃, hts⟩ := h.conditional (h₂.ended hs₁) (State.advance_kind hs₁ hi (by decide))
        he hu
      refine ⟨_, h₁.takes (h₂.takes h₃), ?_⟩
      rw [hts.span_eq]
      exact .conditional hk hts
    next =>
      obtain ⟨hb, b, hr, rfl⟩ := hr
      have h₂ := State.takes_advance hs₁ hb (by decide)
      obtain ⟨bs, h₃, hbs⟩ := block_sound h hm (h₂.ended hs₁)
        (State.advance_kind hs₁ hb (by decide)) hr hu
      exact ⟨_, h₁.takes (h₂.takes h₃), .block hk hbs⟩
  next =>
    obtain ⟨rfl, rfl⟩ := hr
    exact ⟨[], .refl hc, .none⟩

theorem conditional_sound {e : Expr Unit} (hs : s.Ended) (hc : s.current.kind = .ifKw)
    (hr : conditional inner s = .ok e u) (hu : u.diagnostics = []) :
    ∃ ts, s.Takes ts u ∧ Conditional (s.current :: ts) e := by
  obtain ⟨c, t, b, v, a, ho, he, hcl, hb, hbody, ha, rfl⟩ := conditional_ok.1 hr
  have hvd := ((alternative_moves hm).ok ha).clean hu
  have htd := ((State.leads_advance t).trans ((State.leads_advance _).trans
    ((block_moves hm).ok hbody))).clean hvd
  have h₁ := State.takes_advance hs ho (by decide)
  have hs₁ := h₁.ended hs
  obtain ⟨p, ts, h₂, he⟩ := h.nextExpression hs₁ h₁.running he htd
  have hs₂ := h₂.ended hs₁
  have h₃ := State.takes_advance hs₂ hcl (by decide)
  have hs₃ := h₃.ended hs₂
  have h₄ := State.takes_advance hs₃ hb (by decide)
  have hs₄ := h₄.ended hs₃
  obtain ⟨bs, h₅, hbs⟩ := block_sound h hm hs₄ (State.advance_kind hs₃ hb (by decide)) hbody hvd
  obtain ⟨as, h₆, has⟩ := alternative_sound h hm (h₅.ended hs₄) h₅.running ha hu
  have hall := (h₁.trans (h₂.trans (h₃.trans (h₄.trans h₅.toReads)))).takes h₆
  refine ⟨_, hall, ?_⟩
  rw [hall.spanTo_eq]
  have hcond := Conditional.mk hc (State.advance_kind hs ho (by decide)) he
    (State.advance_kind hs₂ hcl (by decide)) hbs has
  simpa using hcond

omit hm in
theorem group_sound {e : Expr Unit} (hs : s.Ended) (hc : s.current.kind = .lparen)
    (hr : group inner s = .ok e u) (hu : u.diagnostics = []) :
    ∃ ts, s.Takes ts u ∧ Primary (s.current :: ts) e := by
  obtain ⟨x, t, hx, hp, rfl, rfl⟩ := group_ok.1 hr
  obtain ⟨p, ts, h₁, he⟩ := h.nextExpression hs (by rw [hc]; decide) hx
    ((State.leads_advance t).clean hu)
  have hs₁ := h₁.ended hs
  have hall := h₁.takes (State.takes_advance hs₁ hp (by decide))
  refine ⟨_, hall, ?_⟩
  rw [hall.spanTo_eq]
  exact .group hc he (State.advance_kind hs₁ hp (by decide))

theorem object_sound {e : Expr Unit} (hs : s.Ended) (hc : s.current.kind = .lbrace)
    (hr : object inner s = .ok e u) (hu : u.diagnostics = []) :
    ∃ ts, s.Takes ts u ∧ Primary (s.current :: ts) e := by
  obtain ⟨ps, hps, rfl⟩ := object_ok.1 hr
  obtain ⟨ts, c, h₁, hts, hcl⟩ := properties_sound h hm hs (by rw [hc]; decide) (Nat.le_refl _)
    hps hu
  refine ⟨_, h₁, ?_⟩
  rw [h₁.spanTo_eq]
  exact .object hc hts hcl

theorem array_sound {e : Expr Unit} (hs : s.Ended) (hc : s.current.kind = .lbracket)
    (hr : array inner s = .ok e u) (hu : u.diagnostics = []) :
    ∃ ts, s.Takes ts u ∧ Primary (s.current :: ts) e := by
  obtain ⟨es, hes, rfl⟩ := array_ok.1 hr
  obtain ⟨ts, c, h₁, hts, hcl⟩ := expressions_sound h hm (by decide) hs (by rw [hc]; decide) hes hu
  refine ⟨_, h₁, ?_⟩
  rw [h₁.spanTo_eq]
  exact .array hc hts hcl

omit hm in
theorem unary_sound (op : UnaryOp) {e : Expr Unit} (hs : s.Ended)
    (hc : s.current.kind = op.kind) (hr : unary inner op s = .ok e u) (hu : u.diagnostics = []) :
    ∃ ts, s.Takes ts u ∧ Expression .unary (s.current :: ts) e ∧
      Precedence.of u.peek.kind ≤ .unary := by
  obtain ⟨x, hx, rfl⟩ := unary_ok.1 hr
  have h₁ := State.reads_advance hs (by rw [hc]; cases op <;> decide)
  obtain ⟨p, ts, h₂, he, hp, hnext⟩ := h.expression (by decide) (h₁.ended hs) hx hu
  have hall := h₁.takes h₂
  refine ⟨_, hall, ?_, hnext⟩
  rw [hall.spanTo_eq]
  exact .unary hc he (Precedence.unary_le_of_admits hp)

/-- An expression without operators behind it is a primary, or an operator with its operand,
which has taken all that binds tighter. -/
theorem operand_sound {e : Expr Unit} (hs : s.Ended) (hr : operand inner s = .ok e u)
    (hu : u.diagnostics = []) :
    ∃ p ts, s.Takes ts u ∧ Expression p (s.current :: ts) e ∧
      (p = .index ∨ p = .unary) ∧ p.Follows (.of u.peek.kind) := by
  have hprimary : (∃ ts, s.Takes ts u ∧ Primary (s.current :: ts) e) →
      ∃ p ts, s.Takes ts u ∧ Expression p (s.current :: ts) e ∧
        (p = .index ∨ p = .unary) ∧ p.Follows (.of u.peek.kind) := by
    rintro ⟨ts, ht, hp⟩
    exact ⟨.index, ts, ht, .primary hp, .inl rfl, Precedence.follows_index _⟩
  have hunary : (∃ ts, s.Takes ts u ∧ Expression .unary (s.current :: ts) e ∧
        Precedence.of u.peek.kind ≤ .unary) →
      ∃ p ts, s.Takes ts u ∧ Expression p (s.current :: ts) e ∧
        (p = .index ∨ p = .unary) ∧ p.Follows (.of u.peek.kind) := by
    rintro ⟨ts, ht, he, hnext⟩
    exact ⟨.unary, ts, ht, he, .inr rfl, Precedence.follows_unary hnext⟩
  rw [operand_ok] at hr
  split at hr
  next hk =>
    obtain ⟨rfl, rfl⟩ := hr
    exact hprimary ⟨[], .refl (by rw [hk]; decide), .ident hk⟩
  next hk =>
    obtain ⟨hfits, rfl, rfl⟩ := integer_ok.1 hr
    exact hprimary ⟨[], .refl (by rw [hk]; decide), .int hk hfits⟩
  next hk =>
    obtain ⟨hclosed, rfl⟩ := string_ok.1 hr
    split at hclosed
    next =>
      subst hclosed
      simp [State.report] at hu
    next hlen =>
      subst hclosed
      exact hprimary ⟨[], .refl (by rw [hk]; decide), .str hk hlen⟩
  next hk =>
    obtain ⟨rfl, rfl⟩ := hr
    exact hprimary ⟨[], .refl (by rw [hk]; decide), .true hk⟩
  next hk =>
    obtain ⟨rfl, rfl⟩ := hr
    exact hprimary ⟨[], .refl (by rw [hk]; decide), .false hk⟩
  next hk => exact hunary (unary_sound h .not hs hk hr hu)
  next hk => exact hunary (unary_sound h .neg hs hk hr hu)
  next hk => exact hprimary (group_sound h hs hk hr hu)
  next hk => exact hprimary (object_sound h hm hs hk hr hu)
  next hk => exact hprimary (array_sound h hm hs hk hr hu)
  next hk =>
    obtain ⟨ts, h₁, hts⟩ := conditional_sound h hm hs hk hr hu
    exact hprimary ⟨ts, h₁, .conditional hts⟩
  next hk =>
    obtain ⟨fn, hfn, rfl⟩ := hr
    obtain ⟨ts, h₁, hts⟩ := function_sound h hm hs hk hfn hu
    exact hprimary ⟨ts, h₁, .function hts⟩
  next => exact absurd hr id

/-! #### What goes on behind an expression -/

/-- One more operator, call or index behind an expression that began in state `s₀`; the level
of the result is that of the token that went on. -/
theorem operation_sound {s₀ : State} {p : Precedence} {left e : Expr Unit} (hs : s.Ended)
    (h₀ : s₀.Takes ts s) (hleft : Expression p (s₀.current :: ts) left)
    (hfollows : p.Follows (.of s.peek.kind)) (hlow : Precedence.of s.peek.kind ≠ .lowest)
    (hr : operation inner left s.advance = .ok e u) (hu : u.diagnostics = []) :
    ∃ us, s₀.Takes us u ∧ Expression (.of s.peek.kind) (s₀.current :: us) e ∧
      (Precedence.of s.peek.kind).Follows (.of u.peek.kind) := by
  have hne : s.peek.kind ≠ .eof := by
    intro heq
    rw [heq] at hlow
    exact hlow rfl
  have h₁ := State.takes_advance hs rfl hne
  have hk := State.advance_kind hs rfl hne
  have hs₁ := h₁.ended hs
  have hstart : left.span.start = s₀.current.span.start := by
    rw [hleft.span_eq]
    rfl
  rw [operation_ok, hstart] at hr
  rw [← hk] at hfollows hlow ⊢
  split at hr
  next hk =>
    obtain ⟨args, hargs, rfl⟩ := hr
    obtain ⟨us, c, h₂, hus, hc⟩ := expressions_sound h hm (by decide) hs₁ h₁.running hargs hu
    have hall := h₀.takes (h₁.takes h₂)
    have he := Expression.call hleft (by rw [hk] at hfollows; exact hfollows) hk hus hc
    refine ⟨_, hall, ?_, by rw [hk]; exact Precedence.follows_call _⟩
    rw [hk, hall.span_eq]
    exact he
  next hk =>
    obtain ⟨key, t, hkey, hp, rfl, rfl⟩ := hr
    obtain ⟨q, us, h₂, hus⟩ := h.nextExpression hs₁ h₁.running hkey
      ((State.leads_advance t).clean hu)
    have hs₂ := h₂.ended hs₁
    have hall := h₀.takes (h₁.takes (h₂.takes (State.takes_advance hs₂ hp (by decide))))
    have he := Expression.index hleft (by rw [hk] at hfollows; exact hfollows) hk hus
      (State.advance_kind hs₂ hp (by decide))
    refine ⟨_, hall, ?_, by rw [hk]; exact Precedence.follows_index _⟩
    rw [hk, hall.span_eq]
    exact he
  next hk =>
    obtain ⟨v, hv, rfl⟩ := hr
    have h₂ := State.reads_advance hs₁ h₁.running
    obtain ⟨q, us, h₃, hus, -, hnext⟩ := h.expression (by decide) (h₂.ended hs₁) hv hu
    have hall := h₀.takes (h₁.takes (h₂.takes h₃))
    have he := Expression.assign hleft
      (by rw [hk] at hfollows; revert hfollows; cases p <;> decide) hk hus
    refine ⟨_, hall, ?_, by rw [hk]; exact Precedence.follows_assign hnext⟩
    rw [hk, hall.span_eq]
    exact he
  next hparen hbracket hassign =>
    split at hr
    next op hop =>
      obtain ⟨r, hr, rfl⟩ := hr
      have hk := BinaryOp.kind_of_ofToken? hop
      have hlevel : Precedence.of s.advance.current.kind = op.level := by rw [hk, op.of_kind]
      rw [hlevel] at hr hfollows ⊢
      have h₂ := State.reads_advance hs₁ h₁.running
      obtain ⟨q, us, h₃, hus, hq, hnext⟩ := h.expression (by cases op <;> decide) (h₂.ended hs₁)
        hr hu
      have hall := h₀.takes (h₁.takes (h₂.takes h₃))
      have he := Expression.binary hleft (by revert hfollows; cases op <;> exact id) hk hus
        (Precedence.level_lt_of_admits hq)
      refine ⟨_, hall, ?_, Precedence.follows_level hnext⟩
      rw [hall.span_eq]
      exact he
    next hop =>
      exact absurd (Precedence.of_eq_lowest hparen hbracket hassign hop) hlow

/-- If there were enough rounds, no operator is left that would go on. -/
theorem operations_sound {s₀ : State} {floor p : Precedence} {left e : Expr Unit} (hs : s.Ended)
    (h₀ : s₀.Takes ts s) (hleft : Expression p (s₀.current :: ts) left)
    (hfollows : p.Follows (.of s.peek.kind)) (hadmits : floor.Admits p)
    (hr : operations inner floor n left s = .ok e u) (hu : u.diagnostics = []) :
    ∃ q us, s₀.Takes us u ∧ Expression q (s₀.current :: us) e ∧ floor.Admits q ∧
      (s.ahead.length ≤ n → .of u.peek.kind ≤ floor) := by
  induction n generalizing s ts p left with
  | zero =>
    have hahead := State.ahead_ne_nil hs h₀.running
    obtain ⟨rfl, rfl⟩ := pure_ok.1 hr
    refine ⟨p, ts, h₀, hleft, hadmits, fun hn => ?_⟩
    exact absurd (List.eq_nil_of_length_eq_zero (Nat.le_zero.1 hn)) hahead
  | succ n ih =>
    rw [operations_ok] at hr
    split at hr
    next hfloor =>
      obtain ⟨x, t, hx, hr⟩ := hr
      have htd := ((operations_moves hm floor n x).ok hr).clean hu
      have hlow : Precedence.of s.peek.kind ≠ .lowest := by
        intro heq
        rw [heq] at hfloor
        exact absurd hfloor (Nat.not_lt_zero _)
      have hlead := (operation_moves hm left).ok hx
      obtain ⟨us, h₁, hx, hnext⟩ := operation_sound h hm hs h₀ hleft hfollows hlow hx htd
      have hlen := (State.reads_advance hs h₀.running).length_ahead
      have hlen' := hlead.length_ahead_le
      simp only [List.length_singleton] at hlen
      have ht := hlead.ended ((State.leads_advance s).ended hs)
      obtain ⟨q, vs, h₂, he, hq, hend⟩ := ih ht h₁ hx hnext (.inl hfloor) hr
      exact ⟨q, vs, h₂, he, hq, fun hn => hend (by omega)⟩
    next hfloor =>
      obtain ⟨rfl, rfl⟩ := hr
      exact ⟨p, ts, h₀, hleft, hadmits, fun _ => Nat.not_lt.1 hfloor⟩

theorem expression_sound {floor : Precedence} {e : Expr Unit} (hfloor : floor ≤ .unary)
    (hs : s.Ended) (hr : expression inner floor s = .ok e u) (hu : u.diagnostics = []) :
    ∃ p ts, s.Takes ts u ∧ Expression p (s.current :: ts) e ∧ floor.Admits p ∧
      .of u.peek.kind ≤ floor := by
  obtain ⟨x, t, hx, hr⟩ := expression_ok.1 hr
  have htd := ((operations_moves hm floor _ x).ok hr).clean hu
  obtain ⟨p, ts, h₁, hx, hp, hfollows⟩ := operand_sound h hm hs hx htd
  have hadmits : floor.Admits p := by
    rcases hp with rfl | rfl
    · exact Precedence.admits_index hfloor
    · exact Precedence.admits_unary hfloor
  obtain ⟨q, us, h₂, he, hq, hend⟩ :=
    operations_sound h hm (h₁.ended hs) h₁ hx hfollows hadmits hr hu
  exact ⟨q, us, h₂, he, hq, hend (Nat.le_refl _)⟩

/-! #### Statements -/

omit hm in
theorem declaration_sound {x : Stmt Unit} (hs : s.Ended)
    (hc : s.current.kind = .letKw ∨ s.current.kind = .constKw)
    (hr : declaration inner s = .ok x u) (hu : u.diagnostics = []) :
    ∃ ts, s.Takes ts u ∧ Statement (s.current :: ts) x := by
  rw [declaration_ok] at hr
  obtain ⟨hi, hr⟩ := hr
  have h₁ := State.takes_advance hs hi (by decide)
  have hs₁ := h₁.ended hs
  have hk₁ := State.advance_kind hs hi (by decide)
  split at hr
  next hp =>
    obtain ⟨hr, rfl⟩ := hr
    split at hr
    next =>
      -- a constant without a value is reported
      subst hr
      simp [State.report] at hu
    next =>
      subst hr
      have hall := h₁.takes (State.takes_advance hs₁ hp (by decide))
      refine ⟨_, hall, ?_⟩
      rw [hall.spanTo_eq]
      exact .declareOnly hc hk₁ (State.advance_kind hs₁ hp (by decide))
  next =>
    obtain ⟨ha, v, t, hv, hp, rfl, rfl⟩ := hr
    have h₂ := State.takes_advance hs₁ ha (by decide)
    have hs₂ := h₂.ended hs₁
    obtain ⟨p, ts, h₃, hv⟩ := h.nextExpression hs₂ h₂.running hv ((State.leads_advance t).clean hu)
    have hs₃ := h₃.ended hs₂
    have hall := h₁.takes (h₂.takes (h₃.takes (State.takes_advance hs₃ hp (by decide))))
    refine ⟨_, hall, ?_⟩
    rw [hall.spanTo_eq]
    exact .declare hc hk₁ (State.advance_kind hs₁ ha (by decide)) hv
      (State.advance_kind hs₃ hp (by decide))

omit hm in
theorem returnStatement_sound {x : Stmt Unit} (hs : s.Ended) (hc : s.current.kind = .returnKw)
    (hr : returnStatement inner s = .ok x u) (hu : u.diagnostics = []) :
    ∃ ts, s.Takes ts u ∧ Statement (s.current :: ts) x := by
  obtain ⟨-, v, t, hv, rfl, rfl⟩ := returnStatement_ok.1 hr
  obtain ⟨p, ts, h₁, hv⟩ := h.nextExpression hs (by rw [hc]; decide) hv
    ((State.leads_semicolon t).clean hu)
  obtain ⟨us, h₂, hus⟩ := State.takes_semicolon (h₁.ended hs) h₁.running
  have hall := h₁.takes h₂
  refine ⟨_, hall, ?_⟩
  rw [hall.spanTo_eq]
  exact .ret hc hv hus

theorem functionStatement_sound {x : Stmt Unit} (hs : s.Ended)
    (hc : s.current.kind = .functionKw) (hi : s.peek.kind = .ident)
    (hr : functionStatement inner ⟨s.peek.span, s.peek.literal⟩ s = .ok x u)
    (hu : u.diagnostics = []) : ∃ ts, s.Takes ts u ∧ Statement (s.current :: ts) x := by
  obtain ⟨fn, t, hfn, rfl, rfl⟩ := functionStatement_ok.1 hr
  have hname : fn.name = some ⟨s.peek.span, s.peek.literal⟩ := by
    obtain ⟨x, _, _, _, _, hx, -, -, -, -, rfl⟩ := function_ok.1 hfn
    rw [functionName_ok, if_pos hi] at hx
    obtain ⟨rfl, -⟩ := hx
    rw [← State.peek_eq_advance_current hs (by rw [hi]; decide)]
    rfl
  obtain ⟨ts, h₁, hts⟩ := function_sound h hm hs hc hfn ((State.leads_semicolon t).clean hu)
  obtain ⟨us, h₂, hus⟩ := State.takes_semicolon (h₁.ended hs) h₁.running
  have hall := h₁.takes h₂
  refine ⟨_, hall, ?_⟩
  rw [hall.spanTo_eq]
  exact .function hts hname hus

omit hm in
theorem expressionStatement_sound {x : Stmt Unit} (hs : s.Ended)
    (hr : expressionStatement inner s = .ok x u) (hu : u.diagnostics = []) :
    ∃ ts, s.Takes ts u ∧ Statement (s.current :: ts) x := by
  obtain ⟨v, t, hv, rfl, rfl⟩ := expressionStatement_ok.1 hr
  have ht := (State.leads_semicolon t).clean hu
  obtain ⟨p, ts, h₁, hv, -, -⟩ := h.expression (by decide) hs hv ht
  obtain ⟨us, h₂, hus⟩ := State.takes_semicolon (h₁.ended hs) h₁.running
  have hall := h₁.takes h₂
  refine ⟨_, hall, ?_⟩
  rw [hall.spanTo_eq]
  exact .expr hv hus

theorem statement_sound {x : Stmt Unit} (hs : s.Ended) (hr : statement inner s = .ok x u)
    (hu : u.diagnostics = []) : ∃ ts, s.Takes ts u ∧ Statement (s.current :: ts) x := by
  rw [statement_run] at hr
  split at hr
  next hk => exact declaration_sound h hs (.inl hk) hr hu
  next hk => exact declaration_sound h hs (.inr hk) hr hu
  next hk => exact returnStatement_sound h hs hk hr hu
  next hk =>
    split at hr
    next hi => exact functionStatement_sound h hm hs hk hi hr hu
    next => exact expressionStatement_sound h hs hr hu
  next => exact expressionStatement_sound h hs hr hu

end Sound

/-- At every level of nesting, what the rules read without diagnostics follows the grammar. -/
theorem level_sound (n : Nat) : (level n).Sound := by
  induction n with
  | zero =>
    have hrefuse {α : Type} {s u : State} {a : α} : ¬refuse s = .ok a u := fail_ok
    exact ⟨fun _ hr => absurd hr hrefuse, fun _ _ hr => absurd hr hrefuse,
      fun _ _ hr => absurd hr hrefuse⟩
  | succ n ih =>
    have hm := level_moves n
    exact ⟨statement_sound ih hm, expression_sound ih hm, conditional_sound ih hm⟩

/-! ### Programs -/

theorem programStatements_sound {ss : List (Stmt Unit)} (h : inner.Sound) (hm : inner.Move)
    (hs : s.Ended) (hn : s.ahead.length ≤ n) (hr : programStatements inner n s = .ok ss u)
    (hu : u.diagnostics = []) : ∃ ts, s.tokens = ts ++ [u.current] ∧ Statements ts ss ∧
      u.current.kind = .eof := by
  induction n generalizing s ss with
  | zero =>
    obtain ⟨rfl, rfl⟩ := pure_ok.1 hr
    have hnil := List.eq_nil_of_length_eq_zero (Nat.le_zero.1 hn)
    unfold State.Ended State.tokens at hs
    rw [hnil] at hs
    exact ⟨[], by unfold State.tokens; rw [hnil]; rfl, .nil, hs⟩
  | succ n ih =>
    rw [programStatements_ok] at hr
    split at hr
    next hc =>
      obtain ⟨rfl, rfl⟩ := hr
      exact ⟨[], by unfold State.tokens; rw [State.ahead_eq_nil hs hc]; rfl, .nil, hc⟩
    next hc =>
      split at hr
      next x t hx =>
        obtain ⟨xs, hr, rfl⟩ := hr
        have hmr := programStatements_moves hm n
        have htd := ((State.leads_advance t).trans (hmr.ok hr)).clean hu
        obtain ⟨ts, h₁, hts⟩ := h.statement hs hx htd
        have hs₁ := h₁.ended hs
        have h₂ := State.reads_advance hs₁ h₁.running
        have hlen := h₁.length_ahead
        have hlen' := h₂.length_ahead
        simp only [List.length_singleton] at hlen'
        obtain ⟨us, heq, hus, he⟩ := ih (h₂.ended hs₁) (by omega) hr
        refine ⟨s.current :: ts ++ us, ?_, .cons hts hus, he⟩
        rw [List.append_assoc, ← heq]
        exact h₁.tokens_eq hs
      next e t hx =>
        have hlead := (State.leads_synchronize t).trans
          ((State.leads_advance _).trans ((programStatements_moves hm n).ok hr))
        exact absurd (hlead.clean hu) (hm.statement.error hx).2

theorem State.ofString_tokens (source : String) : (State.ofString source).tokens = lex source := by
  have h : Parser.Ended (lex source) := Parser.tokens_ended _
  unfold ofString ofTokens tokens
  cases hl : lex source with
  | nil => rw [hl] at h; exact absurd h id
  | cons t ts => rfl

end Parser

/-- **What is read without diagnostics follows the grammar.**  All tokens of the source, none
left out, are derived from the grammar, with every operand of a level that its operator
accepts, and the program is the tree of that derivation, spans included. -/
theorem parse_derives (source : String) (h : (parse source).2 = []) :
    Grammar.Source (lex source) (parse source).1 := by
  have hs := Parser.State.ofString_ended source
  unfold parse parseAs Parser.State.readProgram at *
  cases hp : Parser.program (Parser.State.ofString source) with
  | error e u =>
    rw [hp] at h
    have hmoves : Parser.Moves Parser.program :=
      .bind .roundsLeft fun _ => .bind (Parser.programStatements_moves (Parser.level_moves _) _)
        fun _ => .bind (.spanFrom _) fun _ => .pure _
    exact absurd h (hmoves.error hp).2
  | ok p u =>
    rw [hp] at h
    obtain ⟨ss, hss, rfl⟩ := Parser.program_ok.1 hp
    obtain ⟨ts, heq, hts, he⟩ := Parser.programStatements_sound (Parser.level_sound _)
      (Parser.level_moves _) hs (Nat.le_refl _) hss h
    rw [← Parser.State.ofString_tokens, heq]
    exact .mk hts he

/-- A source with every construct of the grammar. -/
def sample : String :=
  "const f = function (a, b) \x7b if (a == b) \x7b return -a; \x7d else if (!b) " ++
    "\x7b a[0] = b \x7d else \x7b [a, 'b',] \x7d \x7d; function g() \x7b\x7d let h; " ++
    "f(1, \x7bx: true, h,\x7d)[0] * (2 + 3) - h = g();"

theorem parse_derives_sample :
    (parse sample).2 = [] ∧ Grammar.Source (lex sample) (parse sample).1 := by
  have h : (parse sample).2 = [] := by decide +kernel
  exact ⟨h, parse_derives sample h⟩

end Primer
