/-
  Primer/Proofs/Parser/Replay.lean
  ================================
  **A part of a reading, read again by itself.**

  Let a rule succeed without diagnostics, and let the tokens that it went over be followed by a
  semicolon instead of what was behind them.  Then it succeeds again, with the same result
  (`Replays`).  As long as a rule does not stand on the last token of the part, the next token is
  the same in both readings.  On the last token it sees different ones; but all it asks there is
  whether it can go on, which it did not in the first reading, and which a semicolon does not allow.

  There are rules that ask more of the token behind their last one: a statement takes a semicolon
  that is there, and a list stops at a comma before its end.  These are read again only where they
  end before the last token of the part, and that is where they are used: behind them comes at least
  the bracket that closes what is around them.  Whether a rule may end on the last token or has to
  end before it is the number of tokens that it leaves (`Replays X j`).

  The second reading may have more levels of nesting left than the first (`level_replays`).
-/
import Primer.Proofs.Parser.Append

namespace Primer.Parser

variable {α β σ : Type} {s s' t u : State}

/-- What stands behind a part of a reading, and what stands there when the part is read again. -/
structure Excerpt where
  /-- what the first reading has behind the part -/
  rest : List Token
  rest_ne_nil : rest ≠ []
  /-- what the second reading has behind it: a semicolon -/
  stop : Token
  stop_kind : stop.kind = .semicolon
  /-- and whatever comes then -/
  behind : List Token

namespace Excerpt

variable {X : Excerpt}

/-- Both readings stand on the same token of the part; the second has reported nothing. -/
structure Along (X : Excerpt) (s s' : State) : Prop where
  tokens : ∃ ts, ts ≠ [] ∧ s.tokens = ts ++ X.rest ∧ s'.tokens = ts ++ X.stop :: X.behind
  ended : s.Ended
  ended' : s'.Ended
  clean : s'.diagnostics = []

theorem length_rest_pos (X : Excerpt) : 0 < X.rest.length := List.length_pos_iff.2 X.rest_ne_nil

/-- Where something of the part is left behind the next token, there is a next token. -/
theorem lt_of_le_advance {j : Nat} (h : X.rest.length + j ≤ s.advance.ahead.length) :
    X.rest.length + j < s.ahead.length := by
  have hpos := X.length_rest_pos
  rw [s.length_advance] at h
  omega

namespace Along

theorem exists_cons (h : X.Along s s') : ∃ ts, s.ahead = ts ++ X.rest ∧
    s'.current = s.current ∧ s'.ahead = ts ++ X.stop :: X.behind := by
  obtain ⟨ts, hne, hs, hs'⟩ := h.tokens
  obtain ⟨a, ts, rfl⟩ := List.exists_cons_of_ne_nil hne
  obtain ⟨hc, ha⟩ := List.cons.inj hs
  obtain ⟨hc', ha'⟩ := List.cons.inj hs'
  exact ⟨ts, ha, hc'.trans hc.symm, ha'⟩

theorem current (h : X.Along s s') : s'.current = s.current := by
  obtain ⟨ts, -, hc, -⟩ := h.exists_cons
  exact hc

theorem current_ne_eof (h : X.Along s s') : s.current.kind ≠ .eof := by
  obtain ⟨ts, ha, -, -⟩ := h.exists_cons
  have hended : Parser.Ended (s.current :: s.ahead) := h.ended
  rw [ha] at hended
  exact (hended.head_ne (List.append_ne_nil_of_right_ne_nil _ X.rest_ne_nil)).1

/-- Before the last token of the part the next token is the same. -/
theorem next (h : X.Along s s') (hlt : X.rest.length < s.ahead.length) :
    s'.peek = s.peek ∧ X.Along s.advance s'.advance := by
  obtain ⟨ts, ha, -, ha'⟩ := h.exists_cons
  cases ts with
  | nil =>
    rw [ha] at hlt
    exact absurd hlt (Nat.lt_irrefl _)
  | cons b ts =>
    refine ⟨?_, ⟨b :: ts, List.cons_ne_nil _ _, ?_, ?_⟩, ?_, ?_, ?_⟩
    · rw [State.peek, State.peek, ha, ha']
      rfl
    · rw [State.advance, ha]
      rfl
    · rw [State.advance, ha']
      rfl
    · exact s.leads_advance.ended h.ended
    · exact s'.leads_advance.ended h.ended'
    · rw [s'.advance_diagnostics]
      exact h.clean

/-- Behind the last token of the part the second reading finds a semicolon. -/
theorem ahead_of_le (h : X.Along s s') (hle : s.ahead.length ≤ X.rest.length) :
    s'.ahead = X.stop :: X.behind := by
  obtain ⟨ts, ha, -, ha'⟩ := h.exists_cons
  rw [ha, List.length_append] at hle
  obtain rfl : ts = [] := List.eq_nil_of_length_eq_zero (by omega)
  exact ha'

theorem peek_of_le (h : X.Along s s') (hle : s.ahead.length ≤ X.rest.length) :
    s'.peek = X.stop := by
  rw [State.peek, h.ahead_of_le hle]
  rfl

/-- What a next token is not in the first reading, and no semicolon is, it is not in the second. -/
theorem not_peek (h : X.Along s s') {C : TokenKind → Prop} (hC : ¬C .semicolon)
    (hpeek : ¬C s.peek.kind) : ¬C s'.peek.kind := by
  by_cases hlt : X.rest.length < s.ahead.length
  · rwa [(h.next hlt).1]
  · rwa [h.peek_of_le (Nat.le_of_not_lt hlt), X.stop_kind]

end Along

/-! ### Rules that are read again -/

/-- Where the first rule succeeds without diagnostics, and leaves `j` tokens of the part or more,
the second rule succeeds along with it. -/
structure Replays (X : Excerpt) (j : Nat) (x x' : Rule α) : Prop where
  moves : Moves x
  step : ∀ {s s' a u}, X.Along s s' → x s = .ok a u → u.diagnostics = [] →
    X.rest.length + j ≤ u.ahead.length → ∃ u', x' s' = .ok a u' ∧ X.Along u u'

namespace Replays

variable {j : Nat} {x x' : Rule α} {f f' : α → Rule β}

/-- A rule that may end on the last token may end before it. -/
theorem strict (h : X.Replays 0 x x') : X.Replays j x x' where
  moves := h.moves
  step hs hx hclean hle := h.step hs hx hclean (by omega)

theorem pure (a : α) : X.Replays j (pure a : Rule α) (Pure.pure a) where
  moves := .pure a
  step {s s' b u} hs hx _ _ := by
    obtain ⟨rfl, rfl⟩ := pure_ok.1 hx
    exact ⟨s', rfl, hs⟩

theorem bind (hx : X.Replays j x x') (hf : ∀ a, X.Replays j (f a) (f' a)) :
    X.Replays j (x >>= f) (x' >>= f') where
  moves := .bind hx.moves fun a => (hf a).moves
  step {s s' b u} hs hr hclean hle := by
    obtain ⟨a, t, hr, hrest⟩ := bind_ok.1 hr
    have hlead := (hf a).moves.ok hrest
    obtain ⟨t', hr', ht⟩ :=
      hx.step hs hr (hlead.clean hclean) (Nat.le_trans hle hlead.length_ahead_le)
    rw [bind_of_ok hr']
    exact (hf a).step ht hrest hclean hle

theorem ite {c : Prop} [Decidable c] {y y' : Rule α} (hx : X.Replays j x x')
    (hy : X.Replays j y y') : X.Replays j (if c then x else y) (if c then x' else y') := by
  split
  · exact hx
  · exact hy

theorem current : X.Replays j current current where
  moves := .current
  step {s s' a u} hs hx _ _ := by
    obtain ⟨rfl, rfl⟩ := pure_ok.1 hx
    exact ⟨s', congrArg (EStateM.Result.ok · s') hs.current, hs⟩

theorem spanFrom (n : Nat) : X.Replays j (spanFrom n) (Parser.spanFrom n) :=
  .bind .current fun _ => .pure _

theorem identifier : X.Replays j identifier identifier :=
  .bind .current fun _ => .pure _

/-- What reports something is not read again. -/
theorem report (span : Span) (p : Problem) (y : Rule Unit) :
    X.Replays j (report span p) y where
  moves := .report span p
  step {s s' a u} _ hx hclean _ := by
    obtain ⟨-, rfl⟩ := EStateM.Result.ok.inj hx
    exact absurd hclean (List.append_ne_nil_of_right_ne_nil _ (List.cons_ne_nil _ _))

theorem fail (span : Span) (p : Problem) (y : Rule α) : X.Replays j (fail span p) y where
  moves := .fail span p
  step _ hx _ _ := absurd hx fail_ok

theorem advance : X.Replays j advance advance where
  moves := .advance
  step {s s' a u} hs hx _ hle := by
    obtain rfl := advance_ok.1 hx
    have hlt := lt_of_le_advance hle
    exact ⟨s'.advance, rfl, (hs.next (by omega)).2⟩

theorem expect (k : TokenKind) (place : Place) :
    X.Replays j (expect k place) (Parser.expect k place) where
  moves := .expect k place
  step {s s' a u} hs hx _ hle := by
    obtain ⟨hk, rfl⟩ := expect_ok.1 hx
    have hlt := lt_of_le_advance hle
    obtain ⟨hpeek, hadvance⟩ := hs.next (by omega)
    exact ⟨s'.advance, expect_of_peek (by rw [hpeek, hk]), hadvance⟩

/-- A choice by the next token, over which the reading moves if it is as asked for. -/
theorem next {C : TokenKind → Prop} [DecidablePred C] (hC : ¬C .semicolon) {y y' : Rule α}
    (hx : X.Replays j x x') (hy : X.Replays j y y') :
    X.Replays j
      (get >>= fun s => if C s.peek.kind then Parser.advance >>= fun _ => x else y)
      (get >>= fun s => if C s.peek.kind then Parser.advance >>= fun _ => x' else y') where
  moves := .bind .get fun _ => .ite (.bind .advance fun _ => hx.moves) hy.moves
  step {s s' a u} hs hr hclean hle := by
    rw [get_bind] at hr ⊢
    split at hr
    next hk =>
      rw [advance_bind] at hr
      have hlt := lt_of_le_advance (Nat.le_trans hle (hx.moves.ok hr).length_ahead_le)
      obtain ⟨hpeek, hadvance⟩ := hs.next (by omega)
      rw [if_pos (by rwa [hpeek]), advance_bind]
      exact hx.step hadvance hr hclean hle
    next hk =>
      rw [if_neg (hs.not_peek hC hk)]
      exact hy.step hs hr hclean hle

theorem ifNext {k : TokenKind} (hk : k ≠ .semicolon) {y y' : Rule α} (hx : X.Replays j x x')
    (hy : X.Replays j y y') :
    X.Replays j
      (peekIs k >>= fun b => if b then Parser.advance >>= fun _ => x else y)
      (peekIs k >>= fun b => if b then Parser.advance >>= fun _ => x' else y') := by
  rw [peekIs_ite, peekIs_ite]
  exact next (C := (· = k)) hk.symm hx hy

/-- Before the last token every question about the next one has the same answer. -/
theorem peekIs (k : TokenKind) : X.Replays 1 (peekIs k) (Parser.peekIs k) where
  moves := .peekIs k
  step {s s' a u} hs hx _ hle := by
    obtain ⟨rfl, rfl⟩ := pure_ok.1 hx
    have hpeek := (hs.next hle).1
    exact ⟨s', congrArg (fun t : Token => EStateM.Result.ok (t.is k) s') hpeek, hs⟩

theorem skip (k : TokenKind) : X.Replays 1 (skip k) (Parser.skip k) :=
  .bind (.peekIs k) fun _ => .ite .advance (.pure ())

/-- A rule that has to end before the last token, and a token that must come then. -/
theorem bindExpect (hx : X.Replays 1 x x') (k : TokenKind) (place : Place)
    (hf : ∀ a, X.Replays 0 (f a) (f' a)) :
    X.Replays 0 (x >>= fun a => Parser.expect k place >>= fun _ => f a)
      (x' >>= fun a => Parser.expect k place >>= fun _ => f' a) where
  moves := .bind hx.moves fun a => .bind (.expect k place) fun _ => (hf a).moves
  step {s s' b u} hs hr hclean hle := by
    obtain ⟨a, t, hr, hrest⟩ := bind_ok.1 hr
    have hbehind : X.Replays 0 (Parser.expect k place >>= fun _ => f a)
        (Parser.expect k place >>= fun _ => f' a) := .bind (.expect k place) fun _ => hf a
    have hlead := hbehind.moves.ok hrest
    obtain ⟨_, v, hexpect, hv⟩ := bind_ok.1 hrest
    obtain ⟨-, rfl⟩ := expect_ok.1 hexpect
    have hlt := lt_of_le_advance (Nat.le_trans hle ((hf a).moves.ok hv).length_ahead_le)
    obtain ⟨t', hr', ht⟩ := hx.step hs hr (hlead.clean hclean) hlt
    rw [bind_of_ok hr']
    exact hbehind.step ht hrest hclean hle

/-- The readings have different numbers of rounds for a loop, but both numbers are enough. -/
theorem rounds {A : State → Prop} {body body' : (σ → Rule α) → σ → Rule α}
    {loop loop' : σ → Nat → Rule α} (hloop : Advances A body loop)
    (hloop' : Advances A body' loop') (hA : ∀ s : State, s.current.kind ≠ .eof → A s) (y : σ)
    (h : ∀ n, X.Replays j (loop y n) (loop' y n)) :
    X.Replays j (roundsLeft >>= loop y) (roundsLeft >>= loop' y) where
  moves := .bind .roundsLeft fun n => (h n).moves
  step {s s' a u} hs hr hclean hle := by
    rw [roundsLeft_bind] at hr ⊢
    have hs' : s'.current.kind ≠ .eof := by
      rw [hs.current]
      exact hs.current_ne_eof
    have hle₁ := Nat.le_max_left s.ahead.length s'.ahead.length
    have hle₂ := Nat.le_max_right s.ahead.length s'.ahead.length
    rw [← hloop.settles hs.ended (hA s hs.current_ne_eof) hle₁] at hr
    rw [← hloop'.settles hs.ended' (hA s' hs') hle₂]
    exact (h _).step hs hr hclean hle

theorem roundsThen {A : State → Prop} {body body' : (σ → Rule α) → σ → Rule α}
    {loop loop' : σ → Nat → Rule α} (hloop : Advances A body loop)
    (hloop' : Advances A body' loop') (hA : ∀ s : State, s.current.kind ≠ .eof → A s) (y : σ)
    (h : ∀ n, X.Replays j (loop y n) (loop' y n)) (hf : ∀ a, X.Replays j (f a) (f' a)) :
    X.Replays j (roundsLeft >>= fun n => loop y n >>= f)
      (roundsLeft >>= fun n => loop' y n >>= f') := by
  rw [← bind_assoc, ← bind_assoc]
  exact bind (rounds hloop hloop' hA y h) hf

end Replays

end Excerpt

open Excerpt

variable {X : Excerpt} {inner inner' : Rules}

/-- The rules are read again: statements before the last token, the others up to it. -/
structure Rules.Replay (X : Excerpt) (r r' : Rules) : Prop where
  statement : X.Replays 1 r.statement r'.statement
  expression : ∀ floor, X.Replays 0 (r.expression floor) (r'.expression floor)
  conditional : X.Replays 0 r.conditional r'.conditional

/-! ### Names and parameters -/

theorem moreParameters_replays : ∀ n, X.Replays 0 (moreParameters n) (moreParameters n)
  | 0 => .pure []
  | n + 1 => .ifNext (by decide)
      (.bind (.expect _ _) fun _ => .bind .identifier fun _ =>
        .bind (moreParameters_replays n) fun _ => .pure _)
      (.pure [])

theorem parameters_replays : X.Replays 0 parameters parameters :=
  .ifNext (by decide) (.pure [])
    (.bind (.expect _ _) fun _ => .bind .identifier fun _ =>
      .roundsThen moreParameters_advances moreParameters_advances (fun _ _ => trivial) ()
        moreParameters_replays fun _ => .bind (.expect _ _) fun _ => .pure _)

theorem functionName_replays : X.Replays 0 functionName functionName :=
  .ifNext (by decide) (.bind .identifier fun _ => .pure _) (.pure none)

section

variable (h : inner.Replay X inner') (hm : inner.Move) (hm' : inner'.Move)

/-! ### Blocks -/

include h hm in
/-- Behind a statement of a block there is at least the brace that closes the block. -/
theorem blockStatements_replays (n : Nat) :
    X.Replays 0 (blockStatements inner n) (blockStatements inner' n) where
  moves := blockStatements_moves hm n
  step {s s' ss u} hs hr hclean hle := by
    induction n generalizing s s' ss with
    | zero =>
      obtain ⟨rfl, rfl⟩ := pure_ok.1 hr
      exact ⟨s', rfl, hs⟩
    | succ n ih =>
      rw [blockStatements_ok] at hr
      simp only [blockStatements_ok, hs.current]
      split at hr
      next hend =>
        obtain ⟨rfl, rfl⟩ := hr
        exact ⟨s', by rw [if_pos hend]; exact ⟨rfl, rfl⟩, hs⟩
      next hend =>
        simp only [if_neg hend]
        split at hr
        next x t hx =>
          obtain ⟨xs, hr, rfl⟩ := hr
          have hlead := (blockStatements_moves hm n).ok hr
          have hlt := lt_of_le_advance (Nat.le_trans hle hlead.length_ahead_le)
          obtain ⟨t', hx', ht⟩ :=
            h.statement.step hs hx ((t.leads_advance.trans hlead).clean hclean) hlt
          obtain ⟨u', hr', hu⟩ := ih (ht.next hlt).2 hr
          refine ⟨u', ?_, hu⟩
          rw [hx']
          exact ⟨xs, hr', rfl⟩
        next e t hx =>
          -- a statement that failed would have been reported
          have hlead : t.synchronize.Leads u := by
            split at hr
            · rw [hr.2]
              exact .refl u
            · exact (State.leads_advance _).trans ((blockStatements_moves hm n).ok hr)
          have hfailed := (hm.statement.error hx).2
          exact absurd ((t.leads_synchronize.trans hlead).clean hclean) hfailed

include h hm hm' in
theorem block_replays : X.Replays 0 (block inner) (block inner') :=
  .bind .current fun _ => .bind .advance fun _ =>
    .roundsThen (blockStatements_advances hm) (blockStatements_advances hm') (fun _ _ => trivial) ()
      (blockStatements_replays h hm) fun _ => .bind .current fun _ =>
        .ite (.bind (.report _ _ _) fun _ => .bind (.spanFrom _) fun _ => .pure _)
          (.bind (.spanFrom _) fun _ => .pure _)

/-! ### Functions, lists and entries -/

include h hm hm' in
theorem function_replays : X.Replays 0 (function inner) (function inner') :=
  .bind .current fun _ => .bind functionName_replays fun _ => .bind (.expect _ _) fun _ =>
    .bind parameters_replays fun _ => .bind (.expect _ _) fun _ =>
      .bind (block_replays h hm hm') fun _ => .bind (.spanFrom _) fun _ => .pure _

include h in
/-- A list may stop at a comma because of the token behind it. -/
theorem moreExpressions_replays (close : TokenKind) :
    ∀ n, X.Replays 1 (moreExpressions inner close n) (moreExpressions inner' close n)
  | 0 => .pure []
  | n + 1 => .bind (.peekIs _) fun _ => .ite
      (.bind .advance fun _ => .bind (.peekIs _) fun _ => .ite (.pure [])
        (.bind .advance fun _ => .bind (h.expression _).strict fun _ =>
          .bind (moreExpressions_replays close n) fun _ => .pure _))
      (.pure [])

include h hm hm' in
theorem expressions_replays {close : TokenKind} (hclose : close ≠ .semicolon) :
    X.Replays 0 (expressions inner close) (expressions inner' close) := by
  refine .ifNext hclose (.pure []) (.bind .advance fun _ => .bind (h.expression _) fun _ => ?_)
  rw [← bind_assoc, ← bind_assoc]
  have hadvances := moreExpressions_advances hm close
  have hadvances' := moreExpressions_advances hm' close
  exact .bindExpect
    (.rounds hadvances hadvances' (fun _ _ => trivial) () (moreExpressions_replays h close)) _ _
    fun _ => .pure _

include h in
theorem propertyValue_replays : X.Replays 0 (propertyValue inner) (propertyValue inner') :=
  .ifNext (by decide) (.bind .advance fun _ => .bind (h.expression _) fun _ => .pure _) (.pure none)

include h in
theorem properties_replays : ∀ n, X.Replays 0 (properties inner n) (properties inner' n)
  | 0 => .pure []
  | n + 1 => .ifNext (by decide) (.pure [])
      (.bind (.expect _ _) fun _ => .bind .identifier fun _ =>
        .bind (propertyValue_replays h) fun _ => .bind (.spanFrom _) fun _ =>
          .ifNext (by decide) (.bind (properties_replays n) fun _ => .pure _)
            (.bind (.expect _ _) fun _ => .pure _))

/-! ### What starts an expression -/

include h hm hm' in
theorem alternative_replays : X.Replays 0 (alternative inner) (alternative inner') :=
  .ifNext (by decide)
    (.ifNext (by decide) (.bind h.conditional fun _ => .pure _)
      (.bind (.expect _ _) fun _ => .bind (block_replays h hm hm') fun _ => .pure _))
    (.pure none)

include h hm hm' in
theorem conditional_replays : X.Replays 0 (conditional inner) (conditional inner') :=
  .bind .current fun _ => .bind (.expect _ _) fun _ => .bind .advance fun _ =>
    .bind (h.expression _) fun _ => .bind (.expect _ _) fun _ => .bind (.expect _ _) fun _ =>
      .bind (block_replays h hm hm') fun _ => .bind (alternative_replays h hm hm') fun _ =>
        .bind (.spanFrom _) fun _ => .pure _

theorem integer_replays : X.Replays 0 integer integer :=
  .bind .current fun _ => .ite (.pure _) (.fail _ _ _)

theorem string_replays : X.Replays 0 string string :=
  .bind .current fun _ => .ite (.bind (.report _ _ _) fun _ => .pure _) (.pure _)

include h in
theorem unary_replays (op : UnaryOp) : X.Replays 0 (unary inner op) (unary inner' op) :=
  .bind .current fun _ => .bind .advance fun _ => .bind (h.expression _) fun _ =>
    .bind (.spanFrom _) fun _ => .pure _

include h in
theorem group_replays : X.Replays 0 (group inner) (group inner') :=
  .bind .current fun _ => .bind .advance fun _ => .bind (h.expression _) fun _ =>
    .bind (.expect _ _) fun _ => .bind (.spanFrom _) fun _ => .pure _

include h hm hm' in
theorem object_replays : X.Replays 0 (object inner) (object inner') :=
  .bind .current fun _ =>
    .roundsThen (properties_advances hm) (properties_advances hm') (fun _ hc => hc) ()
      (properties_replays h) fun _ => .bind (.spanFrom _) fun _ => .pure _

include h hm hm' in
theorem array_replays : X.Replays 0 (array inner) (array inner') :=
  .bind .current fun _ => .bind (expressions_replays h hm hm' (by decide)) fun _ =>
    .bind (.spanFrom _) fun _ => .pure _

include h hm hm' in
theorem operand_replays : X.Replays 0 (operand inner) (operand inner') := by
  refine .bind .current fun a => ?_
  cases a.kind with
  | ident | trueKw | falseKw => exact .pure _
  | int => exact integer_replays
  | string => exact string_replays
  | bang | minus => exact unary_replays h _
  | lparen => exact group_replays h
  | lbrace => exact object_replays h hm hm'
  | lbracket => exact array_replays h hm hm'
  | ifKw => exact conditional_replays h hm hm'
  | functionKw => exact .bind (function_replays h hm hm') fun _ => .pure _
  | _ => exact .fail _ _ _

/-! ### What goes on behind an expression -/

include h hm hm' in
theorem operation_replays (left : Expr Unit) :
    X.Replays 0 (operation inner left) (operation inner' left) := by
  refine .bind .current fun a => ?_
  cases a.kind with
  | lparen =>
    exact .bind (expressions_replays h hm hm' (by decide)) fun _ => .bind (.spanFrom _) fun _ =>
      .pure _
  | lbracket =>
    exact .bind .advance fun _ => .bind (h.expression _) fun _ => .bind (.expect _ _) fun _ =>
      .bind (.spanFrom _) fun _ => .pure _
  | assign | plus | minus | asterisk | slash | lt | lte | gt | gte | eq | notEq =>
    exact .bind .advance fun _ => .bind (h.expression _) fun _ => .bind (.spanFrom _) fun _ =>
      .pure _
  | _ => exact .pure _

include h hm hm' in
theorem operations_replays (floor : Precedence) : ∀ n left,
    X.Replays 0 (operations inner floor n left) (operations inner' floor n left)
  | 0, _ => .pure _
  | n + 1, left => .next (C := fun k => floor < .of k) (Nat.not_lt_zero _)
      (.bind (operation_replays h hm hm' left) fun x => operations_replays floor n x) (.pure _)

include h hm hm' in
theorem expression_replays (floor : Precedence) :
    X.Replays 0 (expression inner floor) (expression inner' floor) :=
  .bind (operand_replays h hm hm') fun x =>
    .rounds (operations_advances hm floor) (operations_advances hm' floor) (fun _ _ => trivial) x
      fun n => operations_replays h hm hm' floor n x

/-! ### Statements -/

include h in
theorem declaration_replays : X.Replays 1 (declaration inner) (declaration inner') := by
  have hspan (n : Nat) (c : Bool) (x : Ident) (v : Option (Expr Unit)) : X.Replays 1
      (do return .declare (← spanFrom n) c x v : Rule (Stmt Unit))
      (do return .declare (← spanFrom n) c x v) := .bind (.spanFrom n) fun _ => .pure _
  refine .bind .current fun _ => .bind (.expect _ _) fun _ => .bind .identifier fun _ =>
    .bind (.peekIs _) fun _ => .ite (.bind .advance fun _ => .ite ?_ (hspan _ _ _ _)) ?_
  · exact .bind .current fun _ => .bind (.report _ _ _) fun _ => hspan _ _ _ _
  · exact .bind (.expect _ _) fun _ => .bind .advance fun _ =>
      .bind (h.expression _).strict fun _ => .bind (.expect _ _) fun _ => hspan _ _ _ _

include h in
theorem returnStatement_replays : X.Replays 1 (returnStatement inner) (returnStatement inner') :=
  .bind .current fun _ => .bind .advance fun _ => .bind .current fun _ => .ite (.fail _ _ _)
    (.bind (h.expression _).strict fun _ => .bind (.skip _) fun _ => .bind (.spanFrom _) fun _ =>
      .pure _)

include h hm hm' in
theorem functionStatement_replays (name : Ident) :
    X.Replays 1 (functionStatement inner name) (functionStatement inner' name) :=
  .bind .current fun _ => .bind (function_replays h hm hm').strict fun _ => .bind (.skip _) fun _ =>
    .bind (.spanFrom _) fun _ => .pure _

include h in
theorem expressionStatement_replays :
    X.Replays 1 (expressionStatement inner) (expressionStatement inner') :=
  .bind .current fun _ => .bind (h.expression _).strict fun _ => .bind (.skip _) fun _ =>
    .bind (.spanFrom _) fun _ => .pure _

include h hm hm' in
theorem statement_replays : X.Replays 1 (statement inner) (statement inner') where
  moves := statement_moves hm
  step {s s' x u} hs hx hclean hle := by
    have hlt := Nat.le_trans hle ((statement_moves hm).ok hx).length_ahead_le
    have hpeek := (hs.next hlt).1
    rw [statement_run] at hx ⊢
    rw [hs.current, hpeek]
    cases hk : s.current.kind with
    | letKw | constKw =>
      rw [hk] at hx
      exact (declaration_replays h).step hs hx hclean hle
    | returnKw =>
      rw [hk] at hx
      exact (returnStatement_replays h).step hs hx hclean hle
    | functionKw =>
      rw [hk] at hx
      dsimp only at hx ⊢
      split at hx
      next hname =>
        rw [if_pos hname]
        exact (functionStatement_replays h hm hm' _).step hs hx hclean hle
      next hname =>
        rw [if_neg hname]
        exact (expressionStatement_replays h).step hs hx hclean hle
    | _ =>
      rw [hk] at hx
      exact (expressionStatement_replays h).step hs hx hclean hle

end

theorem refuse_replays (x : Rule α) (j : Nat) : X.Replays j (refuse : Rule α) x where
  moves := refuse_moves
  step _ hx _ _ := absurd hx fail_ok

/-- **Every rule is read again,** by the same rule where at least as many levels are left. -/
theorem level_replays (X : Excerpt) {n m : Nat} (hle : n ≤ m) : (level n).Replay X (level m) := by
  induction n generalizing m with
  | zero => exact ⟨refuse_replays _ _, fun _ => refuse_replays _ _, refuse_replays _ _⟩
  | succ n ih =>
    obtain ⟨m, rfl⟩ := Nat.exists_eq_add_one_of_ne_zero (Nat.ne_zero_of_lt hle)
    have h := ih (Nat.le_of_succ_le_succ hle)
    have hm := level_moves n
    have hm' := level_moves m
    exact ⟨statement_replays h hm hm', expression_replays h hm hm', conditional_replays h hm hm'⟩

end Primer.Parser
