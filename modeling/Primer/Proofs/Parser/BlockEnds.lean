/-
  Primer/Proofs/Parser/BlockEnds.lean
  ===================================
  **Where blocks end.**

  A reading that goes on behind a failed statement does not count braces: the next closing brace
  ends the block, whether it closes the block or something that the failed statement had opened.  So
  a block can end too early, and what is left of it is read as part of what stands around it.

  Every rule keeps count of the braces (`level_counts`).  For a block this says what stands between
  its braces (`Between`): statements, with the blocks in them, and skipped tokens.  In a source with
  balanced braces it follows that no block ends behind its own closing brace, and that a block ends
  there if and only if no failed statement in it has left a brace open.
-/
import Primer.Proofs.Parser.Braces

namespace Primer

namespace Parser

variable {source : String} {b : List Token} {o : Nat} {bs : List (Block Unit)}
  {s t u : State} {inner : Rules}

open State (Before Behind At Reached)

/-! ### Names, parameters and literals -/

theorem moreParameters_counts :
    ∀ n, Counts source b (Behind source b o bs) (moreParameters n) fun _ => Behind source b o bs
  | 0 => .pure fun _ hs => hs
  | n + 1 => by
    refine .ifNext ?_ (.pure fun _ hs => hs)
    refine .bind ((Counts.expect rfl).pre fun _ hs => hs.behind rfl) fun _ => ?_
    refine .identifier fun x => .bind (moreParameters_counts n) fun xs => ?_
    exact .pure fun _ hs => hs

theorem parameters_counts :
    Counts source b (Behind source b o bs) parameters fun _ => Behind source b o bs := by
  refine .ifNext (.pure fun _ hs => hs.behind rfl) ?_
  refine .bind (.expect rfl) fun _ => .identifier fun x => ?_
  refine .roundsLeft fun n => .bind ((moreParameters_counts n).pre fun _ hs => hs.1) fun xs => ?_
  exact .bind (.expect rfl) fun _ => .pure fun _ hs => hs

theorem functionName_counts :
    Counts source b (Behind source b o bs) functionName fun _ => Behind source b o bs := by
  refine .ifNext ?_ (.pure fun _ hs => hs)
  exact .identifier fun x => .pure fun _ hs => hs.behind rfl

/-- A token that is no brace, and all that there is to the expression. -/
theorem done_atom {k : TokenKind} (hk : k.braces = 0) {e : Expr Unit} (he : e.blocks = []) :
    Counts source b (At source b o bs k) (pure e) fun e => Behind source b o (bs ++ e.blocks) :=
  (Counts.done (by rw [he, List.append_nil])).pre fun _ hs => hs.behind hk

theorem integer_counts : Counts source b (Behind source b o bs) integer fun e =>
    Behind source b o (bs ++ e.blocks) := by
  refine .current fun t => .ite ?_ (.fail fun _ hs => hs.1.reached)
  exact (Counts.done (List.append_nil bs).symm).pre fun _ hs => hs.1

theorem string_counts : Counts source b (Behind source b o bs) string fun e =>
    Behind source b o (bs ++ e.blocks) := by
  have hdone (t : Token) : Counts source b (Behind source b o bs)
      (pure (.str t.span t.literal) : Rule (Expr Unit)) fun e =>
        Behind source b o (bs ++ e.blocks) :=
    .done (List.append_nil bs).symm
  refine .current fun t => .ite ?_ ((hdone t).pre fun _ hs => hs.1)
  exact .bind ((Counts.report _ _).pre fun _ hs => hs.1) fun _ => hdone t

/-! ### Rules that read expressions -/

section

variable (h : inner.Count source)
include h

theorem moreExpressions_counts (close : TokenKind) : ∀ n bs,
    Counts source b (Behind source b o bs) (moreExpressions inner close n) fun es =>
      Behind source b o (bs ++ blocksExprs es)
  | 0, bs => .done (by rw [blocksExprs, List.append_nil])
  | n + 1, bs => by
    refine .ifNext ?_ (.done (by rw [blocksExprs, List.append_nil]))
    refine .peekIs fun is => .ite ?_ ?_
    · exact (Counts.done (by rw [blocksExprs, List.append_nil])).pre fun _ hs => hs.behind rfl
    · refine .bind (Counts.advance.pre fun _ hs => hs.behind rfl) fun _ => ?_
      refine .bind (h.expression _ _ _ _) fun e => ?_
      refine .bind (moreExpressions_counts close n _) fun es => ?_
      exact .done (by rw [blocksExprs, List.append_assoc])

theorem expressions_counts {close : TokenKind} (hclose : close.braces = 0) :
    Counts source b (Behind source b o bs) (expressions inner close) fun es =>
      Behind source b o (bs ++ blocksExprs es) := by
  refine .ifNext ?_ ?_
  · exact (Counts.done (by rw [blocksExprs, List.append_nil])).pre fun _ hs => hs.behind hclose
  · refine .bind .advance fun _ => .bind (h.expression _ _ _ _) fun e => .roundsLeft fun n => ?_
    refine .bind ((moreExpressions_counts h close n _).pre fun _ hs => hs.1) fun es => ?_
    exact .bind (.expect hclose) fun _ => .done (by rw [blocksExprs, List.append_assoc])

theorem propertyValue_counts : Counts source b (Behind source b o bs) (propertyValue inner) fun v =>
    Behind source b o (bs ++ blocksExprs v.toList) := by
  refine .ifNext ?_ (.done (List.append_nil bs).symm)
  refine .bind (Counts.advance.pre fun _ hs => hs.behind rfl) fun _ => ?_
  refine .bind (h.expression _ _ _ _) fun e => .done ?_
  simp [blocksExprs]

/-- The closing brace is part of the rule, the opening one stands before it.  The rounds do not run
out before it is there. -/
theorem properties_counts (hm : inner.Move) : ∀ n bs,
    Counts source b (fun s => s.Behind source b (o + 1) bs ∧ s.ahead.length ≤ n ∧
        s.current.kind ≠ .eof) (properties inner n) fun ps =>
      Behind source b o (bs ++ blocksProperties ps)
  | 0, bs => by
    rintro s ⟨hs, hlength, hne⟩
    have hahead := List.eq_nil_of_length_eq_zero (Nat.le_zero.1 hlength)
    exact absurd hahead (State.ahead_ne_nil hs.on.ended hne)
  | n + 1, bs => by
    -- the rest gets no longer on the way, so the rounds still suffice for it
    have hkeep : ∀ s t : State, s.Leads t → s.ahead.length ≤ n + 1 → t.ahead.length ≤ n + 1 :=
      fun s t hl hs => Nat.le_trans hl.length_ahead_le hs
    have hclose {cs : List (Block Unit)} {ps : List (Property (Option (Expr Unit)))}
        (heq : cs = bs ++ blocksProperties ps) :
        Counts source b (At source b (o + 1) cs .rbrace) (pure ps) fun ps =>
          Behind source b o (bs ++ blocksProperties ps) :=
      (Counts.done heq).pre fun s hs => hs.1.behind_rbrace hs.2
    refine .branch (I := At source b (o + 1) bs .rbrace) (hclose (List.append_nil bs).symm) ?_
      fun s hs hk => ⟨hs.1.advance, by rw [s.advance_current, hk]⟩
    refine .bind (((Counts.expect rfl).frame (.expect .ident _) hkeep).pre
      fun s hs => ⟨hs.1, hs.2.1⟩) fun _ => .identifier fun key => ?_
    refine .bind ((propertyValue_counts h).frame (propertyValue_moves hm) hkeep) fun v => ?_
    refine .spanFrom fun stop => ?_
    refine .branch
      (.bind (properties_counts hm n (bs ++ blocksExprs v.toList)) fun ps => .done ?_) ?_
      fun s hs hk => ?_
    · rw [blocksProperties_cons, List.append_assoc]
    · refine .bind (Counts.arrive.pre fun s hs => hs.1) fun _ => hclose ?_
      rw [blocksProperties_cons, blocksProperties, List.append_nil]
    · have hcomma : s.advance.current.kind = .comma := by rw [s.advance_current, hk]
      have hlength := s.length_advance
      exact ⟨hs.1.advance.behind (by rw [hcomma]; rfl), by omega, by rw [hcomma]; decide⟩

theorem unary_counts (op : UnaryOp) :
    Counts source b (Behind source b o bs) (unary inner op) fun e =>
      Behind source b o (bs ++ e.blocks) := by
  refine .current fun t => .bind (Counts.advance.pre fun _ hs => hs.1) fun _ => ?_
  refine .bind (h.expression _ _ _ _) fun e => .spanFrom fun stop => .done rfl

theorem group_counts : Counts source b (Behind source b o bs) (group inner) fun e =>
    Behind source b o (bs ++ e.blocks) := by
  refine .current fun t => .bind (Counts.advance.pre fun _ hs => hs.1) fun _ => ?_
  refine .bind (h.expression _ _ _ _) fun e => .bind (.expect rfl) fun _ => ?_
  exact .spanFrom fun stop => .done (by rw [Expr.blocks_withSpan])

theorem object_counts (hm : inner.Move) :
    Counts source b (At source b o bs .lbrace) (object inner) fun e =>
      Behind source b o (bs ++ e.blocks) := by
  refine .current fun t => .roundsLeft fun n => ?_
  refine .bind ((properties_counts (o := o) h hm n bs).pre fun s hs => ?_) fun ps => ?_
  · obtain ⟨⟨hs, -⟩, hlength⟩ := hs
    exact ⟨hs.1.behind_lbrace hs.2, hlength, by rw [hs.2]; decide⟩
  · exact .spanFrom fun stop => .done rfl

theorem array_counts : Counts source b (Behind source b o bs) (array inner) fun e =>
    Behind source b o (bs ++ e.blocks) := by
  refine .current fun t => .bind ((expressions_counts h rfl).pre fun _ hs => hs.1) fun es => ?_
  exact .spanFrom fun stop => .done rfl

/-- What stands behind an operator, with `left` before it. -/
theorem right_counts (floor : Precedence) (left : Expr Unit)
    {node : Span → Expr Unit → Expr Unit}
    (hnode : ∀ span e, (node span e).blocks = left.blocks ++ e.blocks) {start : Nat} :
    Counts source b (Behind source b o (bs ++ left.blocks))
      (do
        advance
        let e ← inner.expression floor
        return node (← spanFrom start) e : Rule (Expr Unit)) fun e =>
      Behind source b o (bs ++ e.blocks) := by
  refine .bind .advance fun _ => .bind (h.expression _ _ _ _) fun e => .spanFrom fun stop => ?_
  exact .done (by rw [hnode, List.append_assoc])

theorem operation_counts (left : Expr Unit) :
    Counts source b (Behind source b o (bs ++ left.blocks)) (operation inner left) fun e =>
      Behind source b o (bs ++ e.blocks) := by
  refine .current fun t => Counts.pre ?_ fun _ hs => hs.1
  cases t.kind with
  | lparen =>
    refine .bind (expressions_counts h rfl) fun args => .spanFrom fun stop => .done ?_
    rw [Expr.blocks, List.append_assoc]
  | lbracket =>
    refine .bind .advance fun _ => .bind (h.expression _ _ _ _) fun key => ?_
    refine .bind (.expect rfl) fun _ => .spanFrom fun stop => .done ?_
    rw [Expr.blocks, List.append_assoc]
  | assign => exact right_counts h _ left fun span e => by rw [Expr.blocks]
  | plus | minus | asterisk | slash | lt | lte | gt | gte | eq | notEq =>
    exact right_counts h _ left fun span e => by rw [Expr.blocks]
  | _ => exact .done rfl

theorem operations_counts (floor : Precedence) : ∀ n left,
    Counts source b (Behind source b o (bs ++ left.blocks)) (operations inner floor n left) fun e =>
      Behind source b o (bs ++ e.blocks)
  | 0, _ => .done rfl
  | n + 1, left => by
    refine .next (C := fun k => floor < .of k) ?_ (.done rfl)
    refine .bind ((operation_counts h left).pre fun s hs => hs.1.behind ?_) fun e =>
      operations_counts floor n e
    -- a brace binds no tighter than anything
    cases hk : s.current.kind with
    | lbrace | rbrace =>
      have hlt := hs.2
      rw [hk] at hlt
      exact absurd hlt (Nat.not_lt_zero _)
    | _ => rfl

theorem declaration_counts : Counts source b (Behind source b o bs) (declaration inner) fun x =>
    Behind source b o (bs ++ x.blocks) := by
  refine .current fun first => ?_
  refine .bind ((Counts.expect rfl).pre fun _ hs => hs.1) fun _ => .identifier fun name => ?_
  refine .ifNext ?_ ?_
  · have hdone : Counts source b (Behind source b o bs)
        (do return .declare (← spanFrom first.span.start) (first.is .constKw) name none :
          Rule (Stmt Unit)) fun x => Behind source b o (bs ++ x.blocks) :=
      .spanFrom fun stop => .done (List.append_nil bs).symm
    refine .ite ?_ (hdone.pre fun _ hs => hs.behind rfl)
    refine .current fun t => .bind ((Counts.report _ _).pre fun _ hs => hs.1.behind rfl) fun _ => ?_
    exact hdone
  · refine .bind (.expect rfl) fun _ => .bind .advance fun _ => ?_
    refine .bind (h.expression _ _ _ _) fun value => .bind (.expect rfl) fun _ => ?_
    exact .spanFrom fun stop => .done rfl

theorem returnStatement_counts :
    Counts source b (Behind source b o bs) (returnStatement inner) fun x =>
      Behind source b o (bs ++ x.blocks) := by
  refine .current fun first => .bind (Counts.advance.pre fun _ hs => hs.1) fun _ => ?_
  refine .current fun t => .ite (.fail fun _ hs => hs.1.reached) ?_
  refine .bind ((h.expression _ _ _ _).pre fun _ hs => hs.1) fun value => ?_
  exact .bind (.skip rfl) fun _ => .spanFrom fun stop => .done rfl

theorem expressionStatement_counts :
    Counts source b (Before source b o bs) (expressionStatement inner) fun x =>
      Behind source b o (bs ++ x.blocks) := by
  refine .current fun first => .bind ((h.expression _ _ _ _).pre fun _ hs => hs.1) fun value => ?_
  exact .bind (.skip rfl) fun _ => .spanFrom fun stop => .done rfl

end

/-! ### Blocks -/

theorem Ended.ne_eof {ts us : List Token} (h : Ended (ts ++ us)) (hu : us ≠ []) :
    ∀ t ∈ ts, t.kind ≠ .eof := by
  induction ts with
  | nil => exact nofun
  | cons a ts ih =>
    cases hts : ts ++ us with
    | nil => exact absurd (List.append_eq_nil_iff.1 hts).2 hu
    | cons c l =>
      rw [List.cons_append, hts] at h
      rw [hts] at ih
      exact List.forall_mem_cons.2 ⟨h.1, ih h.2⟩

/-- The tokens between two others are those that start behind the one and end before the other. -/
theorem filter_between {before inside after : List Token} {first last : Token}
    (htokens : lex source = before ++ first :: (inside ++ last :: after))
    (hfirst : first.kind ≠ .eof) (hlast : last.kind ≠ .eof) :
    (lex source).filter (fun t =>
      decide (first.span.start < t.span.start ∧ t.span.stop < last.span.stop)) = inside := by
  have hle := (lex_tiling source).start_le_stop
  have hlt := (lex_tiling source).start_lt_stop
  have hordered := (lex_tiling source).ordered
  rw [htokens] at hle hlt hordered ⊢
  obtain ⟨-, hrest, hbefore⟩ := List.pairwise_append.1 hordered
  obtain ⟨hbehind, hrest⟩ := List.pairwise_cons.1 hrest
  obtain ⟨-, hrest, hinside⟩ := List.pairwise_append.1 hrest
  obtain ⟨hafter, -⟩ := List.pairwise_cons.1 hrest
  have hfirst := hlt first (by simp) hfirst
  have hlast := hlt last (by simp) hlast
  have hnot {ts : List Token} (hts : ∀ t ∈ ts, ¬(first.span.start < t.span.start ∧
      t.span.stop < last.span.stop)) :
      ts.filter (fun t => decide (first.span.start < t.span.start ∧
        t.span.stop < last.span.stop)) = [] :=
    List.filter_eq_nil_iff.2 fun t ht => by simpa using hts t ht
  have hall : inside.filter (fun t => decide (first.span.start < t.span.start ∧
      t.span.stop < last.span.stop)) = inside := by
    refine List.filter_eq_self.2 fun t ht => decide_eq_true ?_
    have hstart := hbehind t (List.mem_append_left _ ht)
    have hstop := hinside t ht last List.mem_cons_self
    omega
  rw [List.filter_append, List.filter_cons_of_neg (by simp), List.filter_append, hall,
    List.filter_cons_of_neg (by simp), hnot, hnot, List.nil_append, List.append_nil]
  · intro t ht
    have hstart := hafter t ht
    have hstop := hle t (by simp [ht])
    omega
  · intro t ht
    have hstart := hbefore t ht first List.mem_cons_self
    have hstop := hle t (by simp [ht])
    omega

/-- What was read and skipped of a block on the way from `s` to `u`: the tokens `us`, among them
those of the statements `ss`. -/
structure Between (source : String) (s u : State) (ss : List (Stmt Unit)) (us : List Token) :
    Prop where
  tokens : s.tokens = us ++ u.tokens
  nest : BracesNest us
  left : openBraces us =
    openBraces (us.filter (·.isOutside ss)) + leftOpen (lex source) (blocksStmts ss)
  nonneg : 0 ≤ openBraces (us.filter (·.isOutside ss))
  placed : ∀ c ∈ blocksStmts ss, c.Placed source

namespace Between

variable {ss : List (Stmt Unit)} {us : List Token}

/-- A token in front of another ends before it starts, and is not the end of the source. -/
theorem passed (hs : s.On source) (htokens : s.tokens = us ++ t.tokens) :
    ∀ w ∈ us, w.span.start < w.span.stop ∧ w.span.stop ≤ t.current.span.start := by
  intro w hw
  have hordered := (lex_tiling source).ordered.sublist hs.sublist
  have hended : Parser.Ended s.tokens := hs.ended
  have hmem : w ∈ s.tokens := by
    rw [htokens]
    exact List.mem_append_left _ hw
  rw [htokens] at hordered hended
  have hne := hended.ne_eof (List.cons_ne_nil _ _) w hw
  exact ⟨(lex_tiling source).start_lt_stop w (List.IsSuffix.mem hmem hs) hne,
    (List.pairwise_append.1 hordered).2.2 w hw _ List.mem_cons_self⟩

theorem start_le (hs : s.On source) (htokens : s.tokens = us ++ t.tokens) :
    ∀ w ∈ us, s.current.span.start ≤ w.span.start := by
  intro w hw
  have hmem : w ∈ s.tokens := by
    rw [htokens]
    exact List.mem_append_left _ hw
  rcases List.mem_cons.1 hmem with rfl | hmem
  · exact Nat.le_refl _
  · exact Nat.le_trans hs.start_le_stop (hs.stop_le_of_mem hmem)

/-- The tokens of what was read from `s` to `t`. -/
theorem within (hs : s.On source) (hl : s.Leads t) (htokens : s.tokens = us ++ t.advance.tokens) :
    ∀ w ∈ us, s.current.span.start ≤ w.span.start ∧ w.span.stop ≤ t.current.span.stop := by
  intro w hw
  have ht := hs.leads hl
  refine ⟨start_le hs htokens w hw, ?_⟩
  -- either `t` is at the end, where `advance` stays, or its token is the last of `us`
  rcases State.tokens_advance ht.ended with ⟨-, hadvance⟩ | hadvance
  · rw [hadvance] at htokens
    exact Nat.le_trans (passed hs htokens w hw).2 ht.start_le_stop
  · obtain ⟨vs, hvs⟩ := hl.suffix
    have hus : us = vs ++ [t.current] := by
      rw [← hvs, hadvance, ← List.singleton_append, ← List.append_assoc] at htokens
      exact (List.append_cancel_right htokens).symm
    rw [hus, List.mem_append, List.mem_singleton] at hw
    rcases hw with hw | rfl
    · exact Nat.le_trans (passed hs hvs.symm w hw).2 ht.start_le_stop
    · exact Nat.le_refl _

/-- Tokens that are skipped in front of all statements. -/
theorem skip (hs : s.On source) (ht : t.Reached source s.tokens) (h : Between source t u ss us)
    {hi : Nat} (hrow : InRow t.current.span.start (ss.map Stmt.span) hi) :
    ∃ ws, Between source s u ss ws := by
  obtain ⟨vs, htokens, hnest⟩ := ht.passed
  have houtside : vs.filter (·.isOutside ss) = vs := by
    refine List.filter_eq_self.2 fun w hw => Token.isOutside_iff.2 fun x hx hle => ?_
    obtain ⟨hlt, hpassed⟩ := passed hs htokens w hw
    have hstart := (hrow.mem _ (List.mem_map_of_mem hx)).1
    omega
  have hvs := hnest.nonneg
  have hleft := h.left
  have hnonneg := h.nonneg
  refine ⟨vs ++ us, ?_, hnest.append h.nest, ?_, ?_, h.placed⟩
  · rw [htokens, h.tokens, List.append_assoc]
  · rw [openBraces_append, List.filter_append, houtside, openBraces_append]
    omega
  · rw [List.filter_append, houtside, openBraces_append]
    omega

/-- A statement, and what follows behind its last token. -/
theorem cons {x : Stmt Unit} {xs : List (Stmt Unit)} (hx : Spanned source s t x.span x.nodes)
    (ht : t.Behind source s.tokens 0 x.blocks) (h : Between source t.advance u xs us) :
    ∃ ws, Between source s u (x :: xs) ws := by
  obtain ⟨vs, htokens, hnest, hopen⟩ := ht.advance.passed
  have hinside : vs.filter (·.isOutside (x :: xs)) = [] := by
    refine List.filter_eq_nil_iff.2 fun w hw hout => ?_
    obtain ⟨hstart, hstop⟩ := within hx.on hx.leads htokens w hw
    have hlt := Token.isOutside_iff.1 hout x List.mem_cons_self
    rw [hx.span_eq] at hlt
    exact Nat.not_lt.2 hstop (hlt hstart)
  -- what comes behind `x` also ends behind it, and so cannot be part of it
  have hbehind : us.filter (·.isOutside (x :: xs)) = us.filter (·.isOutside xs) := by
    refine List.filter_congr fun w hw => ?_
    have hstop : x.span.stop < w.span.stop := by
      have hadvance := hx.on_end.stop_le_advance
      have hstart := start_le hx.on_end.advance h.tokens w hw
      have hlt := (passed hx.on_end.advance h.tokens w hw).1
      rw [hx.span_eq]
      show t.current.span.stop < w.span.stop
      omega
    rw [Bool.eq_iff_iff, Token.isOutside_iff, Token.isOutside_iff, List.forall_mem_cons]
    exact and_iff_right fun _ => hstop
  have hleft := h.left
  refine ⟨vs ++ us, ?_, hnest.append h.nest, ?_, ?_, ?_⟩
  · rw [htokens, h.tokens, List.append_assoc]
  · show openBraces (vs ++ us) = openBraces ((vs ++ us).filter (·.isOutside (x :: xs))) +
      leftOpen (lex source) (x.blocks ++ blocksStmts xs)
    rw [openBraces_append, List.filter_append, hinside, hbehind, List.nil_append, leftOpen_append]
    omega
  · rw [List.filter_append, hinside, hbehind, List.nil_append]
    exact h.nonneg
  · exact List.forall_mem_append.2 ⟨ht.placed, h.placed⟩

/-- Nothing but skipped tokens. -/
theorem of_reached (hu : u.Reached source s.tokens) : ∃ ws, Between source s u [] ws := by
  obtain ⟨ws, htokens, hnest⟩ := hu.passed
  have houtside : ws.filter (·.isOutside ([] : List (Stmt Unit))) = ws :=
    List.filter_eq_self.2 fun _ _ => rfl
  refine ⟨ws, htokens, hnest, ?_, ?_, nofun⟩
  · rw [houtside]
    exact (Int.add_zero _).symm
  · rw [houtside]
    exact hnest.nonneg

end Between

section

variable (h : inner.Count source) (hspan : inner.Span source) (hm : inner.Move)
include h hspan hm

theorem blockStatements_counts {n : Nat} {ss : List (Stmt Unit)} (hs : s.On source)
    (hr : blockStatements inner n s = .ok ss u) : ∃ us, Between source s u ss us := by
  induction n generalizing s ss with
  | zero =>
    obtain ⟨rfl, rfl⟩ := pure_ok.1 hr
    exact Between.of_reached (State.before_self hs).reached
  | succ n ih =>
    rw [blockStatements_ok] at hr
    split at hr
    next =>
      obtain ⟨rfl, rfl⟩ := hr
      exact Between.of_reached (State.before_self hs).reached
    next =>
      have hbefore := State.before_self hs
      split at hr
      next x t hx =>
        obtain ⟨xs, hr, rfl⟩ := hr
        have hspanned := hspan.statement hs hx
        obtain ⟨us, hus⟩ := ih hspanned.on_end.advance hr
        exact Between.cons hspanned ((h.statement _ _ _).ok hbefore hx) hus
      next e t hx =>
        have hreached := ((h.statement _ _ _).error hbefore hx).synchronize
        split at hr
        next =>
          -- the reading ends at this brace, and it may be another than that of the block
          obtain ⟨rfl, rfl⟩ := hr
          exact Between.of_reached hreached
        next hbrace =>
          have hadvance := hreached.advance hbrace
          obtain ⟨us, hus⟩ := ih hadvance.on hr
          have hrow := (blockStatements_spanned hspan hm hadvance.on (Nat.le_refl _) hr).1
          exact Between.skip hs hadvance hus hrow

variable (hbalance : BracesBalance (lex source))
include hbalance

/-- A block does not end at the end of the source, since its own brace would be open there. -/
theorem block_placed {ss : List (Stmt Unit)} (hs : s.On source) (hk : s.current.kind = .lbrace)
    (hr : blockStatements inner s.advance.ahead.length s.advance = .ok ss t) :
    t.current.kind = .rbrace ∧
      ∃ us, s.tokens = s.current :: (us ++ t.tokens) ∧ BracesNest us ∧
        openBraces us = leftOpen (lex source) (Block.blocks ⟨s.spanTo t, ss⟩) ∧
        ∀ c ∈ Block.blocks ⟨s.spanTo t, ss⟩, c.Placed source := by
  obtain ⟨us, hus⟩ := blockStatements_counts h hspan hm hs.advance hr
  have htokens : s.tokens = s.current :: (us ++ t.tokens) := by
    rcases State.tokens_advance hs.ended with ⟨heof, -⟩ | htokens
    · rw [hk] at heof
      cases heof
    · rw [htokens, hus.tokens]
  obtain ⟨before, hsuffix⟩ := id hs
  have hlex : lex source = before ++ s.current :: (us ++ t.current :: t.ahead) := by
    rw [← hsuffix, htokens]
    rfl
  have hus₀ := hus.nest.nonneg
  have hrbrace : t.current.kind = .rbrace := by
    -- at the end of the source the brace at `s` would still be open
    have hends := blockStatements_ends hm hs.advance.ended (Nat.le_refl _) hr
    refine hends.resolve_right fun heof => ?_
    have hended := (hs.advance.leads ((blockStatements_moves hm _).ok hr)).ended
    have hrest := (hlex ▸ hbalance).openBraces_neg hk
    rw [State.ahead_eq_nil hended heof] at hrest
    simp only [openBraces_append, openBraces_cons, openBraces_nil, heof, TokenKind.braces] at hrest
    omega
  have hskipped : Block.skipped (lex source) ⟨s.spanTo t, ss⟩ = us.filter (·.isOutside ss) := by
    have hbetween := filter_between hlex (by rw [hk]; decide) (by rw [hrbrace]; decide)
    rw [← hbetween, List.filter_filter]
    rfl
  have hblocks : Block.blocks ⟨s.spanTo t, ss⟩ = ⟨s.spanTo t, ss⟩ :: blocksStmts ss := by
    rw [Block.blocks]
  have hleft : openBraces us = leftOpen (lex source) (Block.blocks ⟨s.spanTo t, ss⟩) := by
    rw [hblocks, leftOpen_cons, hskipped, hus.left]
  have hnonneg : ∀ c ∈ Block.blocks ⟨s.spanTo t, ss⟩, 0 ≤ openBraces (c.skipped (lex source)) := by
    rw [hblocks, List.forall_mem_cons, hskipped]
    exact ⟨hus.nonneg, fun c hc => (hus.placed c hc).nonneg c c.self_mem_blocks⟩
  refine ⟨hrbrace, us, htokens, hus.nest, hleft, ?_⟩
  rw [hblocks, List.forall_mem_cons]
  exact ⟨⟨hnonneg, .inl ⟨before, s.current, us, t.current, t.ahead, hlex, hk, hrbrace, rfl,
    hus.nest, hleft⟩⟩, hus.placed⟩

theorem block_counts : Counts source b (At source b o bs .lbrace) (block inner) fun c =>
    Behind source b o (bs ++ c.blocks) := by
  rintro s ⟨hs, hk⟩
  obtain ⟨ss, t, hss⟩ := blockStatements_total inner s.advance.ahead.length s.advance
  obtain ⟨hrbrace, us, htokens, hnest, hopen, hplaced⟩ :=
    block_placed h hspan hm hbalance hs.on hk hss
  have hrun : block inner s = .ok ⟨s.spanTo t, ss⟩ t :=
    block_ok.2 ⟨ss, t, hss, if_pos hrbrace, rfl⟩
  rw [hrun]
  obtain ⟨vs, heq, hvs, hpassed⟩ := hs.passed
  refine ⟨hs.on.leads ((block_moves hm).ok hrun), ⟨vs ++ s.current :: us, ?_, ?_, ?_⟩, ?_⟩
  · rw [heq, htokens, List.append_assoc, List.cons_append]
  · have hbrace : BracesNest [s.current] := BracesNest.nil.concat (by rw [hk]; decide)
    exact hvs.append (hbrace.append hnest)
  · rw [openBraces_append, openBraces_cons, hk, hrbrace, leftOpen_append, hpassed, hopen]
    simp only [TokenKind.braces]
    omega
  · exact List.forall_mem_append.2 ⟨hs.placed, hplaced⟩

/-! ### Rules that read blocks -/

theorem function_counts : Counts source b (Behind source b o bs) (function inner) fun fn =>
    Behind source b o (bs ++ fn.blocks) := by
  refine .current fun t => .bind (functionName_counts.pre fun _ hs => hs.1) fun name => ?_
  refine .bind (.expect rfl) fun _ => .bind parameters_counts fun params => ?_
  refine .bind .arrive fun _ => .bind (block_counts h hspan hm hbalance) fun body => ?_
  exact .spanFrom fun stop => .done rfl

omit h hspan hm hbalance in
/-- An `if` behind `else` is a block of which no token is skipped. -/
theorem skipped_elseIf (e : Expr Unit) (ts : List Token) :
    Block.skipped ts ⟨e.span, [.expr e.span e]⟩ = [] := by
  refine List.filter_eq_nil_iff.2 fun t _ hskipped => ?_
  obtain ⟨hout, hin⟩ := Bool.and_eq_true_iff.1 hskipped
  have hin : e.span.start < t.span.start ∧ t.span.stop < e.span.stop := of_decide_eq_true hin
  have hstop := Token.isOutside_iff.1 hout _ (List.mem_singleton_self _) (Nat.le_of_lt hin.1)
  exact Nat.lt_asymm hin.2 hstop

omit h hspan hm hbalance in
theorem behind_elseIf {e : Expr Unit} (hs : s.Behind source b o (bs ++ e.blocks))
    (hif : ∃ t ∈ lex source, t.kind = .ifKw ∧ t.span.start = e.span.start) :
    s.Behind source b o (bs ++ Block.blocks ⟨e.span, [.expr e.span e]⟩) := by
  have hblocks : Block.blocks ⟨e.span, [.expr e.span e]⟩ =
      (⟨e.span, [.expr e.span e]⟩ : Block Unit) :: e.blocks := by
    simp [Block.blocks, blocksStmts, Stmt.blocks]
  have hblock : Block.Placed source ⟨e.span, [.expr e.span e]⟩ := by
    refine ⟨?_, .inr hif⟩
    rw [hblocks, List.forall_mem_cons, skipped_elseIf]
    refine ⟨Int.le_refl 0, fun c hc => ?_⟩
    exact (hs.placed c (List.mem_append_right _ hc)).nonneg c c.self_mem_blocks
  obtain ⟨us, heq, hnest, hopen⟩ := hs.passed
  rw [hblocks]
  refine ⟨hs.on, ⟨us, heq, hnest, ?_⟩, ?_⟩
  · rw [hopen, leftOpen_append, leftOpen_append, leftOpen_cons, skipped_elseIf, openBraces_nil,
      Int.zero_add]
  · obtain ⟨hbs, he⟩ := List.forall_mem_append.1 hs.placed
    exact List.forall_mem_append.2 ⟨hbs, List.forall_mem_cons.2 ⟨hblock, he⟩⟩

theorem alternative_counts : Counts source b (Behind source b o bs) (alternative inner) fun a =>
    Behind source b o (bs ++ a.toList.flatMap Block.blocks) := by
  refine .ifNext ?_ (.done (List.append_nil bs).symm)
  refine (Counts.ifNext ?_ ?_).pre fun _ hs => hs.behind rfl
  · refine .bind (h.conditional _ _ _) fun e => .pure fun s hs => ?_
    simpa using behind_elseIf hs.1 hs.2
  · refine .bind .arrive fun _ => .bind (block_counts h hspan hm hbalance) fun c => .done ?_
    simp

theorem conditional_counts : Counts source b (At source b o bs .ifKw) (conditional inner) fun e s =>
    s.Behind source b o (bs ++ e.blocks) ∧
      ∃ t ∈ lex source, t.kind = .ifKw ∧ t.span.start = e.span.start := by
  refine .current fun t => .assume (fun s hs => ⟨hs.2 ▸ hs.1.1.on.mem, hs.2 ▸ hs.1.2⟩)
    fun (ht : t ∈ lex source ∧ t.kind = .ifKw) => ?_
  refine .bind ((Counts.expect rfl).pre fun _ hs => hs.1.behind rfl) fun _ => ?_
  refine .bind .advance fun _ => .bind (h.expression _ _ _ _) fun c => ?_
  refine .bind (.expect rfl) fun _ => ?_
  refine .bind .arrive fun _ => .bind (block_counts h hspan hm hbalance) fun yes => ?_
  refine .bind (alternative_counts h hspan hm hbalance) fun no => .spanFrom fun stop => ?_
  refine .pure fun s hs => ⟨?_, t, ht.1, ht.2, rfl⟩
  rw [Expr.blocks_cond, ← List.append_assoc, ← List.append_assoc]
  exact hs

theorem operand_counts : Counts source b (Before source b o bs) (operand inner) fun e =>
    Behind source b o (bs ++ e.blocks) := by
  refine .current fun t => ?_
  have hat (s : State) (hs : s.Before source b o bs ∧ s.current = t) : s.At source b o bs t.kind :=
    ⟨hs.1, congrArg Token.kind hs.2⟩
  refine Counts.pre ?_ hat
  cases hk : t.kind with
  | ident | trueKw | falseKw => exact done_atom rfl rfl
  | int => exact integer_counts.pre fun _ hs => hs.behind rfl
  | string => exact string_counts.pre fun _ hs => hs.behind rfl
  | bang | minus => exact (unary_counts h _).pre fun _ hs => hs.behind rfl
  | lparen => exact (group_counts h).pre fun _ hs => hs.behind rfl
  | lbrace => exact object_counts h hm
  | lbracket => exact (array_counts h).pre fun _ hs => hs.behind rfl
  | ifKw => exact (conditional_counts h hspan hm hbalance).post fun _ _ hs => hs.1
  | functionKw =>
    refine .bind ((function_counts h hspan hm hbalance).pre fun _ hs => hs.behind rfl) fun fn => ?_
    exact .done rfl
  | _ => exact .fail fun _ hs => hs.1.reached

theorem expression_counts (floor : Precedence) :
    Counts source b (Before source b o bs) (expression inner floor) fun e =>
      Behind source b o (bs ++ e.blocks) := by
  refine .bind (operand_counts h hspan hm hbalance) fun left => .roundsLeft fun n => ?_
  exact (operations_counts h floor n left).pre fun _ hs => hs.1

theorem functionStatement_counts (name : Ident) :
    Counts source b (Behind source b o bs) (functionStatement inner name) fun x =>
      Behind source b o (bs ++ x.blocks) := by
  refine .current fun first => ?_
  refine .bind ((function_counts h hspan hm hbalance).pre fun _ hs => hs.1) fun fn => ?_
  exact .bind (.skip rfl) fun _ => .spanFrom fun stop => .done rfl

theorem statement_counts : Counts source b (Before source b o bs) (statement inner) fun x =>
    Behind source b o (bs ++ x.blocks) := by
  intro s hs
  rw [statement_run]
  cases hk : s.current.kind with
  | letKw | constKw => exact declaration_counts h s (hs.behind (by rw [hk]; rfl))
  | returnKw => exact returnStatement_counts h s (hs.behind (by rw [hk]; rfl))
  | functionKw =>
    dsimp only
    by_cases hname : s.peek.kind = .ident
    · rw [if_pos hname]
      exact functionStatement_counts h hspan hm hbalance _ s (hs.behind (by rw [hk]; rfl))
    · rw [if_neg hname]
      exact expressionStatement_counts h s hs
  | _ => exact expressionStatement_counts h s hs

end

/-! ### Levels of nesting, and programs -/

theorem level_counts (hbalance : BracesBalance (lex source)) (n : Nat) :
    (level n).Count source := by
  induction n with
  | zero =>
    -- every rule fails where it stands
    have hrefuse {α : Type} {P : State → Prop} {Q : α → State → Prop} {b : List Token}
        (hP : ∀ s, P s → s.Reached source b) : Counts source b P (refuse : Rule α) Q :=
      .current fun _ => .fail fun s hs => hP s hs.1
    exact ⟨fun _ _ _ => hrefuse fun _ hs => hs.reached,
      fun _ _ _ _ => hrefuse fun _ hs => hs.reached,
      fun _ _ _ => hrefuse fun _ hs => hs.1.reached⟩
  | succ n ih =>
    have hspan := level_span source n
    have hm := level_moves n
    exact ⟨fun _ _ _ => statement_counts ih hspan hm hbalance,
      fun floor _ _ _ => expression_counts ih hspan hm hbalance floor,
      fun _ _ _ => conditional_counts ih hspan hm hbalance⟩

theorem programStatements_placed (h : inner.Count source) (hspan : inner.Span source)
    (hm : inner.Move) {n : Nat} {ss : List (Stmt Unit)} (hs : s.On source)
    (hr : programStatements inner n s = .ok ss u) : ∀ c ∈ blocksStmts ss, c.Placed source := by
  induction n generalizing s ss with
  | zero =>
    obtain ⟨rfl, -⟩ := pure_ok.1 hr
    exact nofun
  | succ n ih =>
    rw [programStatements_ok] at hr
    split at hr
    next =>
      obtain ⟨rfl, -⟩ := hr
      exact nofun
    next =>
      split at hr
      next x t hx =>
        obtain ⟨xs, hr, rfl⟩ := hr
        have hplaced := ((h.statement _ _ _).ok (State.before_self hs) hx).placed
        exact List.forall_mem_append.2 ⟨hplaced, ih (hspan.statement hs hx).on_end.advance hr⟩
      next e t hx =>
        have hl := ((hm.statement.error hx).1.trans t.leads_synchronize).trans
          t.synchronize.leads_advance
        exact ih (hs.leads hl) hr

theorem parse_placed (hbalance : BracesBalance (lex source)) :
    ∀ b ∈ (parse source).1.blocks, b.Placed source := by
  have hs := State.ofString_on source
  obtain ⟨p, u, hrun, -⟩ := program_ends hs.ended
  have hparse : (parse source).1 = p := by
    unfold parse parseAs State.readProgram
    rw [hrun]
  obtain ⟨ss, hss, rfl⟩ := program_ok.1 hrun
  rw [hparse]
  exact programStatements_placed (level_counts hbalance _) (level_span source _)
    (level_moves maxNesting) hs hss

end Parser

open Primer.Parser

/-- Two tokens do not start at the same place. -/
theorem eq_of_start_eq {source : String} {t u : Token} (ht : t ∈ lex source) (hu : u ∈ lex source)
    (hne : t.kind ≠ .eof) (hne' : u.kind ≠ .eof) (heq : t.span.start = u.span.start) : t = u := by
  have hlt := (lex_tiling source).start_lt_stop t ht hne
  have hlt' := (lex_tiling source).start_lt_stop u hu hne'
  have hordered := (lex_tiling source).ordered
  obtain ⟨before, after, hlex⟩ := List.append_of_mem ht
  rw [hlex] at hordered hu
  obtain ⟨-, hrest, hbefore⟩ := List.pairwise_append.1 hordered
  rcases List.mem_append.1 hu with hu | hu
  · have hle := hbefore u hu t List.mem_cons_self
    omega
  · rcases List.mem_cons.1 hu with rfl | hu
    · rfl
    · have hle := List.rel_of_pairwise_cons hrest hu
      omega

/-- **Where blocks end.**  Let the braces of a source be balanced, and let a block of its tree be
written with braces; there may be diagnostics or not.  The block starts at its opening brace and
ends at a closing brace, and what stands between them closes no brace but its own: so the block
never ends behind its own closing brace.  It ends there if and only if the braces balance in what is
skipped in the block and in every block within it, that is, if no failed statement has left a brace
open. -/
theorem block_ends_at_own_brace_iff {source : String} (hbalance : BracesBalance (lex source))
    {b : Block Unit} (hb : b ∈ (parse source).1.blocks)
    (hbrace : ∃ t ∈ lex source, t.kind = .lbrace ∧ t.span.start = b.span.start) :
    ∃ before first inside last after,
      lex source = before ++ first :: (inside ++ last :: after) ∧
      first.kind = .lbrace ∧ last.kind = .rbrace ∧
      b.span = ⟨first.span.start, last.span.stop⟩ ∧ BracesNest inside ∧
      (BracesBalance inside ↔ ∀ c ∈ b.blocks, openBraces (c.skipped (lex source)) = 0) := by
  have hplaced := parse_placed hbalance b hb
  rcases hplaced.place with ⟨before, first, inside, last, after, hbraced⟩ | ⟨t, ht, hif, hstart⟩
  · refine ⟨before, first, inside, last, after, hbraced.tokens, hbraced.opens, hbraced.closes,
      hbraced.span_eq, hbraced.nest, ?_⟩
    rw [← leftOpen_eq_zero_iff hplaced.nonneg, ← hbraced.left]
    exact ⟨fun h => h.closed, fun h => ⟨hbraced.nest, h⟩⟩
  · -- an `if` behind `else` starts at its keyword, and not at a brace
    obtain ⟨u, hu, hk, hstart'⟩ := hbrace
    have heq := eq_of_start_eq ht hu (by rw [hif]; decide) (by rw [hk]; decide)
      (hstart.trans hstart'.symm)
    rw [heq, hk] at hif
    cases hif

/-- A block with a failed statement that leaves no brace open. -/
theorem block_ends_at_own_brace_iff_recovered :
    let source := "if (a) { let x = 1 let y = {}; }"
    BracesBalance (lex source) ∧
      ∃ b ∈ (parse source).1.blocks,
        (∃ t ∈ lex source, t.kind = .lbrace ∧ t.span.start = b.span.start) ∧
        ∃ before first inside last after,
          lex source = before ++ first :: (inside ++ last :: after) ∧
          b.span = ⟨first.span.start, last.span.stop⟩ ∧ BracesBalance inside := by
  intro source
  have hbalance : BracesBalance (lex source) := by decide +kernel
  have hbrace : ∃ t ∈ lex source, t.kind = .lbrace ∧ t.span.start = 7 := by decide +kernel
  have hblocks : (parse source).1.blocks ≠ [] := by
    rw [← List.isEmpty_eq_false_iff]
    decide +kernel
  have hall : ((parse source).1.blocks.all fun b => b.span.start == 7 &&
      b.blocks.all fun c => openBraces (c.skipped (lex source)) == 0) = true := by
    decide +kernel
  obtain ⟨b, hb⟩ := List.exists_mem_of_ne_nil _ hblocks
  obtain ⟨hstart, hskipped⟩ := Bool.and_eq_true_iff.1 (List.all_eq_true.1 hall b hb)
  rw [← beq_iff_eq.1 hstart] at hbrace
  obtain ⟨before, first, inside, last, after, htokens, -, -, hspan, -, hiff⟩ :=
    block_ends_at_own_brace_iff hbalance hb hbrace
  refine ⟨hbalance, b, hb, hbrace, before, first, inside, last, after, htokens, hspan, hiff.2 ?_⟩
  intro c hc
  exact beq_iff_eq.1 (List.all_eq_true.1 hskipped c hc)

/-- A block does not always end at its own brace: here it ends at the brace of the object, and the
second declaration is read behind it. -/
theorem block_ends_early :
    ¬∀ source : String, BracesBalance (lex source) →
      ∀ b ∈ (parse source).1.blocks,
        (∃ t ∈ lex source, t.kind = .lbrace ∧ t.span.start = b.span.start) →
        ∃ before first inside last after,
          lex source = before ++ first :: (inside ++ last :: after) ∧
          first.kind = .lbrace ∧ last.kind = .rbrace ∧
          b.span = ⟨first.span.start, last.span.stop⟩ ∧ BracesBalance inside := by
  intro hclaim
  let source := "if (a) { let x = {} let y = 1; }"
  have hbalance : BracesBalance (lex source) := by decide +kernel
  have hbrace : ∃ t ∈ lex source, t.kind = .lbrace ∧ t.span.start = 7 := by decide +kernel
  have hblocks : (parse source).1.blocks ≠ [] := by
    rw [← List.isEmpty_eq_false_iff]
    decide +kernel
  have hall : ((parse source).1.blocks.all fun b => b.span.start == 7 &&
      openBraces ((lex source).filter fun t =>
        decide (b.span.start < t.span.start ∧ t.span.stop < b.span.stop)) == 1) = true := by
    decide +kernel
  obtain ⟨b, hb⟩ := List.exists_mem_of_ne_nil _ hblocks
  obtain ⟨hstart, hopen⟩ := Bool.and_eq_true_iff.1 (List.all_eq_true.1 hall b hb)
  rw [← beq_iff_eq.1 hstart] at hbrace
  obtain ⟨before, first, inside, last, after, htokens, hfirst, hlast, hspan, hinside⟩ :=
    hclaim source hbalance b hb hbrace
  have hopen := beq_iff_eq.1 hopen
  rw [hspan, filter_between htokens (by rw [hfirst]; decide) (by rw [hlast]; decide),
    hinside.closed] at hopen
  cases hopen

end Primer
