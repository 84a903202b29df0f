/-
  Primer/Proofs/Parser/Lockstep.lean
  ==================================
  **Every rule keeps two readings in step.**

  One statement for each rule says on which tokens it may start and on which it ends.  What is
  asked of the first token is what the rule needs to look behind it; what is said of the last is
  that one can look behind it, which a semicolon does not allow.  Expressions never end on a
  semicolon, and where a rule is started on one it gives up at once.  Down to every level of
  nesting the rules keep step (`level_mirror`).
-/
import Primer.Proofs.Parser.Mirror

namespace Primer.Parser

variable {M : Mirror} {s s' t : State}

/-- The rules stay in step, whatever token they start on; an expression ends on a token behind
which one can look. -/
structure Rules.Mirror (M : Mirror) (r : Rules) : Prop where
  statement : M.Mirrors (fun _ => True) (fun _ => True) r.statement r.statement
  expression : ∀ floor, M.Mirrors (fun _ => True) M.Clear (r.expression floor) (r.expression floor)
  conditional : M.Mirrors (· = .ifKw) M.Clear r.conditional r.conditional

open Mirror

/-! ### Names and parameters -/

theorem moreParameters_mirrors (M : Mirror) :
    ∀ n, M.Mirrors M.Clear M.Clear (moreParameters n) (moreParameters n)
  | 0 => .pure rfl
  | n + 1 => by
    refine .ifNext clear_clear .comma ?_ (.pure rfl)
    refine .bind (.expect (clear_of_eq (by decide)) .ident _) fun _ _ _ => ?_
    refine .bind .identifier fun x x' hx => ?_
    refine .bind ((moreParameters_mirrors M n).pre (clear_of_eq (by decide))) fun xs xs' hxs => ?_
    exact .pure (like_cons.2 ⟨hx, hxs⟩)

theorem parameters_mirrors (M : Mirror) :
    M.Mirrors (· = .lparen) (· = .rparen) parameters parameters := by
  refine .ifNext (clear_of_eq (by decide)) .rparen (.pure rfl) ?_
  refine .bind (.expect (clear_of_eq (by decide)) .ident _) fun _ _ _ => ?_
  refine .bind .identifier fun x x' hx => ?_
  refine .roundsThen moreParameters_advances (y := ()) (z := ()) (fun _ _ => trivial)
    (fun n => (moreParameters_mirrors M n).pre (clear_of_eq (by decide))) fun xs xs' hxs => ?_
  refine .bind (.expect clear_clear .rparen _) fun _ _ _ => ?_
  exact .pure (like_cons.2 ⟨hx, hxs⟩)

theorem functionName_mirrors (M : Mirror) :
    M.Mirrors (· = .functionKw) M.Clear functionName functionName := by
  refine .ifNext (clear_of_eq (by decide)) .ident ?_
    ((Mirrors.pure rfl).post (clear_of_eq (by decide)))
  refine .bind .identifier fun x x' hx => ?_
  exact (Mirrors.pure (like_some.2 hx)).post (clear_of_eq (by decide))

/-! ### Blocks -/

/-- A block ends on a brace, or at the end of the source. -/
theorem blockStatements_ends {inner : Rules} (hm : inner.Move) {n : Nat} (hs : s.Ended)
    (hn : s.ahead.length ≤ n) {ss : List (Stmt Unit)} (hr : blockStatements inner n s = .ok ss t) :
    t.current.kind = .rbrace ∨ t.current.kind = .eof := by
  induction n generalizing s ss with
  | zero =>
    obtain ⟨-, rfl⟩ := pure_ok.1 hr
    exact .inr (State.current_eof hs (List.eq_nil_of_length_eq_zero (Nat.le_zero.1 hn)))
  | succ n ih =>
    rw [blockStatements_ok] at hr
    split at hr
    next hend =>
      obtain ⟨-, rfl⟩ := hr
      exact hend
    next hend =>
      have hne : s.current.kind ≠ .eof := fun h => hend (.inr h)
      split at hr
      next x u hx =>
        obtain ⟨xs, hr, -⟩ := hr
        have hlead := hm.statement.ok hx
        have hlt := State.length_advance_lt hs hne hlead
        exact ih ((hlead.trans u.leads_advance).ended hs) (by omega) hr
      next e u hx =>
        have hlead := (hm.statement.error hx).1.trans u.leads_synchronize
        have hlt := State.length_advance_lt hs hne hlead
        split at hr
        next hbrace =>
          obtain ⟨-, rfl⟩ := hr
          exact .inl hbrace
        next => exact ih ((hlead.trans (State.leads_advance _)).ended hs) (by omega) hr

section

variable {inner : Rules} (h : inner.Mirror M) (hm : inner.Move)
include h hm

/-- The statements of a block are read in step, unless the first reading comes to the end of its
source in that block. -/
theorem blockStatements_mirrors {n : Nat} (ht : M.Twin s s') {ss : List (Stmt Unit)}
    (hr : blockStatements inner n s = .ok ss t) :
    M.Strays s t ∨ M.rest ≠ none ∧ t.current.kind = .eof ∨
      ∃ ss' t', blockStatements inner n s' = .ok ss' t' ∧ M.Like ss ss' ∧ M.Twin t t' := by
  induction n generalizing s s' ss with
  | zero =>
    obtain ⟨rfl, rfl⟩ := pure_ok.1 hr
    exact .inr (.inr ⟨[], s', rfl, like_nil, ht⟩)
  | succ n ih =>
    have hkind := ht.current.kind
    -- the next round, behind the token on which the readings stand in step
    have hround {u u' : State} {xs : List (Stmt Unit)} (hlead : s.Leads u) (hu : M.Twin u u')
        (hr : blockStatements inner n u.advance = .ok xs t) :
        M.Strays s t ∨ M.rest ≠ none ∧ t.current.kind = .eof ∨
          ∃ xs' t', blockStatements inner n u'.advance = .ok xs' t' ∧ M.Like xs xs' ∧
            M.Twin t t' := by
      rcases hu.advance with hadvance | ⟨hrest, heof, -⟩
      · exact (ih hadvance hr).imp_left (.of_leads (hlead.trans u.leads_advance))
      · have hend : t = u.advance := by
          cases n with
          | zero => exact (pure_ok.1 hr).2.symm
          | succ n =>
            rw [blockStatements_ok, if_pos (.inr heof)] at hr
            exact hr.2.symm
        rw [hend]
        exact .inr (.inl ⟨by rw [hrest]; nofun, heof⟩)
    rw [blockStatements_ok] at hr
    simp only [blockStatements_ok, ← hkind]
    split at hr
    next hend =>
      obtain ⟨rfl, rfl⟩ := hr
      simp only [if_pos hend]
      exact .inr (.inr ⟨[], s', ⟨rfl, rfl⟩, like_nil, ht⟩)
    next hend =>
      simp only [if_neg hend]
      have hstep := h.statement.step ht trivial
      split at hr
      next x u hx =>
        obtain ⟨xs, hr, rfl⟩ := hr
        rw [hx] at hstep
        have hlead := hm.statement.ok hx
        have hmoves := u.leads_advance.trans ((blockStatements_moves hm n).ok hr)
        rcases hstep with hstray | ⟨x', u', hx', hlike, hu, -⟩
        · exact .inl (hstray.trans_leads hmoves)
        · refine (hround hlead hu hr).imp_right (Or.imp_right ?_)
          rintro ⟨xs', t', hr', hlikes, htwin⟩
          refine ⟨x' :: xs', t', ?_, like_cons.2 ⟨hlike, hlikes⟩, htwin⟩
          rw [hx']
          exact ⟨xs', hr', rfl⟩
      next e u hx =>
        rw [hx] at hstep
        have hlead := (hm.statement.error hx).1.trans u.leads_synchronize
        have hmoves : u.synchronize.Leads t := by
          split at hr
          · rw [hr.2]
            exact .refl t
          · exact (State.leads_advance _).trans ((blockStatements_moves hm n).ok hr)
        rcases hstep with hstray | ⟨e', u', hx', hu⟩
        · exact .inl (hstray.trans_leads (u.leads_synchronize.trans hmoves))
        · have hu := hu.synchronize
          simp only [hx', ← hu.current.kind]
          split at hr
          next hbrace =>
            obtain ⟨rfl, rfl⟩ := hr
            simp only [if_pos hbrace]
            exact .inr (.inr ⟨[], _, ⟨rfl, rfl⟩, like_nil, hu⟩)
          next hbrace =>
            simp only [if_neg hbrace]
            exact hround hlead hu hr

omit h hm in
theorem blockStatements_total (inner : Rules) (n : Nat) (s : State) :
    ∃ ss t, blockStatements inner n s = .ok ss t := by
  induction n generalizing s with
  | zero => exact ⟨[], s, rfl⟩
  | succ n ih =>
    simp only [blockStatements_ok]
    by_cases hend : s.current.kind = .rbrace ∨ s.current.kind = .eof
    · exact ⟨[], s, by rw [if_pos hend]; exact ⟨rfl, rfl⟩⟩
    simp only [if_neg hend]
    cases inner.statement s with
    | ok x t =>
      obtain ⟨xs, u, hr⟩ := ih t.advance
      exact ⟨x :: xs, u, xs, hr, rfl⟩
    | error e t =>
      by_cases hbrace : t.synchronize.current.kind = .rbrace
      · exact ⟨[], t.synchronize, by simp only [if_pos hbrace, and_self]⟩
      · obtain ⟨xs, u, hr⟩ := ih t.synchronize.advance
        exact ⟨xs, u, by simp only [if_neg hbrace, hr]⟩

theorem block_mirrors : M.Mirrors (· = .lbrace) M.Clear (block inner) (block inner) where
  moves := block_moves hm
  step {s s'} ht hk := by
    have hadvance := (ht.next (.inr (by rw [hk]; decide))).2
    have hloop := blockStatements_advances hm
    let n := max s.advance.ahead.length s'.advance.ahead.length
    obtain ⟨ss, t, hss⟩ := blockStatements_total inner n s.advance
    have hss' : blockStatements inner s.advance.ahead.length s.advance = .ok ss t := by
      rw [← hss]
      exact (hloop.settles (x := ()) hadvance.ended trivial (Nat.le_max_left _ _)).symm
    have hend := blockStatements_ends hm hadvance.ended (Nat.le_refl _) hss'
    rw [block_ok.2 ⟨ss, t, hss', rfl, rfl⟩]
    rcases blockStatements_mirrors h hm hadvance hss with hstray | ⟨hrest, heof⟩ | hstep
    · refine .inl ((hstray.of_leads s.leads_advance).trans_leads ?_)
      split
      · exact .refl t
      · exact t.leads_report _ _
    · refine .inl ⟨hrest, ?_, s.current, List.mem_cons_self, hk⟩
      rw [if_neg (by rw [heof]; decide)]
      exact List.append_ne_nil_of_right_ne_nil _ (List.cons_ne_nil _ _)
    · obtain ⟨ts, t', hts, hlike, htwin⟩ := hstep
      have hts' : blockStatements inner s'.advance.ahead.length s'.advance = .ok ts t' := by
        rw [← hts]
        exact (hloop.settles (x := ()) hadvance.ended_right trivial (Nat.le_max_right _ _)).symm
      have hspan : M.Like (s.spanTo t) (s'.spanTo t') :=
        like_span.2 ⟨ht.current.start, htwin.current.stop⟩
      refine .inr ⟨_, _, block_ok.2 ⟨ts, t', hts', rfl, rfl⟩, like_block hspan hlike, ?_, ?_⟩
      · rw [← htwin.current.kind]
        split
        · exact htwin
        · exact htwin.report htwin.current.span _
      · have hcurrent : (if t.current.kind = .rbrace then t
            else t.report t.current.span .unclosedBlock).current = t.current := by
          split <;> rfl
        rw [hcurrent]
        rcases hend with hend | hend
        · exact .inr (by rw [hend]; decide)
        · exact .inr (by rw [hend]; decide)

/-! ### Functions, lists and entries -/

theorem function_mirrors :
    M.Mirrors (· = .functionKw) M.Clear (function inner) (function inner) := by
  refine .current fun a a' ha => ?_
  refine .bind (functionName_mirrors M) fun x x' hx => ?_
  refine .bind (.expect clear_clear .lparen _) fun _ _ _ => ?_
  refine .bind (parameters_mirrors M) fun xs xs' hxs => ?_
  refine .bind (.expect (clear_of_eq (by decide)) .lbrace _) fun _ _ _ => ?_
  refine .bind (block_mirrors h hm) fun b b' hb => ?_
  refine .bind (.spanFrom ha.start) fun span span' hspan => ?_
  exact .pure (like_function hspan hx hxs hb)

omit hm in
theorem moreExpressions_mirrors (close : TokenKind) :
    ∀ n, M.Mirrors M.Clear M.Clear (moreExpressions inner close n) (moreExpressions inner close n)
  | 0 => .pure rfl
  | n + 1 => by
    refine .ifNext clear_clear .comma ?_ (.pure rfl)
    refine .bind (.peekIs (clear_of_eq (by decide)) close) fun b b' hb => ?_
    obtain rfl := like_bool.1 hb
    refine .ite ((Mirrors.pure rfl).post (clear_of_eq (by decide))) ?_
    refine .bind (.advance (clear_of_eq (by decide))) fun _ _ _ => ?_
    refine .bind (h.expression _) fun e e' he => ?_
    refine .bind (moreExpressions_mirrors close n) fun es es' hes => ?_
    exact .pure (like_cons.2 ⟨he, hes⟩)

theorem expressions_mirrors {P : TokenKind → Prop} (hP : ∀ k, P k → M.Clear k) (close : TokenKind) :
    M.Mirrors P (· = close) (expressions inner close) (expressions inner close) := by
  refine .ifNext hP close (.pure rfl) ?_
  refine .bind (.advance hP) fun _ _ _ => ?_
  refine .bind (h.expression _) fun e e' he => ?_
  refine .roundsThen (moreExpressions_advances hm close) (y := ()) (z := ()) (fun _ _ => trivial)
    (moreExpressions_mirrors h close) fun es es' hes => ?_
  refine .bind (.expect clear_clear close _) fun _ _ _ => ?_
  exact .pure (like_cons.2 ⟨he, hes⟩)

omit hm in
theorem propertyValue_mirrors :
    M.Mirrors (· = .ident) M.Clear (propertyValue inner) (propertyValue inner) := by
  refine .ifNext (clear_of_eq (by decide)) .colon ?_
    ((Mirrors.pure rfl).post (clear_of_eq (by decide)))
  refine .bind (.advance (clear_of_eq (by decide))) fun _ _ _ => ?_
  refine .bind (h.expression _) fun e e' he => ?_
  exact .pure (like_some.2 he)

omit hm in
theorem properties_mirrors : ∀ n, M.Mirrors (fun k => k = .lbrace ∨ k = .comma) M.Clear
    (properties inner n) (properties inner n)
  | 0 => (Mirrors.pure rfl).post clear_of_opening
  | n + 1 => by
    refine .ifNext clear_of_opening .rbrace ((Mirrors.pure rfl).post (clear_of_eq (by decide))) ?_
    refine .bind (.expect clear_of_opening .ident _) fun _ _ _ => ?_
    refine .bind .identifier fun key key' hkey => ?_
    refine .bind (propertyValue_mirrors h) fun v v' hv => ?_
    refine .bind (.spanFrom (like_span.1 hkey.nameSpan).1) fun span span' hspan => ?_
    have hp := like_property hspan hkey hv
    refine .ifNext clear_clear .comma ?_ ?_
    · refine .bind ((properties_mirrors n).pre fun _ => .inr) fun ps ps' hps => ?_
      exact .pure (like_cons.2 ⟨hp, hps⟩)
    · refine .bind (.expect clear_clear .rbrace _) fun _ _ _ => ?_
      exact (Mirrors.pure (like_cons.2 ⟨hp, like_nil⟩)).post (clear_of_eq (by decide))

/-! ### What starts an expression -/

theorem alternative_mirrors :
    M.Mirrors M.Clear M.Clear (alternative inner) (alternative inner) := by
  refine .ifNext clear_clear .elseKw ?_ (.pure rfl)
  refine .ifNext (clear_of_eq (by decide)) .ifKw ?_ ?_
  · refine .bind h.conditional fun e e' he => ?_
    have hstmt := Like.expr he.span he
    exact .pure (like_some.2 (like_block he.span (like_cons.2 ⟨hstmt, like_nil⟩)))
  · refine .bind (.expect (clear_of_eq (by decide)) .lbrace _) fun _ _ _ => ?_
    refine .bind (block_mirrors h hm) fun b b' hb => ?_
    exact .pure (like_some.2 hb)

theorem conditional_mirrors :
    M.Mirrors (· = .ifKw) M.Clear (conditional inner) (conditional inner) := by
  refine .current fun a a' ha => ?_
  refine .bind (.expect (clear_of_eq (by decide)) .lparen _) fun _ _ _ => ?_
  refine .bind (.advance (clear_of_eq (by decide))) fun _ _ _ => ?_
  refine .bind (h.expression _) fun c c' hc => ?_
  refine .bind (.expect clear_clear .rparen _) fun _ _ _ => ?_
  refine .bind (.expect (clear_of_eq (by decide)) .lbrace _) fun _ _ _ => ?_
  refine .bind (block_mirrors h hm) fun b b' hb => ?_
  refine .bind (alternative_mirrors h hm) fun d d' hd => ?_
  refine .bind (.spanFrom ha.start) fun span span' hspan => ?_
  exact .pure (.cond hspan hc hb hd)

omit h hm in
theorem integer_mirrors (M : Mirror) : M.Mirrors (· = .int) M.Clear integer integer := by
  refine .current fun a a' ha => ?_
  rw [← ha.literal]
  exact .ite ((Mirrors.pure (.int ha.span _)).post (clear_of_eq (by decide))) (.fail ha.span _)

omit h hm in
theorem string_mirrors (M : Mirror) : M.Mirrors (· = .string) M.Clear string string := by
  refine .current fun a a' ha => ?_
  rw [← ha.literal, ← ha.length]
  refine .ite ?_ ((Mirrors.pure (.str ha.span _)).post (clear_of_eq (by decide)))
  refine .bind (.report ha.span _) fun _ _ _ => ?_
  exact (Mirrors.pure (.str ha.span _)).post (clear_of_eq (by decide))

omit hm in
theorem unary_mirrors {P : TokenKind → Prop} (hP : ∀ k, P k → M.Clear k) (op : UnaryOp) :
    M.Mirrors P M.Clear (unary inner op) (unary inner op) := by
  refine .current fun a a' ha => ?_
  refine .bind (.advance hP) fun _ _ _ => ?_
  refine .bind (h.expression _) fun e e' he => ?_
  refine .bind (.spanFrom ha.start) fun span span' hspan => ?_
  exact .pure (.unary hspan he op)

omit hm in
theorem group_mirrors : M.Mirrors (· = .lparen) M.Clear (group inner) (group inner) := by
  refine .current fun a a' ha => ?_
  refine .bind (.advance (clear_of_eq (by decide))) fun _ _ _ => ?_
  refine .bind (h.expression _) fun e e' he => ?_
  refine .bind (.expect clear_clear .rparen _) fun _ _ _ => ?_
  refine .bind (.spanFrom ha.start) fun span span' hspan => ?_
  exact (Mirrors.pure (he.withSpan hspan)).post (clear_of_eq (by decide))

theorem object_mirrors : M.Mirrors (· = .lbrace) M.Clear (object inner) (object inner) := by
  refine .current fun a a' ha => ?_
  refine .roundsThen (properties_advances hm) (y := ()) (z := ()) ?_
    (fun n => (properties_mirrors h n).pre fun _ => .inl) fun ps ps' hps => ?_
  · rintro s hk
    rw [hk]
    decide
  refine .bind (.spanFrom ha.start) fun span span' hspan => ?_
  exact .pure (.object hspan hps)

theorem array_mirrors : M.Mirrors (· = .lbracket) M.Clear (array inner) (array inner) := by
  refine .current fun a a' ha => ?_
  refine .bind (expressions_mirrors h hm (clear_of_eq (by decide)) .rbracket) fun es es' hes => ?_
  refine .bind (.spanFrom ha.start) fun span span' hspan => ?_
  exact (Mirrors.pure (.array hspan hes)).post (clear_of_eq (by decide))

/-- A semicolon starts no expression, so no rule goes on from there. -/
theorem operand_mirrors :
    M.Mirrors (fun _ => True) M.Clear (operand inner) (operand inner) := by
  refine .currentKind fun a a' ha => ?_
  rw [← ha.kind, ← ha.literal]
  cases hk : a.kind with
  | ident =>
    exact (Mirrors.pure (.ident ha.span _)).imp (fun _ h => h.1) (clear_of_eq (by decide))
  | trueKw | falseKw =>
    exact (Mirrors.pure (.bool ha.span _)).imp (fun _ h => h.1) (clear_of_eq (by decide))
  | int => exact (integer_mirrors M).pre fun _ h => h.1
  | string => exact (string_mirrors M).pre fun _ h => h.1
  | bang | minus => exact (unary_mirrors h (clear_of_eq (by decide)) _).pre fun _ h => h.1
  | lparen => exact (group_mirrors h).pre fun _ h => h.1
  | lbrace => exact (object_mirrors h hm).pre fun _ h => h.1
  | lbracket => exact (array_mirrors h hm).pre fun _ h => h.1
  | ifKw => exact (conditional_mirrors h hm).pre fun _ h => h.1
  | functionKw =>
    refine .bind ((function_mirrors h hm).pre fun _ h => h.1) fun fn fn' hfn => ?_
    exact .pure (.function hfn.functionSpan hfn)
  | _ => exact .fail ha.span _

/-! ### What goes on behind an expression -/

theorem operation_mirrors {left left' : Expr Unit} (hleft : M.Like left left') :
    M.Mirrors M.Clear M.Clear (operation inner left) (operation inner left') := by
  have hstart : M.At left.span.start left'.span.start := (like_span.1 hleft.span).1
  have hbinary (kind : TokenKind) (op : BinaryOp) : M.Mirrors M.Clear M.Clear
      (do
        advance
        let right ← inner.expression (.of kind)
        return .binary (← spanFrom left.span.start) op left right : Rule (Expr Unit))
      (do
        advance
        let right ← inner.expression (.of kind)
        return .binary (← spanFrom left'.span.start) op left' right) := by
    refine .bind (.advance clear_clear) fun _ _ _ => ?_
    refine .bind (h.expression _) fun e e' he => ?_
    refine .bind (.spanFrom hstart) fun span span' hspan => ?_
    exact .pure (.binary hspan hleft he op)
  refine .current fun a a' ha => ?_
  rw [← ha.kind]
  cases a.kind with
  | lparen =>
    refine .bind (expressions_mirrors h hm clear_clear .rparen) fun es es' hes => ?_
    refine .bind (.spanFrom hstart) fun span span' hspan => ?_
    exact (Mirrors.pure (.call hspan hleft hes)).post (clear_of_eq (by decide))
  | lbracket =>
    refine .bind (.advance clear_clear) fun _ _ _ => ?_
    refine .bind (h.expression _) fun e e' he => ?_
    refine .bind (.expect clear_clear .rbracket _) fun _ _ _ => ?_
    refine .bind (.spanFrom hstart) fun span span' hspan => ?_
    exact (Mirrors.pure (.index hspan hleft he)).post (clear_of_eq (by decide))
  | assign =>
    refine .bind (.advance clear_clear) fun _ _ _ => ?_
    refine .bind (h.expression _) fun e e' he => ?_
    refine .bind (.spanFrom hstart) fun span span' hspan => ?_
    exact .pure (.assign hspan hleft he)
  | plus | minus | asterisk | slash | lt | lte | gt | gte | eq | notEq => exact hbinary _ _
  | _ => exact .pure hleft

theorem operations_mirrors (floor : Precedence) : ∀ n {left left' : Expr Unit},
    M.Like left left' →
      M.Mirrors M.Clear M.Clear (operations inner floor n left) (operations inner floor n left')
  | 0, _, _, hleft => .pure hleft
  | n + 1, _, _, hleft => by
    refine .next clear_clear (C := fun k => floor < .of k) ?_ (.pure hleft)
    refine .bind ((operation_mirrors h hm hleft).pre ?_) fun e e' he => ?_
    · intro k hk
      exact .inr fun heq => absurd (heq ▸ hk) (Nat.not_lt_zero _)
    · exact operations_mirrors floor n he

theorem expression_mirrors (floor : Precedence) :
    M.Mirrors (fun _ => True) M.Clear (expression inner floor) (expression inner floor) := by
  refine .bind (operand_mirrors h hm) fun e e' he => ?_
  exact .rounds (operations_advances hm floor) (fun _ _ => trivial) fun n =>
    operations_mirrors h hm floor n he

/-! ### Statements -/

omit hm in
theorem declaration_mirrors {P : TokenKind → Prop} (hP : ∀ k, P k → M.Clear k) :
    M.Mirrors P (fun _ => True) (declaration inner) (declaration inner) := by
  refine .current fun a a' ha => ?_
  rw [← ha.is]
  refine .bind (.expect hP .ident _) fun _ _ _ => ?_
  refine .bind .identifier fun x x' hx => ?_
  have hname : x.name = x'.name := hx.name
  have hspan (v v' : Option (Expr Unit)) (hv : M.Like v v') {P : TokenKind → Prop} :
      M.Mirrors P (fun _ => True)
        (do return .declare (← spanFrom a.span.start) (a.is .constKw) x v : Rule (Stmt Unit))
        (do return .declare (← spanFrom a'.span.start) (a.is .constKw) x' v') := by
    refine .bind (.spanFrom ha.start) fun span span' hspan => ?_
    exact (Mirrors.pure (.declare hspan _ hx hv)).post fun _ _ => trivial
  refine .ifNext (clear_of_eq (by decide)) .semicolon ?_ ?_
  · refine .ite ?_ (hspan none none rfl)
    refine .current fun b b' hb => ?_
    rw [← hname]
    refine .bind (.report hb.span _) fun _ _ _ => ?_
    exact hspan none none rfl
  · refine .bind (.expect (clear_of_eq (by decide)) .assign _) fun _ _ _ => ?_
    refine .bind (.advance (clear_of_eq (by decide))) fun _ _ _ => ?_
    refine .bind (h.expression _) fun e e' he => ?_
    refine .bind (.expect clear_clear .semicolon _) fun _ _ _ => ?_
    exact hspan _ _ (like_some.2 he)

omit hm in
theorem returnStatement_mirrors :
    M.Mirrors (· = .returnKw) (fun _ => True) (returnStatement inner) (returnStatement inner) := by
  refine .current fun a a' ha => ?_
  refine .bind (.advance (clear_of_eq (by decide))) fun _ _ _ => ?_
  refine .current fun b b' hb => ?_
  rw [← hb.is, ← hb.is]
  refine .ite (.fail hb.span _) ?_
  refine .bind (h.expression _) fun e e' he => ?_
  refine .bind (.skip clear_clear .semicolon) fun _ _ _ => ?_
  refine .bind (.spanFrom ha.start) fun span span' hspan => ?_
  exact .pure (.ret hspan he)

theorem functionStatement_mirrors {name name' : Ident} (hname : M.Like name name') :
    M.Mirrors (· = .functionKw) (fun _ => True) (functionStatement inner name)
      (functionStatement inner name') := by
  refine .current fun a a' ha => ?_
  refine .bind (function_mirrors h hm) fun fn fn' hfn => ?_
  refine .bind (.skip clear_clear .semicolon) fun _ _ _ => ?_
  refine .bind (.spanFrom ha.start) fun span span' hspan => ?_
  exact .pure (.functionStmt hspan hname hfn)

omit hm in
theorem expressionStatement_mirrors :
    M.Mirrors (fun _ => True) (fun _ => True) (expressionStatement inner)
      (expressionStatement inner) := by
  refine .current fun a a' ha => ?_
  refine .bind (h.expression _) fun e e' he => ?_
  refine .bind (.skip clear_clear .semicolon) fun _ _ _ => ?_
  refine .bind (.spanFrom ha.start) fun span span' hspan => ?_
  exact .pure (.expr hspan he)

theorem statement_mirrors :
    M.Mirrors (fun _ => True) (fun _ => True) (statement inner) (statement inner) where
  moves := statement_moves hm
  step {s s'} ht _ := by
    rw [statement_run, statement_run, ← ht.current.kind]
    cases hk : s.current.kind with
    | letKw | constKw =>
      exact (declaration_mirrors h fun k hk => .inr hk).step ht (by rw [hk]; decide)
    | returnKw => exact (returnStatement_mirrors h).step ht hk
    | functionKw =>
      have hpeek := (ht.next (.inr (by rw [hk]; decide))).1
      dsimp only
      rw [← hpeek.kind, ← hpeek.literal]
      split
      · exact (functionStatement_mirrors h hm (like_name _ hpeek.span)).step ht hk
      · exact (expressionStatement_mirrors h).step ht trivial
    | _ => exact (expressionStatement_mirrors h).step ht trivial

end

theorem refuse_mirrors {α : Type} [Placed α] (M : Mirror) {P Q : TokenKind → Prop} :
    M.Mirrors P Q (refuse : Rule α) refuse :=
  .current fun _ _ ha => .fail ha.span _

theorem level_mirror (M : Mirror) (n : Nat) : (level n).Mirror M := by
  induction n with
  | zero => exact ⟨refuse_mirrors M, fun _ => refuse_mirrors M, refuse_mirrors M⟩
  | succ n ih =>
    have hm := level_moves n
    exact ⟨statement_mirrors ih hm, expression_mirrors ih hm, conditional_mirrors ih hm⟩

end Primer.Parser
