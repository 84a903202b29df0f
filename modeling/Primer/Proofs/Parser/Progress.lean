/-
  Primer/Proofs/Parser/Progress.lean
  ==================================
  **Every loop of a reading moves on, and a reading comes to the end of its source.**

  The loops of the rules are given a number of rounds, the tokens that are ahead.  That number
  is no part of what they do.  A round is told what to go on with, and so it shows whether it does:
  it ends the loop without a look at what would come behind it, or it moves over at least one token
  and goes on from there (`Advances.round`).  So the tokens run out before the rounds.  What stands
  behind the last of more rounds than tokens, an answer or a failure, is never reached
  (`Advances.unroll_eq`), and any number of rounds that is enough gives the same result
  (`Advances.settles`).  The argument is made once, for any loop; what is left for each of the
  loops is to look at one round.
-/
import Primer.Proofs.Parser.Soundness

namespace Primer

/-! ### Running steps -/

section

variable {ε σ α β : Type} {x : EStateM ε σ α} {f : α → EStateM ε σ β} {s t : σ}

theorem bind_of_ok {a : α} (h : x s = .ok a t) : (x >>= f) s = f a t := by
  show EStateM.bind x f s = _
  unfold EStateM.bind
  rw [h]

theorem bind_of_error {e : ε} (h : x s = .error e t) : (x >>= f) s = .error e t := by
  show EStateM.bind x f s = _
  unfold EStateM.bind
  rw [h]

end

namespace Parser

variable {α β σ : Type} {s t u : State} {inner : Rules} {n m : Nat}

theorem expect_of_peek {k : TokenKind} {place : Place} (h : s.peek.kind = k) :
    expect k place s = .ok () s.advance :=
  expect_ok.2 ⟨h, rfl⟩

theorem expect_of_not_peek {k : TokenKind} {place : Place} (h : s.peek.kind ≠ k) :
    expect k place s = .error .failed
      (s.report s.peek.span (.expected k place s.peek.kind s.peek.literal)) := by
  show (if s.peek.is k then advance else fail _ _ : Rule Unit) s = _
  rw [if_neg (mt (is_eq_true _ _).1 h)]
  rfl

namespace State

theorem Reads.suffix {ts : List Token} (h : s.Reads ts t) : t.tokens <:+ s.tokens := by
  unfold tokens
  rw [h.ahead, h.current]
  rcases List.eq_nil_or_concat ts with rfl | ⟨ts, b, rfl⟩
  · exact List.suffix_refl _
  · rw [List.concat_eq_append, List.getLastD_concat]
    exact ⟨s.current :: ts, by simp⟩

theorem Leads.suffix (h : s.Leads t) : t.tokens <:+ s.tokens := by
  obtain ⟨ts, hts⟩ := h.reads
  exact hts.suffix

/-- The next token becomes the current one; at the end of the source it is the current one. -/
theorem advance_current (s : State) : s.advance.current = s.peek := by
  unfold advance peek
  cases s.ahead <;> rfl

theorem length_advance (s : State) : s.advance.ahead.length = s.ahead.length - 1 := by
  unfold advance
  cases h : s.ahead with
  | nil => simp [h]
  | cons a ts => simp

theorem current_eof (hs : s.Ended) (ha : s.ahead = []) : s.current.kind = .eof := by
  unfold Ended tokens at hs
  rwa [ha] at hs

theorem peek_eof (hs : s.Ended) (ha : s.ahead = []) : s.peek.kind = .eof := by
  unfold peek
  rw [ha]
  exact current_eof hs ha

theorem ahead_ne_nil_of_peek (hs : s.Ended) (h : s.peek.kind ≠ .eof) : s.ahead ≠ [] :=
  fun ha => h (peek_eof hs ha)

/-- Wherever a rule leads from a token that is not the end, one more step leads further. -/
theorem length_advance_lt (hs : s.Ended) (hne : s.current.kind ≠ .eof) (h : s.Leads t) :
    t.advance.ahead.length < s.ahead.length := by
  have hpos := List.length_pos_iff.2 (ahead_ne_nil hs hne)
  have hle := h.length_ahead_le
  have hadvance := t.length_advance
  omega

theorem length_lt_of_peek (hs : s.Ended) (hne : s.peek.kind ≠ .eof) (h : s.advance.Leads t) :
    t.ahead.length < s.ahead.length := by
  have hpos := List.length_pos_iff.2 (ahead_ne_nil_of_peek hs hne)
  have hle := h.length_ahead_le
  have hadvance := s.length_advance
  omega

end State

/-! ### Loops -/

/-- A loop that moves on, given as a rule for each number of rounds.  A round is told what to go on
with: `body more` is one round, with `more` for all that comes behind it. -/
structure Advances (P : State → Prop) (body : (σ → Rule α) → σ → Rule α) (loop : σ → Nat → Rule α) :
    Prop where
  /-- The loop is made of such rounds. -/
  unfold : ∀ x n, loop x (n + 1) = body (fun y => loop y n) x
  /-- A round ends the loop, whatever would come behind it, or it moves over at least one token and
  goes on from there. -/
  round : ∀ x s, s.Ended →
    (∃ r, ∀ more, body more x s = r) ∨
      ∃ y t k, s.Leads t ∧ t.ahead.length < s.ahead.length ∧ P t ∧
        ∀ more, body more x s = (more y >>= k) t
  /-- Where `P` holds, there is nothing to do in a round with no token ahead. -/
  idle : ∀ x s, s.Ended → P s → s.ahead = [] → loop x 0 s = loop x 1 s

/-- `n` rounds of a loop, and `out` behind the last of them. -/
def unroll (body : (σ → Rule α) → σ → Rule α) (out : σ → Rule α) : Nat → σ → Rule α
  | 0 => out
  | n + 1 => body (unroll body out n)

namespace Advances

variable {P : State → Prop} {body : (σ → Rule α) → σ → Rule α} {loop : σ → Nat → Rule α} {x : σ}

/-- A round looks at what it is told to go on with only where fewer tokens are ahead. -/
theorem body_congr (h : Advances P body loop) (hs : s.Ended) {more more' : σ → Rule α}
    (heq : ∀ y t, s.Leads t → t.ahead.length < s.ahead.length → P t → more y t = more' y t) :
    body more x s = body more' x s := by
  rcases h.round x s hs with ⟨r, hr⟩ | ⟨y, t, k, hlead, hlt, hp, hgo⟩
  · rw [hr, hr]
  · rw [hgo, hgo]
    show EStateM.bind (more y) k t = EStateM.bind (more' y) k t
    unfold EStateM.bind
    rw [heq y t hlead hlt hp]

/-- With no token ahead no number of rounds makes a difference. -/
theorem eq_zero (h : Advances P body loop) (hs : s.Ended) (hp : P s) (ha : s.ahead = []) (n : Nat) :
    loop x n s = loop x 0 s := by
  cases n with
  | zero => rfl
  | succ n =>
    rw [h.idle x s hs hp ha, h.unfold, h.unfold]
    apply h.body_congr hs
    intro y t _ hlt _
    rw [ha] at hlt
    exact absurd hlt (Nat.not_lt_zero _)

theorem eq_of_le (h : Advances P body loop) (hs : s.Ended) (hp : P s) (hn : s.ahead.length ≤ n)
    (hm : s.ahead.length ≤ m) : loop x n s = loop x m s := by
  induction n generalizing x s m with
  | zero =>
    have ha := List.eq_nil_of_length_eq_zero (Nat.le_zero.1 hn)
    exact (h.eq_zero hs hp ha m).symm
  | succ n ih =>
    cases m with
    | zero =>
      have ha := List.eq_nil_of_length_eq_zero (Nat.le_zero.1 hm)
      exact h.eq_zero hs hp ha _
    | succ m =>
      rw [h.unfold, h.unfold]
      apply h.body_congr hs
      intro y t hlead hlt hpt
      exact ih (hlead.ended hs) hpt (by omega) (by omega)

/-- The tokens ahead are rounds enough: more of them give the same result. -/
theorem settles (h : Advances P body loop) (hs : s.Ended) (hp : P s) (hn : s.ahead.length ≤ n) :
    loop x n s = loop x s.ahead.length s :=
  h.eq_of_le hs hp hn (Nat.le_refl _)

/-- The tokens run out before the rounds do: what comes behind the last round is never reached. -/
theorem unroll_eq (h : Advances P body loop) (out : σ → Rule α) (hs : s.Ended)
    (hn : s.ahead.length < n) : unroll body out n x s = loop x n s := by
  induction n generalizing x s with
  | zero => exact absurd hn (Nat.not_lt_zero _)
  | succ n ih =>
    rw [unroll, h.unfold]
    apply h.body_congr hs
    intro y t hlead hlt _
    exact ih (hlead.ended hs) (by omega)

end Advances

/-- A loop that moves on, and so comes to an end by itself. -/
structure Drains (P : State → Prop) (body : (σ → Rule α) → σ → Rule α) (loop : σ → Nat → Rule α) :
    Prop where
  advances : Advances P body loop
  /-- What stands behind the last of more rounds than tokens ahead is never reached. -/
  ends : ∀ out x s n, s.Ended → s.ahead.length < n → unroll body out n x s = loop x n s
  /-- As many rounds as tokens ahead do the same. -/
  settles : ∀ x s n, s.Ended → P s → s.ahead.length ≤ n → loop x n s = loop x s.ahead.length s

theorem Advances.drains {P : State → Prop} {body : (σ → Rule α) → σ → Rule α}
    {loop : σ → Nat → Rule α} (h : Advances P body loop) : Drains P body loop where
  advances := h
  ends out _ _ _ hs hn := h.unroll_eq out hs hn
  settles _ _ _ hs hp hn := h.settles hs hp hn

/-! ### The loops of the rules -/

section

variable (hm : inner.Move)
include hm

theorem programStatements_advances :
    Advances (fun _ => True) (fun more (_ : Unit) => programRound inner (more ()))
      fun _ => programStatements inner where
  unfold _ _ := rfl
  round _ s hs := by
    by_cases hc : s.current.kind = .eof
    · left
      refine ⟨.ok [] s, fun more => ?_⟩
      simp only [programRound, current_bind]
      rw [if_pos ((is_eq_true _ _).2 hc)]
      rfl
    · right
      have hrunning := mt (is_eq_true s.current .eof).1 hc
      cases hx : inner.statement s with
      | ok x t =>
        have hlead := hm.statement.ok hx
        refine ⟨(), t.advance, fun xs => pure (x :: xs), hlead.trans t.leads_advance,
          State.length_advance_lt hs hc hlead, trivial, fun more => ?_⟩
        simp only [programRound, current_bind]
        rw [if_neg hrunning, attempt_bind, hx]
        rfl
      | error e t =>
        have hlead := (hm.statement.error hx).1.trans t.leads_synchronize
        refine ⟨(), t.synchronize.advance, pure, hlead.trans t.synchronize.leads_advance,
          State.length_advance_lt hs hc hlead, trivial, fun more => ?_⟩
        simp only [programRound, current_bind]
        rw [if_neg hrunning, attempt_bind, hx, bind_pure]
        rfl
  idle _ s hs _ ha := by
    have hc := State.current_eof hs ha
    exact (programStatements_ok.2 (by rw [if_pos hc]; exact ⟨rfl, rfl⟩)).symm

theorem blockStatements_advances :
    Advances (fun _ => True) (fun more (_ : Unit) => blockRound inner (more ()))
      fun _ => blockStatements inner where
  unfold _ _ := rfl
  round _ s hs := by
    by_cases hc : s.current.kind = .rbrace ∨ s.current.kind = .eof
    · left
      refine ⟨.ok [] s, fun more => ?_⟩
      simp only [blockRound, current_bind]
      rw [if_pos (by simpa using hc)]
      rfl
    · have hne : s.current.kind ≠ .eof := fun h => hc (.inr h)
      have hrunning : ¬(s.current.is .rbrace || s.current.is .eof) = true := by simpa using hc
      cases hx : inner.statement s with
      | ok x t =>
        right
        have hlead := hm.statement.ok hx
        refine ⟨(), t.advance, fun xs => pure (x :: xs), hlead.trans t.leads_advance,
          State.length_advance_lt hs hne hlead, trivial, fun more => ?_⟩
        simp only [blockRound, current_bind]
        rw [if_neg hrunning, attempt_bind, hx]
        rfl
      | error e t =>
        have hlead := (hm.statement.error hx).1.trans t.leads_synchronize
        by_cases hb : t.synchronize.current.kind = .rbrace
        · left
          refine ⟨.ok [] t.synchronize, fun more => ?_⟩
          simp only [blockRound, current_bind]
          rw [if_neg hrunning, attempt_bind, hx]
          simp only [synchronize_bind, current_bind]
          rw [if_pos ((is_eq_true _ _).2 hb)]
          rfl
        · right
          refine ⟨(), t.synchronize.advance, pure, hlead.trans t.synchronize.leads_advance,
            State.length_advance_lt hs hne hlead, trivial, fun more => ?_⟩
          simp only [blockRound, current_bind]
          rw [if_neg hrunning, attempt_bind, hx, bind_pure]
          simp only [synchronize_bind, current_bind]
          rw [if_neg (mt (is_eq_true _ _).1 hb)]
          rfl
  idle _ s hs _ ha := by
    have hc := State.current_eof hs ha
    exact (blockStatements_ok.2 (by rw [if_pos (.inr hc)]; exact ⟨rfl, rfl⟩)).symm

omit hm in
theorem moreParameters_advances :
    Advances (fun _ => True) (fun more (_ : Unit) => parametersRound (more ()))
      fun _ => moreParameters where
  unfold _ _ := rfl
  round _ s hs := by
    by_cases hp : s.peek.kind = .comma
    · have hstep (more : Rule (List Ident)) : parametersRound more s =
          (expect .ident .parameterName >>= fun _ => identifier >>= fun x =>
            more >>= fun xs => pure (x :: xs)) s.advance := by
        simp only [parametersRound, peekIs_bind]
        rw [if_pos ((is_eq_true _ _).2 hp)]
        rfl
      by_cases hi : s.advance.peek.kind = .ident
      · right
        refine ⟨(), s.advance.advance, fun xs => pure (s.advance.advance.name :: xs),
          s.leads_advance.trans s.advance.leads_advance,
          State.length_lt_of_peek hs (by rw [hp]; decide) s.advance.leads_advance, trivial,
          fun more => ?_⟩
        rw [hstep, bind_of_ok (expect_of_peek hi), identifier_bind]
        rfl
      · left
        exact ⟨_, fun more => (hstep _).trans (bind_of_error (expect_of_not_peek hi))⟩
    · left
      refine ⟨.ok [] s, fun more => ?_⟩
      simp only [parametersRound, peekIs_bind]
      rw [if_neg (mt (is_eq_true _ _).1 hp)]
      rfl
  idle _ s hs _ ha := by
    have hp : s.peek.kind ≠ .comma := by rw [State.peek_eof hs ha]; decide
    exact (moreParameters_ok.2 (by rw [if_neg hp]; exact ⟨rfl, rfl⟩)).symm

theorem moreExpressions_advances (close : TokenKind) :
    Advances (fun _ => True) (fun more (_ : Unit) => listRound inner close (more ()))
      fun _ => moreExpressions inner close where
  unfold _ _ := rfl
  round _ s hs := by
    by_cases hp : s.peek.kind = .comma
    · have hne : s.peek.kind ≠ .eof := by rw [hp]; decide
      have hcomma := (is_eq_true s.peek .comma).2 hp
      by_cases hclose : s.advance.peek.kind = close
      · left
        refine ⟨.ok [] s.advance, fun more => ?_⟩
        simp only [listRound, peekIs_bind]
        rw [if_pos hcomma, advance_bind, peekIs_bind, if_pos ((is_eq_true _ _).2 hclose)]
        rfl
      · have hstep (more : Rule (List (Expr Unit))) : listRound inner close more s =
            (inner.expression .lowest >>= fun e => more >>= fun es => pure (e :: es))
              s.advance.advance := by
          simp only [listRound, peekIs_bind]
          rw [if_pos hcomma, advance_bind, peekIs_bind, if_neg (mt (is_eq_true _ _).1 hclose)]
          rfl
        cases hx : inner.expression .lowest s.advance.advance with
        | ok e t =>
          right
          have hlead := s.advance.leads_advance.trans ((hm.expression _).ok hx)
          refine ⟨(), t, fun es => pure (e :: es), s.leads_advance.trans hlead,
            State.length_lt_of_peek hs hne hlead, trivial, fun more => ?_⟩
          rw [hstep, bind_of_ok hx]
        | error e t =>
          left
          refine ⟨.error e t, fun more => ?_⟩
          rw [hstep, bind_of_error hx]
    · left
      refine ⟨.ok [] s, fun more => ?_⟩
      simp only [listRound, peekIs_bind]
      rw [if_neg (mt (is_eq_true _ _).1 hp)]
      rfl
  idle _ s hs _ ha := by
    have hp : s.peek.kind ≠ .comma := by rw [State.peek_eof hs ha]; decide
    exact (moreExpressions_ok.2 (by rw [if_neg hp]; exact ⟨rfl, rfl⟩)).symm

/-- The loop over entries stands on the opening brace or on a comma, never on the end. -/
theorem properties_advances :
    Advances (·.current.kind ≠ .eof) (fun more (_ : Unit) => propertiesRound inner (more ()))
      fun _ => properties inner where
  unfold _ _ := rfl
  round _ s hs := by
    by_cases hb : s.peek.kind = .rbrace
    · left
      refine ⟨.ok [] s.advance, fun more => ?_⟩
      simp only [propertiesRound, peekIs_bind]
      rw [if_pos ((is_eq_true _ _).2 hb)]
      rfl
    by_cases hi : s.peek.kind = .ident
    · have hne : s.peek.kind ≠ .eof := by rw [hi]; decide
      have hstep (more : Rule (List (Property (Option (Expr Unit))))) :
          propertiesRound inner more s =
          (propertyValue inner >>= fun v => spanFrom s.advance.name.span.start >>= fun span =>
            peekIs .comma >>= fun goesOn =>
              if goesOn then
                advance >>= fun _ => more >>= fun ps => pure (⟨span, s.advance.name, v⟩ :: ps)
              else expect .rbrace .objectEnd >>= fun _ => pure [⟨span, s.advance.name, v⟩])
            s.advance := by
        simp only [propertiesRound, peekIs_bind]
        rw [if_neg (mt (is_eq_true _ _).1 hb), bind_of_ok (expect_of_peek hi), identifier_bind]
        rfl
      cases hx : propertyValue inner s.advance with
      | error e t =>
        left
        refine ⟨.error e t, fun more => ?_⟩
        rw [hstep, bind_of_error hx]
      | ok v t =>
        have hlead := (propertyValue_moves hm).ok hx
        have hended := (s.leads_advance.trans hlead).ended hs
        by_cases hp : t.peek.kind = .comma
        · right
          refine ⟨(), t.advance,
            fun ps => pure (⟨s.advance.spanTo t, s.advance.name, v⟩ :: ps),
            (s.leads_advance.trans hlead).trans t.leads_advance,
            State.length_lt_of_peek hs hne (hlead.trans t.leads_advance), ?_, fun more => ?_⟩
          · rw [State.advance_kind hended hp (by decide)]
            decide
          · rw [hstep, bind_of_ok hx, spanFrom_bind, peekIs_bind, if_pos ((is_eq_true _ _).2 hp)]
            rfl
        · left
          refine ⟨(expect .rbrace .objectEnd >>= fun _ =>
            pure [⟨s.advance.spanTo t, s.advance.name, v⟩]) t, fun more => ?_⟩
          rw [hstep, bind_of_ok hx, spanFrom_bind, peekIs_bind, if_neg (mt (is_eq_true _ _).1 hp)]
          rfl
    · left
      refine ⟨.error .failed
        (s.report s.peek.span (.expected .ident .objectKey s.peek.kind s.peek.literal)),
        fun more => ?_⟩
      simp only [propertiesRound, peekIs_bind]
      rw [if_neg (mt (is_eq_true _ _).1 hb), bind_of_error (expect_of_not_peek hi)]
  idle _ s hs hc ha := absurd (State.current_eof hs ha) hc

theorem operations_advances (floor : Precedence) :
    Advances (fun _ => True) (operationsRound inner floor)
      fun left n => operations inner floor n left where
  unfold _ _ := rfl
  round left s hs := by
    by_cases hp : floor < .of s.peek.kind
    · have hne : s.peek.kind ≠ .eof := by
        intro heof
        rw [heof] at hp
        exact Nat.not_lt_zero _ hp
      have hstep (more : Expr Unit → Rule (Expr Unit)) : operationsRound inner floor more left s =
          (operation inner left >>= fun x => more x) s.advance := by
        simp only [operationsRound, get_bind]
        rw [if_pos hp, advance_bind]
      cases hx : operation inner left s.advance with
      | ok x t =>
        right
        have hlead := (operation_moves hm left).ok hx
        refine ⟨x, t, pure, s.leads_advance.trans hlead, State.length_lt_of_peek hs hne hlead,
          trivial, fun more => ?_⟩
        rw [hstep, bind_of_ok hx, bind_pure]
      | error e t =>
        left
        refine ⟨.error e t, fun more => ?_⟩
        rw [hstep, bind_of_error hx]
    · left
      refine ⟨.ok left s, fun more => ?_⟩
      simp only [operationsRound, get_bind]
      rw [if_neg hp]
      rfl
  idle left s hs _ ha := by
    have hp : ¬floor < .of s.peek.kind := by
      rw [State.peek_eof hs ha]
      exact Nat.not_lt_zero _
    exact (operations_ok.2 (by rw [if_neg hp]; exact ⟨rfl, rfl⟩)).symm

end

/-- The loops of the rules that are made from the rules `r`. -/
structure Rules.LoopsDrain (r : Rules) : Prop where
  program : Drains (fun _ => True) (fun more (_ : Unit) => programRound r (more ()))
    fun _ => programStatements r
  block : Drains (fun _ => True) (fun more (_ : Unit) => blockRound r (more ()))
    fun _ => blockStatements r
  parameters : Drains (fun _ => True) (fun more (_ : Unit) => parametersRound (more ()))
    fun _ => moreParameters
  list : ∀ close, Drains (fun _ => True) (fun more (_ : Unit) => listRound r close (more ()))
    fun _ => moreExpressions r close
  object : Drains (·.current.kind ≠ .eof) (fun more (_ : Unit) => propertiesRound r (more ()))
    fun _ => properties r
  operators : ∀ floor, Drains (fun _ => True) (operationsRound r floor)
    fun left n => operations r floor n left

theorem Rules.Move.loopsDrain (h : inner.Move) : inner.LoopsDrain where
  program := (programStatements_advances h).drains
  block := (blockStatements_advances h).drains
  parameters := moreParameters_advances.drains
  list close := (moreExpressions_advances h close).drains
  object := (properties_advances h).drains
  operators floor := (operations_advances h floor).drains

/-- Skipping a failed statement stops at a token that ends it or before one that starts another, and
goes on from the next token otherwise. -/
theorem State.synchronize_round (hs : s.Ended) :
    if endsStatement s.current.kind || startsAnother s.peek.kind then s.synchronize = s
    else s.advance.ahead.length < s.ahead.length ∧ s.synchronize = s.advance.synchronize := by
  obtain ⟨c, ts, ds⟩ := s
  cases ts with
  | nil =>
    have hc : c.kind = .eof := State.current_eof hs rfl
    rw [if_pos (by rw [hc]; rfl)]
    rfl
  | cons a ts =>
    show if endsStatement c.kind || startsAnother a.kind then _ else _
    split
    next h =>
      unfold synchronize skipStatement
      rw [if_pos h]
    next h =>
      refine ⟨Nat.lt_succ_self _, ?_⟩
      show synchronize _ = synchronize ⟨a, ts, ds⟩
      conv => lhs; unfold synchronize skipStatement
      rw [if_neg h]
      rfl

/-! ### The end of a reading -/

/-- Statements are read until the end of the source, whatever becomes of them. -/
theorem programStatements_ends (hm : inner.Move) (hs : s.Ended) (hn : s.ahead.length ≤ n) :
    ∃ ss u, programStatements inner n s = .ok ss u ∧ u.current.kind = .eof := by
  induction n generalizing s with
  | zero =>
    have ha := List.eq_nil_of_length_eq_zero (Nat.le_zero.1 hn)
    exact ⟨[], s, rfl, State.current_eof hs ha⟩
  | succ n ih =>
    by_cases hc : s.current.kind = .eof
    · exact ⟨[], s, programStatements_ok.2 (by rw [if_pos hc]; exact ⟨rfl, rfl⟩), hc⟩
    cases hx : inner.statement s with
    | ok x t =>
      have hlead := hm.statement.ok hx
      have hlt := State.length_advance_lt hs hc hlead
      obtain ⟨xs, u, hrun, hu⟩ := ih ((hlead.trans t.leads_advance).ended hs) (by omega)
      refine ⟨x :: xs, u, programStatements_ok.2 ?_, hu⟩
      rw [if_neg hc, hx]
      exact ⟨xs, hrun, rfl⟩
    | error e t =>
      have hlead := (hm.statement.error hx).1.trans t.leads_synchronize
      have hlt := State.length_advance_lt hs hc hlead
      obtain ⟨xs, u, hrun, hu⟩ := ih ((hlead.trans (State.leads_advance _)).ended hs) (by omega)
      refine ⟨xs, u, programStatements_ok.2 ?_, hu⟩
      rw [if_neg hc, hx]
      exact hrun

theorem program_ends (hs : s.Ended) : ∃ p u, program s = .ok p u ∧ u.current.kind = .eof := by
  obtain ⟨ss, u, hrun, hu⟩ := programStatements_ends (level_moves maxNesting) hs (Nat.le_refl _)
  exact ⟨_, u, program_ok.2 ⟨ss, hrun, rfl⟩, hu⟩

/-- At the end of the source nothing is left to read. -/
theorem program_at_end (hs : s.Ended) (hc : s.current.kind = .eof) :
    program s = .ok ⟨⟨0, s.current.span.stop⟩, []⟩ s := by
  refine program_ok.2 ⟨[], ?_, rfl⟩
  rw [State.ahead_eq_nil hs hc]
  rfl

end Parser

end Primer
