/-
  Primer/Proofs/Parser/Append.lean
  ================================
  **Reading one source behind another.**

  The statements of a source that ends in a semicolon are read in step with those of the same
  source with more text behind it, and where the first reading comes to its end the second goes on
  with the tokens of that text (`Mirror.Arrives`).  From there on it is in step with a reading of
  the text alone.  So the statements of both parts stand one after the other in what is read of
  the whole, and so do the diagnostics, with the spans of the second part moved over
  (`allStatements_append`).
-/
import Primer.Parser.Parse
import Primer.Proofs.Parser.Lockstep
import Primer.Proofs.Token.Append

namespace Primer

namespace Parser

variable {M : Mirror} {r : Rules} {s s' t u : State} {ss : List (Stmt Unit)}

/-! ### All statements that are left -/

/-- Reads statements up to the end of the source. -/
def allStatements (r : Rules) : Rule (List (Stmt Unit)) := roundsLeft >>= programStatements r

/-- The number of rounds is no part of it. -/
theorem programStatements_eq_all (hm : r.Move) (hs : s.Ended) {n : Nat} (hn : s.ahead.length ≤ n) :
    programStatements r n s = allStatements r s :=
  (programStatements_advances hm).settles (x := ()) hs trivial hn

theorem allStatements_ok (hm : r.Move) (hs : s.Ended) :
    allStatements r s = .ok ss u ↔
      if s.current.kind = .eof then [] = ss ∧ s = u
      else match r.statement s with
        | .ok x t => ∃ xs, allStatements r t.advance = .ok xs u ∧ x :: xs = ss
        | .error _ t => allStatements r t.synchronize.advance = .ok ss u := by
  rw [← programStatements_eq_all hm hs (Nat.le_succ _), programStatements_ok]
  by_cases hc : s.current.kind = .eof
  · simp only [if_pos hc]
  · simp only [if_neg hc]
    -- what is left behind the statement takes no more rounds than there are
    have hrest {t : State} (hlead : s.Leads t) :
        programStatements r s.ahead.length t.advance = allStatements r t.advance := by
      have hended := (hlead.trans t.leads_advance).ended hs
      exact programStatements_eq_all hm hended (Nat.le_of_lt (State.length_advance_lt hs hc hlead))
    cases hx : r.statement s with
    | ok x t =>
      dsimp only
      rw [hrest (hm.statement.ok hx)]
    | error e t =>
      dsimp only
      rw [hrest ((hm.statement.error hx).1.trans t.leads_synchronize)]

theorem allStatements_ends (hm : r.Move) (hs : s.Ended) :
    ∃ ss u, allStatements r s = .ok ss u ∧ u.current.kind = .eof :=
  programStatements_ends hm hs (Nat.le_refl _)

theorem allStatements_moves (hm : r.Move) : Moves (allStatements r) :=
  .bind .roundsLeft fun n => programStatements_moves hm n

/-- At the end of the source there are none. -/
theorem allStatements_at_end (hm : r.Move) (hs : s.Ended) (hc : s.current.kind = .eof) :
    allStatements r s = .ok [] s := by
  rw [allStatements_ok hm hs, if_pos hc]
  exact ⟨rfl, rfl⟩

/-! ### The second reading, where the first comes to its end -/

theorem State.advance_diagnostics (s : State) : s.advance.diagnostics = s.diagnostics := by
  unfold advance
  split <;> rfl

theorem State.ofString_diagnostics (source : String) :
    (ofString source : State).diagnostics = [] := by
  unfold ofString ofTokens
  split <;> rfl

namespace Mirror

/-- The first reading has come to its end in `u`, and the second to `v`: at the end as well, or
at the tokens behind the last semicolon. -/
structure Arrives (M : Mirror) (u v : State) : Prop where
  ended : v.Ended
  none : M.rest = none → v.current.kind = .eof
  some : ∀ ts, M.rest = some ts → v.tokens = ts
  diagnostics : ∃ ds, v.diagnostics = M.before ++ ds ∧ M.Like u.diagnostics ds

theorem Twin.rest_eq_none (h : M.Twin s s') (hc : s.current.kind = .eof) : M.rest = none := by
  obtain ⟨c, ts, ds⟩ := s
  obtain ⟨c', ts', ds'⟩ := s'
  have htokens : M.Abreast (c :: ts) (c' :: ts') := h.tokens
  cases htokens with
  | cons hne => exact absurd hc hne
  | stop hrest => exact hrest
  | last _ hk => exact absurd (hk.symm.trans hc) nofun

theorem Twin.arrives (h : M.Twin s s') (hc : s.current.kind = .eof) : M.Arrives s s' where
  ended := h.ended_right
  none _ := by rw [← h.current.kind, hc]
  some _ hts := absurd ((h.rest_eq_none hc).symm.trans hts) nofun
  diagnostics := h.diagnostics

/-- Behind the last semicolon. -/
theorem Twin.arrives_behind (h : M.Twin s s') (hrest : M.rest = .some s'.ahead)
    (hk : s.current.kind = .semicolon) : M.Arrives s.advance s'.advance where
  ended := s'.leads_advance.ended h.ended_right
  none hnone := absurd (hrest.symm.trans hnone) nofun
  some ts hts := by
    have hkind : s'.current.kind ≠ .eof := by
      rw [← h.current.kind, hk]
      decide
    have hahead := State.ahead_ne_nil h.ended_right hkind
    rw [hrest] at hts
    cases hts
    unfold State.advance State.tokens
    split
    next hnil => exact absurd hnil hahead
    next hcons => exact hcons.symm
  diagnostics := by
    rw [s.advance_diagnostics, s'.advance_diagnostics]
    exact h.diagnostics

end Mirror

open Mirror

/-- Statements are read in step up to the end of the first source; what the second reading finds
from there on comes behind them. -/
theorem allStatements_mirrors (h : r.Mirror M) (hm : r.Move) (ht : M.Twin s s')
    (hr : allStatements r s = .ok ss u) :
    M.Strays s u ∨ ∃ ss' v, M.Like ss ss' ∧ M.Arrives u v ∧
      ∀ xs w, allStatements r v = .ok xs w → allStatements r s' = .ok (ss' ++ xs) w := by
  induction hn : s.ahead.length using Nat.strongRecOn generalizing s s' ss with
  | ind n ih =>
    subst hn
    have hkind := ht.current.kind
    by_cases hc : s.current.kind = .eof
    · rw [allStatements_at_end hm ht.ended hc] at hr
      cases hr
      exact .inr ⟨[], s', like_nil, ht.arrives hc, fun _ _ hxs => hxs⟩
    -- the next round, behind the token on which the readings stand in step
    have hround {t t' : State} {xs : List (Stmt Unit)} (hlead : s.Leads t) (htwin : M.Twin t t')
        (hr : allStatements r t.advance = .ok xs u) :
        M.Strays s u ∨ ∃ xs' v, M.Like xs xs' ∧ M.Arrives u v ∧
          ∀ ys w, allStatements r v = .ok ys w →
            allStatements r t'.advance = .ok (xs' ++ ys) w := by
      rcases htwin.advance with hadvance | ⟨hrest, heof, hsemi⟩
      · have hlt := State.length_advance_lt ht.ended hc hlead
        exact (ih _ hlt hadvance hr rfl).imp_left (.of_leads (hlead.trans t.leads_advance))
      · have hended := (hlead.trans t.leads_advance).ended ht.ended
        rw [allStatements_at_end hm hended heof] at hr
        cases hr
        exact .inr ⟨[], _, like_nil, htwin.arrives_behind hrest hsemi, fun _ _ hys => hys⟩
    rw [allStatements_ok hm ht.ended, if_neg hc] at hr
    simp only [allStatements_ok hm ht.ended_right, ← hkind, if_neg hc]
    have hstep := h.statement.step ht trivial
    cases hx : r.statement s with
    | ok x t =>
      rw [hx] at hr hstep
      obtain ⟨xs, hr, rfl⟩ := hr
      rcases hstep with hstray | ⟨x', t', hx', hlike, htwin, -⟩
      · left
        exact hstray.trans_leads (t.leads_advance.trans ((allStatements_moves hm).ok hr))
      · rcases hround (hm.statement.ok hx) htwin hr with hstray | ⟨xs', v, hlikes, harrives, hgo⟩
        · exact .inl hstray
        · refine .inr ⟨x' :: xs', v, like_cons.2 ⟨hlike, hlikes⟩, harrives, fun ys w hys => ?_⟩
          rw [hx']
          exact ⟨xs' ++ ys, hgo ys w hys, rfl⟩
    | error e t =>
      rw [hx] at hr hstep
      have hlead := (hm.statement.error hx).1.trans t.leads_synchronize
      rcases hstep with hstray | ⟨e', t', hx', htwin⟩
      · left
        have hmoves := (State.leads_advance _).trans ((allStatements_moves hm).ok hr)
        exact hstray.trans_leads (t.leads_synchronize.trans hmoves)
      · rcases hround hlead htwin.synchronize hr with hstray | ⟨xs', v, hlikes, harrives, hgo⟩
        · exact .inl hstray
        · refine .inr ⟨xs', v, hlikes, harrives, fun ys w hys => ?_⟩
          rw [hx']
          exact hgo ys w hys

/-! ### Two sources -/

theorem Ended.head_ne {a : Token} {ts : List Token} (h : Ended (a :: ts)) (hts : ts ≠ []) :
    a.kind ≠ .eof ∧ Ended ts := by
  cases ts with
  | nil => exact absurd rfl hts
  | cons b ts => exact h

namespace Mirror

/-- Tokens up to a last semicolon, and the same with others behind them. -/
theorem abreast_append (hself : ∀ a, M.LikeToken a a) {ts us : List Token} {a b : Token}
    (hrest : M.rest = some us) (hk : a.kind = .semicolon) (h : Ended (ts ++ [a, b])) :
    M.Abreast (ts ++ [a, b]) (ts ++ a :: us) := by
  induction ts with
  | nil => exact .last hrest hk (hself a) h.2
  | cons c ts ih =>
    obtain ⟨hne, hended⟩ := h.head_ne (List.append_ne_nil_of_right_ne_nil _ (List.cons_ne_nil _ _))
    exact .cons hne (hself c) (ih hended)

/-- Tokens up to the end of the source, and the same moved over. -/
theorem abreast_shift (hrest : M.rest = none) {ts : List Token} (h : Ended ts) :
    M.Abreast ts (ts.map (·.shift M.shift)) := by
  induction ts with
  | nil => exact absurd h id
  | cons a ts ih =>
    cases ts with
    | nil => exact .stop hrest h (likeToken_shift M a)
    | cons b ts => exact .cons h.1 (likeToken_shift M a) (ih h.2)

/-- Where nothing of a place is left out, like things are the same, moved over. -/
theorem Like.eq_shift {α : Type} [Placed α] (hview : M.view = id)
    (hid : ∀ a : α, Placed.mapSpans (Span.map id) a = a) {a a' : α} (h : M.Like a a') :
    a' = Placed.mapSpans (Span.shift M.shift) a := by
  unfold Like at h
  rw [hview, hid, hid] at h
  exact h.symm

end Mirror

theorem mapSpans_statements_id {f : Span → Span} (hf : ∀ a, f a = a) (ss : List (Stmt Unit)) :
    Placed.mapSpans f ss = ss := by
  show ss.map (·.mapSpans f) = ss
  rw [← mapSpansStmts_eq_map, mapSpansStmts_id hf]

theorem mapSpans_diagnostics_id {f : Span → Span} (hf : ∀ a, f a = a) (ds : List Diagnostic) :
    Placed.mapSpans f ds = ds := by
  have hd (d : Diagnostic) : Placed.mapSpans f d = d := by
    show Diagnostic.mk d.problem (f d.span) = d
    rw [hf]
  show ds.map (Placed.mapSpans f) = ds
  rw [List.map_congr_left fun d _ => hd d, List.map_id']

/-- **Statements and diagnostics of a source behind another.**  The first source ends in a
semicolon; it is read without diagnostics, or has no brace that a block could start with. -/
theorem allStatements_append {p q : String} (n : Nat)
    (hend : ∃ t ∈ lex p, t.kind = .semicolon ∧ t.span.stop = p.utf8ByteSize)
    {ts : List (Stmt Unit)} {v : State}
    (hp : allStatements (level n) (.ofString p) = .ok ss u)
    (hq : allStatements (level n) (.ofString q) = .ok ts v)
    (hbraces : u.diagnostics = [] ∨ ∀ t ∈ lex p, t.kind ≠ .lbrace) :
    ∃ w, allStatements (level n) (.ofString (p ++ q)) =
        .ok (ss ++ Placed.mapSpans (Span.shift p.utf8ByteSize) ts) w ∧
      w.diagnostics =
        u.diagnostics ++ Placed.mapSpans (Span.shift p.utf8ByteSize) v.diagnostics := by
  have hm := level_moves n
  obtain ⟨before, semi, hk, hlexp, hlexpq⟩ := lex_append q hend
  -- up to the end of the first source
  let M : Mirror := ⟨0, id, [], some ((lex q).map (·.shift p.utf8ByteSize))⟩
  have hself (a : Token) : M.LikeToken a a := ⟨rfl, rfl, rfl, rfl, rfl⟩
  have htwin : M.Twin (.ofString p) (.ofString (p ++ q)) := by
    refine ⟨?_, State.ofString_ended p, State.ofString_ended (p ++ q), [], ?_, ?_⟩
    · have hended := State.ofString_ended p
      unfold State.Ended at hended
      rw [State.ofString_tokens, hlexp] at hended
      rw [State.ofString_tokens, State.ofString_tokens, hlexp, hlexpq]
      exact abreast_append hself rfl hk hended
    · exact State.ofString_diagnostics _
    · rw [State.ofString_diagnostics]
      exact like_nil
  have hstray : ¬M.Strays (.ofString p) u := by
    rintro ⟨-, hne, b, hb, hbrace⟩
    rw [State.ofString_tokens] at hb
    rcases hbraces with hclean | hbraces
    · exact hne hclean
    · exact hbraces b hb hbrace
  obtain ⟨ss', v₁, hss, harrives, hgo⟩ :=
    (allStatements_mirrors (level_mirror M n) hm htwin hp).resolve_left hstray
  obtain ⟨ds, hds, hlike⟩ := harrives.diagnostics
  have hss' : ss' = ss := by
    rw [hss.eq_shift rfl (mapSpans_statements_id fun _ => rfl)]
    exact mapSpans_statements_id (fun _ => rfl) ss
  have hds' : v₁.diagnostics = u.diagnostics := by
    rw [hds, hlike.eq_shift rfl (mapSpans_diagnostics_id fun _ => rfl)]
    exact mapSpans_diagnostics_id (fun _ => rfl) u.diagnostics
  -- from there on, moved over
  let N : Mirror := ⟨p.utf8ByteSize, id, u.diagnostics, none⟩
  have htwin' : N.Twin (.ofString q) v₁ := by
    refine ⟨?_, State.ofString_ended q, harrives.ended, [], ?_, ?_⟩
    · have hended := State.ofString_ended q
      unfold State.Ended at hended
      rw [State.ofString_tokens] at hended
      rw [State.ofString_tokens, harrives.some _ rfl]
      exact abreast_shift rfl hended
    · rw [hds', List.append_nil]
    · rw [State.ofString_diagnostics]
      exact like_nil
  have hstray' : ¬N.Strays (.ofString q) v := fun h => h.1 rfl
  obtain ⟨ts', w, hts, harrives', hgo'⟩ :=
    (allStatements_mirrors (level_mirror N n) hm htwin' hq).resolve_left hstray'
  obtain ⟨es, hes, hlike'⟩ := harrives'.diagnostics
  have hw := hgo' [] w (allStatements_at_end hm harrives'.ended (harrives'.none rfl))
  refine ⟨w, ?_, ?_⟩
  · have hrun := hgo _ w hw
    rw [hss', List.append_nil, hts.eq_shift rfl (mapSpans_statements_id fun _ => rfl)] at hrun
    exact hrun
  · rw [hes, hlike'.eq_shift rfl (mapSpans_diagnostics_id fun _ => rfl)]

end Parser

/-! ### What is parsed -/

/-- A source is parsed by reading all its statements. -/
theorem exists_allStatements (source : String) : ∃ ss u,
    Parser.allStatements (Parser.level Parser.maxNesting) (.ofString source) = .ok ss u := by
  have hm := Parser.level_moves Parser.maxNesting
  obtain ⟨ss, u, h, -⟩ := Parser.allStatements_ends hm (Parser.State.ofString_ended source)
  exact ⟨ss, u, h⟩

theorem parse_of_allStatements {source : String} {ss : List (Stmt Unit)} {u : Parser.State}
    (h : Parser.allStatements (Parser.level Parser.maxNesting) (.ofString source) = .ok ss u) :
    parse source = (⟨⟨0, u.current.span.stop⟩, ss⟩, u.diagnostics) := by
  have hprogram := Parser.program_ok.2 ⟨ss, h, rfl⟩
  unfold parse parseAs Parser.State.readProgram
  rw [hprogram]

/-- The diagnostic, `n` bytes further to the right. -/
def Diagnostic.shift (n : Nat) (d : Diagnostic) : Diagnostic := ⟨d.problem, d.span.shift n⟩

/-- **One source behind another.**  The first ends in a semicolon, and is read without diagnostics
or has no brace that a block could start with.  What is wrong with it is not felt in the second:
statements and diagnostics of both stand one after the other, those of the second moved over. -/
theorem parse_append {p q : String}
    (hend : ∃ t ∈ lex p, t.kind = .semicolon ∧ t.span.stop = p.utf8ByteSize)
    (hbraces : (parse p).2 = [] ∨ ∀ t ∈ lex p, t.kind ≠ .lbrace) :
    (parse (p ++ q)).1.statements =
        (parse p).1.statements ++ ((parse q).1.shiftSpans p.utf8ByteSize).statements ∧
      (parse (p ++ q)).2 = (parse p).2 ++ (parse q).2.map (·.shift p.utf8ByteSize) := by
  obtain ⟨ss, u, hss⟩ := exists_allStatements p
  obtain ⟨ts, v, hts⟩ := exists_allStatements q
  rw [parse_of_allStatements hss] at hbraces
  obtain ⟨w, hw, hdiagnostics⟩ := Parser.allStatements_append _ hend hss hts hbraces
  rw [parse_of_allStatements hss, parse_of_allStatements hts, parse_of_allStatements hw]
  refine ⟨?_, hdiagnostics⟩
  unfold Program.shiftSpans Program.mapSpans
  rw [mapSpansStmts_eq_map]
  rfl

/-- Two broken statements, and the statement behind them. -/
theorem parse_append_broken :
    (parse "let = 1; x + ;").2.length = 2 ∧
      (parse ("let = 1; x + ;" ++ " y;")).1.statements =
        (parse "let = 1; x + ;").1.statements ++ ((parse " y;").1.shiftSpans 14).statements ∧
      (parse ("let = 1; x + ;" ++ " y;")).2 =
        (parse "let = 1; x + ;").2 ++ (parse " y;").2.map (·.shift 14) := by
  refine ⟨by decide +kernel, parse_append ?_ (.inr (by decide +kernel))⟩
  decide +kernel

/-- Two sources without diagnostics, the first of which ends in a semicolon. -/
theorem parse_append_of_clean {p q : String}
    (hend : ∃ t ∈ lex p, t.kind = .semicolon ∧ t.span.stop = p.utf8ByteSize)
    (hp : (parse p).2 = []) (hq : (parse q).2 = []) :
    (parse (p ++ q)).2 = [] ∧ (parse (p ++ q)).1.statements =
      (parse p).1.statements ++ mapSpansStmts (.shift p.utf8ByteSize) (parse q).1.statements := by
  obtain ⟨ss, u, hss⟩ := exists_allStatements p
  obtain ⟨ts, v, hts⟩ := exists_allStatements q
  have hparse := parse_of_allStatements hss
  have hparse' := parse_of_allStatements hts
  rw [hparse] at hp ⊢
  rw [hparse'] at hq ⊢
  have hu : u.diagnostics = [] := hp
  have hv : v.diagnostics = [] := hq
  obtain ⟨w, hw, hdiagnostics⟩ := Parser.allStatements_append _ hend hss hts (.inl hu)
  rw [parse_of_allStatements hw, mapSpansStmts_eq_map]
  rw [hu, hv] at hdiagnostics
  exact ⟨hdiagnostics, rfl⟩

end Primer
