/-
  Primer/Proofs/Parser/SameTokens.lean
  ====================================
  **What is read depends on kinds and literals of tokens only.**

  Blanks and comments, and which of the two quotes encloses a string, decide where tokens are and
  nothing else.  The length of a token follows from its kind and its literal, but for the one
  string of a source that may lack its closing quote (`Token.IsOpen`), which comes right before the
  end.  So two sources with the same tokens are read in step, with every place seen as the same
  one, and from both comes the same tree without places, with the same problems.
-/
import Primer.Proofs.Parser.Append
import Primer.Proofs.Parser.Layout
import Primer.Proofs.Token.Content

namespace Primer

variable {a b source : String} {t t' : Token}

/-! ### Sources with the same tokens -/

/-- The sources have tokens of the same kinds and literals, and both or neither of them end in a
string that is not closed. -/
structure SameTokens (a b : String) : Prop where
  contents : (lex a).map Token.content = (lex b).map Token.content
  endsOpen : EndsOpen a ↔ EndsOpen b

/-- Behind a string that is not closed there is nothing left. -/
theorem Tiling.eof_of_isOpen {offset : Nat} {ts : List Token} (h : Tiling source offset (t :: ts))
    (hopen : t.IsOpen source) : ∀ u ∈ ts, u.kind = .eof := by
  intro u hu
  cases h with
  | last => exact absurd hopen.1 nofun
  | cons _ _ _ hstands htail =>
    by_contra hne
    have hstop := hopen.stop_eq hstands
    have hle := htail.le_start u hu
    have hlt := htail.start_lt_stop u hu hne
    have hend := htail.stop_le u hu
    omega

/-- A string that is not closed has its like in the other source. -/
theorem isOpen_of_contents {offset : Nat} {ts ts' : List Token} (h : Tiling a offset (t :: ts))
    (hcontents : ts.map Token.content = ts'.map Token.content)
    (hopens : (∃ u ∈ t :: ts, u.IsOpen a) → ∃ u ∈ t' :: ts', u.IsOpen b) (hopen : t.IsOpen a) :
    t'.IsOpen b := by
  obtain ⟨u, hu, huopen⟩ := hopens ⟨t, List.mem_cons_self, hopen⟩
  rcases List.mem_cons.1 hu with rfl | hu
  · exact huopen
  · have hmem : u.content ∈ ts.map Token.content := by
      rw [hcontents]
      exact List.mem_map_of_mem hu
    obtain ⟨v, hv, hcontent⟩ := List.mem_map.1 hmem
    have hkind : v.kind = u.kind := congrArg Prod.fst hcontent
    have heof := h.eof_of_isOpen hopen v hv
    rw [hkind, huopen.1] at heof
    exact absurd heof nofun

namespace Parser

/-- Two readings of which no place is compared. -/
def Mirror.placeless : Mirror := ⟨0, fun _ => 0, [], none⟩

open Mirror

theorem likeToken_placeless (h : t.StandsIn a) (h' : t'.StandsIn b)
    (hcontent : t.content = t'.content) (hopen : t.IsOpen a ↔ t'.IsOpen b) :
    placeless.LikeToken t t' := by
  obtain ⟨hk, hl⟩ := Prod.mk.inj hcontent
  exact ⟨hk, hl, rfl, rfl, Token.length_eq h h' hk hl hopen⟩

theorem abreast_of_contents {ts ts' : List Token} {o o' : Nat} (h : Tiling a o ts)
    (h' : Tiling b o' ts') (hcontents : ts.map Token.content = ts'.map Token.content)
    (hopens : (∃ t ∈ ts, t.IsOpen a) ↔ ∃ t ∈ ts', t.IsOpen b) : placeless.Abreast ts ts' := by
  induction h generalizing o' ts' with
  | @last o hgap =>
    have hstands := (Tiling.last hgap).stands _ List.mem_cons_self
    cases h' with
    | last hgap' =>
      have hstands' := (Tiling.last hgap').stands _ List.mem_cons_self
      exact .stop rfl rfl (likeToken_placeless hstands hstands' rfl
        ⟨fun ho => absurd ho.1 nofun, fun ho => absurd ho.1 nofun⟩)
    | @cons _ t' ts' _ hne _ _ _ =>
      obtain ⟨hhead, -⟩ := List.cons.inj hcontents
      have hkind : TokenKind.eof = t'.kind := congrArg Prod.fst hhead
      exact absurd hkind.symm hne
  | @cons o t ts hgap hne hlt hstands htail ih =>
    cases h' with
    | last =>
      obtain ⟨hhead, -⟩ := List.cons.inj hcontents
      have hkind : t.kind = TokenKind.eof := congrArg Prod.fst hhead
      exact absurd hkind hne
    | @cons _ t' ts' hgap' hne' hlt' hstands' htail' =>
      obtain ⟨hhead, hcontents⟩ := List.cons.inj hcontents
      have hopen : t.IsOpen a ↔ t'.IsOpen b :=
        ⟨isOpen_of_contents (.cons hgap hne hlt hstands htail) hcontents hopens.1,
          isOpen_of_contents (.cons hgap' hne' hlt' hstands' htail') hcontents.symm hopens.2⟩
      refine .cons hne (likeToken_placeless hstands hstands' hhead hopen)
        (ih htail' hcontents ?_)
      -- of the tails, none has an open string if the heads are open, and else both or neither
      by_cases ho : t.IsOpen a
      · have hts := (Tiling.cons hgap hne hlt hstands htail).eof_of_isOpen ho
        have hts' := (Tiling.cons hgap' hne' hlt' hstands' htail').eof_of_isOpen (hopen.1 ho)
        refine ⟨fun ⟨u, hu, huo⟩ => ?_, fun ⟨u, hu, huo⟩ => ?_⟩
        · exact absurd ((hts u hu).symm.trans huo.1) nofun
        · exact absurd ((hts' u hu).symm.trans huo.1) nofun
      · simpa only [List.mem_cons, exists_eq_or_imp, ho, mt hopen.2 ho, false_or] using hopens

/-- Sources with the same tokens are read in step. -/
theorem twin_of_sameTokens (h : SameTokens a b) :
    placeless.Twin (.ofString a) (.ofString b) := by
  refine ⟨?_, State.ofString_ended a, State.ofString_ended b, [], ?_, ?_⟩
  · rw [State.ofString_tokens, State.ofString_tokens]
    exact abreast_of_contents (lex_tiling a) (lex_tiling b) h.contents h.endsOpen
  · exact State.ofString_diagnostics b
  · rw [State.ofString_diagnostics]
    exact like_nil

theorem Mirror.Like.mapSpansStmts_eq {ss ss' : List (Stmt Unit)} (h : placeless.Like ss ss') :
    mapSpansStmts (fun _ => .zero) ss = mapSpansStmts (fun _ => .zero) ss' := by
  calc mapSpansStmts (fun _ => .zero) ss
    _ = mapSpansStmts (fun _ => .zero) (mapSpansStmts (.shift 0) ss) := by
      rw [mapSpansStmts_mapSpans]
      intro span
      rfl
    _ = mapSpansStmts (fun _ => .zero) ss' := by
      simp only [mapSpansStmts_eq_map]
      exact h

theorem Mirror.Like.problems_eq {ds ds' : List Diagnostic} (h : placeless.Like ds ds') :
    ds.map Diagnostic.problem = ds'.map Diagnostic.problem := by
  have hproblems := congrArg (List.map Diagnostic.problem) h
  simp only [Placed.mapSpans, List.map_map, Function.comp_def] at hproblems
  exact hproblems

end Parser

/-- Sources with the same tokens have the same tree without places, and the same problems. -/
theorem parse_of_sameTokens (h : SameTokens a b) :
    (parse a).1.eraseSpans = (parse b).1.eraseSpans ∧
      (parse a).2.map Diagnostic.problem = (parse b).2.map Diagnostic.problem := by
  have hm := Parser.level_moves Parser.maxNesting
  obtain ⟨ss, u, hss⟩ := exists_allStatements a
  have hmirror := Parser.level_mirror Parser.Mirror.placeless Parser.maxNesting
  obtain hstray | ⟨ss', v, hlike, harrives, hgo⟩ :=
    Parser.allStatements_mirrors hmirror hm (Parser.twin_of_sameTokens h) hss
  · exact absurd rfl hstray.1
  obtain ⟨ds, hds, hlikes⟩ := harrives.diagnostics
  -- the second reading comes to its end where the first does
  have hend := Parser.allStatements_at_end hm harrives.ended (harrives.none rfl)
  rw [parse_of_allStatements hss, parse_of_allStatements (hgo [] v hend), List.append_nil]
  refine ⟨?_, ?_⟩
  · unfold Program.eraseSpans Program.mapSpans
    rw [hlike.mapSpansStmts_eq]
  · have hds : v.diagnostics = ds := hds
    rw [hds]
    exact hlikes.problems_eq

/-- **Layout is invisible.**  A source read without places, and a source with the same tokens read
with them, give the same tree once those are erased, and diagnostics of the same messages.  Of one
and the same source the diagnostics have the same spans as well. -/
theorem parseAs_erased_of_sameTokens (h : SameTokens a b) :
    (parseAs .erased a).1 = (parse b).1.eraseSpans ∧
      (parseAs .erased a).2.map Diagnostic.message = (parse b).2.map Diagnostic.message ∧
      (parseAs .erased a).2 = (parse a).2 := by
  obtain ⟨htree, hproblems⟩ := parse_of_sameTokens h
  rw [parseAs_erased]
  refine ⟨htree, ?_, rfl⟩
  have hmessages := congrArg (List.map Problem.message) hproblems
  rw [List.map_map, List.map_map] at hmessages
  exact hmessages

/-- A group and a string that are not closed, in two layouts. -/
theorem parseAs_erased_unclosed :
    (parse "let x=( 1 /* c */ \"b").2.length = 1 ∧
      (parseAs .erased "let x = (1 'b").1 = (parse "let x=( 1 /* c */ \"b").1.eraseSpans ∧
      (parseAs .erased "let x = (1 'b").2.map Diagnostic.message =
        (parse "let x=( 1 /* c */ \"b").2.map Diagnostic.message ∧
      (parseAs .erased "let x = (1 'b").2 = (parse "let x = (1 'b").2 := by
  have hleft : EndsOpen "let x = (1 'b" := by
    refine ⟨⟨.string, "b", ⟨11, 13⟩⟩, by decide +kernel, rfl, '\'', rfl, ?_⟩
    exact ⟨"let x = (1 ".toList, [], by decide +kernel, by decide +kernel, by decide +kernel⟩
  have hright : EndsOpen "let x=( 1 /* c */ \"b" := by
    refine ⟨⟨.string, "b", ⟨18, 20⟩⟩, by decide +kernel, rfl, '"', rfl, ?_⟩
    exact ⟨"let x=( 1 /* c */ ".toList, [], by decide +kernel, by decide +kernel, by decide +kernel⟩
  refine ⟨by decide +kernel, parseAs_erased_of_sameTokens ⟨by decide +kernel, ?_⟩⟩
  exact iff_of_true hleft hright

end Primer
