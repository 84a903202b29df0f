/-
  Primer/Proofs/Token/Lines.lean
  ==============================
  **A newline between two sources keeps their tokens apart.**

  No word, number or sign goes on over a newline, and a line comment ends there.  Only a string or
  a block comment that is not closed takes it in.  Where a source ends in neither, the tokens of
  the source, a newline and any other source behind it are the tokens of the one without its end
  and those of the other, moved (`lex_lines`).

  The first source is followed token by token (`Cursor.tokens_newline`); what is left at its end
  are blanks and comments, which with the newline behind them are still blanks and comments
  (`IsTrivia.newline`).
-/
import Mathlib.Data.List.Infix
import Primer.Proofs.Token.Content
import Primer.Proofs.Token.Piece

namespace Primer

/-! ### Ends of sources -/

/-- The text is blanks and comments, and behind them a block comment that nothing closes. -/
def OpensComment (text : List Char) : Prop :=
  ∃ gap body, text = gap ++ '/' :: '*' :: body ∧ IsTrivia gap ('/' :: '*' :: body) ∧
    ¬['*', '/'] <:+: body

/-- Where the last token before the end of the source stops, or the offset if there is none. -/
def lastStop (offset : Nat) (ts : List Token) : Nat :=
  ts.foldl (fun stop t => if t.kind = .eof then stop else t.span.stop) offset

/-- What stands behind the last token from the cursor on opens a block comment. -/
def Cursor.EndsInComment (c : Cursor) : Prop :=
  ∃ front text, c.rest = front ++ text ∧ c.offset + width front = lastStop c.offset c.tokens ∧
    OpensComment text

/-- The source ends in a block comment that nothing closes. -/
def EndsInComment (source : String) : Prop := (Cursor.ofString source).EndsInComment

/-! ### Blanks and comments before a newline -/

/-- At the end of a source there may be a newline more, unless a block comment would take it in. -/
theorem IsTrivia.newline {gap rest : List Char} (h : IsTrivia gap rest) (hrest : rest = [])
    (hopen : ¬OpensComment gap) (after : List Char) : IsTrivia (gap ++ ['\n']) after := by
  induction h with
  | nil => exact .blank rfl .nil
  | @blank c gap rest hblank _ ih =>
    refine .blank hblank (ih hrest ?_)
    rintro ⟨front, body, rfl, hfront, hbody⟩
    exact hopen ⟨c :: front, body, rfl, .blank hblank hfront, hbody⟩
  | @line text gap rest htext hnext _ ih =>
    subst hrest
    have hgap : ¬OpensComment gap := by
      rintro ⟨front, body, rfl, hfront, hbody⟩
      rw [List.append_nil] at hnext
      exact hopen ⟨'/' :: '/' :: (text ++ front), body, by simp, .line htext hnext hfront, hbody⟩
    have hline : ∀ c ∈ ((gap ++ ['\n']) ++ after).head?, c = '\n' := by
      cases gap with
      | nil => exact fun c hc => (Option.some.inj hc).symm
      | cons d gap => exact hnext
    have htrivia := IsTrivia.line htext hline (ih rfl hgap)
    simpa using htrivia
  | @block text gap rest htext _ ih =>
    have hgap : ¬OpensComment gap := by
      rintro ⟨front, body, rfl, hfront, hbody⟩
      exact hopen ⟨'/' :: '*' :: (text ++ '*' :: '/' :: front), body, by simp,
        .block htext hfront, hbody⟩
    have htrivia := IsTrivia.block htext (ih hrest hgap)
    simpa using htrivia
  | @unclosed body hbody => exact absurd ⟨[], body, rfl, .nil, hbody⟩ hopen

/-! ### Tokens before a newline -/

namespace Cursor

variable {c : Cursor}

/-- At the end of a source only blanks and comments are left. -/
theorem isTrivia_of_eof (h : c.next.1.kind = .eof) : IsTrivia c.rest [] := by
  have happend := Trivia.split_append .between c.rest
  have hcut : IsTrivia _ _ := Trivia.split_cut .between c.rest
  generalize hsplit : Trivia.between.split c.rest = r at happend hcut
  obtain ⟨gap, rest⟩ := r
  cases rest with
  | nil =>
    rw [List.append_nil] at happend
    rw [← happend]
    exact hcut
  | cons x xs =>
    rw [next_of_split_cons hsplit] at h
    exact absurd h (Lexeme.read_stands x xs).1

/-- Blanks and comments before tokens only move them. -/
theorem tokens_trivia {gap rest : List Char} (h : IsTrivia gap rest) (offset : Nat) :
    tokens ⟨offset, gap ++ rest⟩ = tokens ⟨offset + width gap, rest⟩ := by
  have hskip : skipTrivia ⟨offset, gap ++ rest⟩ = skipTrivia ⟨offset + width gap, rest⟩ := by
    simp only [skipTrivia, h.split_append, width_append, Nat.add_assoc]
  have hnext : next ⟨offset, gap ++ rest⟩ = next ⟨offset + width gap, rest⟩ := by
    unfold next
    rw [hskip]
  rw [tokens, tokens.eq_1 ⟨offset + width gap, rest⟩, hnext]

/-- What stands behind the last token is the same from one token on as from the next. -/
theorem EndsInComment.of_next (hne : c.next.1.kind ≠ .eof) (h : c.next.2.EndsInComment) :
    c.EndsInComment := by
  obtain ⟨front, text, hrest, hstop, htext⟩ := h
  obtain ⟨taken, hparts, hoffset⟩ := c.exists_taken
  refine ⟨taken ++ front, text, ?_, ?_, htext⟩
  · rw [hparts, hrest, List.append_assoc]
  · have hlast : lastStop c.offset (c.next.1 :: c.next.2.tokens) =
        lastStop c.next.1.span.stop c.next.2.tokens := by
      rw [lastStop, List.foldl_cons, if_neg hne, lastStop]
    rw [tokens_of_ne_eof hne, hlast, next_span_stop hne, ← hstop, hoffset, width_append,
      Nat.add_assoc]

/-- With a newline and any text behind, the tokens are the same up to the end, and then come those
of the text. -/
theorem tokens_newline (ds : List Char) (hcomplete : ∀ t ∈ c.tokens, t.Complete)
    (hcomment : ¬c.EndsInComment) :
    tokens ⟨c.offset, c.rest ++ '\n' :: ds⟩ =
      c.tokens.dropLast ++ tokens ⟨c.offset + width c.rest + 1, ds⟩ := by
  induction c using Cursor.tokens.induct with
  | case1 c heof =>
    have hopen : ¬OpensComment c.rest := by
      intro hopen
      refine hcomment ⟨[], c.rest, rfl, ?_, hopen⟩
      rw [tokens_of_eof heof]
      exact (if_pos heof).symm
    have htrivia := (isTrivia_of_eof heof).newline rfl hopen ds
    have htokens := tokens_trivia htrivia c.offset
    rw [List.append_assoc, List.singleton_append] at htokens
    rw [htokens, tokens_of_eof heof, width_append, ← Nat.add_assoc]
    rfl
  | case2 c hne ih =>
    rw [tokens_of_ne_eof hne] at hcomplete ⊢
    have hstop := next_span_stop hne
    have hwidth := c.next_offset_add_width
    have hpiece : c.rest = c.rest ++ [] := (List.append_nil _).symm
    obtain ⟨text', hparts, -, hnext⟩ :=
      next_piece hpiece (.of_separates (c := '\n') rfl [] ds) hne (by omega)
        fun _ => hcomplete _ List.mem_cons_self
    rw [List.append_nil] at hparts
    rw [← hparts] at hnext
    have ih' := ih (fun t ht => hcomplete t (List.mem_cons_of_mem _ ht))
      (mt (EndsInComment.of_next hne) hcomment)
    rw [tokens_of_next hnext hne, ih', hwidth, List.dropLast_cons_of_ne_nil (tokens_ne_nil _)]
    rfl

end Cursor

/-! ### Two sources -/

/-- A string with both its quotes is two bytes longer than what is between them. -/
theorem Token.StandsIn.complete {source : String} {t : Token} (h : t.StandsIn source)
    (hopen : ¬t.IsOpen source) : t.Complete := by
  intro hk
  rw [h.length hopen, if_pos hk, width_toList]
  omega

/-- **A newline keeps tokens apart.**  If a source ends neither in a string nor in a block comment
that is not closed, then its tokens without the end, and the tokens of any other source moved
behind the newline, are those of both with a newline between them. -/
theorem lex_lines {a : String} (b : String) (hstring : ¬EndsOpen a) (hcomment : ¬EndsInComment a) :
    lex (a ++ "\n" ++ b) = (lex a).dropLast ++ (lex b).map (·.shift (a.utf8ByteSize + 1)) := by
  have hcomplete : ∀ t ∈ lex a, t.Complete := by
    intro t ht
    exact ((lex_tiling a).stands t ht).complete fun hopen => hstring ⟨t, ht, hopen⟩
  have hparts : Cursor.ofString (a ++ "\n" ++ b) =
      ⟨(Cursor.ofString a).offset, (Cursor.ofString a).rest ++ '\n' :: b.toList⟩ := by
    unfold Cursor.ofString
    rw [String.toList_append, String.toList_append, List.append_assoc]
    rfl
  have hwidth : (Cursor.ofString a).offset + width (Cursor.ofString a).rest + 1 =
      (Cursor.ofString b).offset + (a.utf8ByteSize + 1) := by
    rw [← width_toList]
    exact Nat.add_assoc ..
  have hshift := (Cursor.ofString b).tokens_shift (a.utf8ByteSize + 1)
  rw [lex, hparts, Cursor.tokens_newline b.toList hcomplete hcomment, hwidth, lex, lex, ← hshift]
  rfl

/-- A comment that nothing closes starts with a `/*` behind which there is no `*/`. -/
theorem not_endsInComment_of_tails {source : String}
    (h : ∀ cs ∈ source.toList.tails, ['/', '*'] <+: cs → ['*', '/'] <:+: cs.drop 2) :
    ¬EndsInComment source := by
  rintro ⟨front, _, hrest, -, gap, body, rfl, -, hbody⟩
  refine hbody (h ('/' :: '*' :: body) ?_ ⟨body, rfl⟩)
  rw [List.mem_tails]
  exact ⟨front ++ gap, (List.append_assoc ..).trans hrest.symm⟩

/-- A first line with a quote in each of its comments, and a second one that would close a block
comment. -/
theorem lex_lines_comments :
    ¬EndsOpen "x = 'it' /* \" */ // it's" ∧ ¬EndsInComment "x = 'it' /* \" */ // it's" ∧
      lex ("x = 'it' /* \" */ // it's" ++ "\n" ++ "*/ y") =
        (lex "x = 'it' /* \" */ // it's").dropLast ++ (lex "*/ y").map (·.shift 25) := by
  have hstring : ¬EndsOpen "x = 'it' /* \" */ // it's" := by
    rintro ⟨t, ht, hopen⟩
    have hcomplete : ∀ t ∈ lex "x = 'it' /* \" */ // it's", t.kind = .string →
        t.span.length ≠ width t.literal.toList + 1 := by decide +kernel
    exact hcomplete t ht hopen.1 hopen.length
  have hcomment : ¬EndsInComment "x = 'it' /* \" */ // it's" :=
    not_endsInComment_of_tails (by decide +kernel)
  exact ⟨hstring, hcomment, lex_lines "*/ y" hstring hcomment⟩

end Primer
