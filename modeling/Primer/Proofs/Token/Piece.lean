/-
  Primer/Proofs/Token/Piece.lean
  ==============================
  **The tokens of a piece of a source.**

  A source is cut before one of its tokens and behind another, and a semicolon is put behind the
  piece.  The tokens of the piece are then those of the source from the one to the other, and the
  semicolon (`lex_piece`).

  What is read as a token is settled by its own text and the first character behind it.  Inside of
  the piece that character is the same as in the source.  Behind the last token it is a semicolon,
  with which no word, number or sign goes on and no comment starts.  Only a string that is not
  closed would go on over it.
-/
import Primer.Proofs.Token.LongestMatch

namespace Primer

/-! ### Other text behind -/

/-- If something follows a gap, it matters only with its first character. -/
theorem IsTrivia.change_rest {gap rest rest' : List Char} (h : IsTrivia gap rest)
    (hne : rest ≠ []) (hhead : rest'.head? = rest.head?) : IsTrivia gap rest' := by
  induction h with
  | nil => exact .nil
  | blank hblank _ ih => exact .blank hblank (ih hne hhead)
  | line hbody hnext _ ih =>
    refine .line hbody ?_ (ih hne hhead)
    rw [List.head?_append] at hnext ⊢
    rwa [hhead]
  | block hbody _ ih => exact .block hbody (ih hne hhead)
  | unclosed => exact absurd rfl hne

/-- Does the character end every token before it? No word, number or sign goes on with it, and
behind a slash it starts no comment. -/
def separates (c : Char) : Bool :=
  !isLetter c && !isDigit c && !(['=', '/', '*', '&', '|'].contains c)

/-- The text `after'` starts as `after` does, or with a character that ends every token, or it is
empty. -/
def EndsAlike (after after' : List Char) : Prop :=
  after'.head? = after.head? ∨ ∀ c ∈ after'.head?, separates c

theorem EndsAlike.of_separates {c : Char} (hc : separates c) (after cs : List Char) :
    EndsAlike after (c :: cs) := by
  refine .inr fun d hd => ?_
  cases hd
  exact hc

/-- If both texts come behind the same text, its first character is what counts. -/
theorem EndsAlike.append {after after' : List Char} (h : EndsAlike after after')
    (text : List Char) : EndsAlike (text ++ after) (text ++ after') := by
  cases text with
  | nil => exact h
  | cons c text => exact .inl rfl

section

variable {after after' : List Char} (hafter : EndsAlike after after')
include hafter

theorem head?_ne_of_change {c : Char} (hc : separates c = false) (h : after.head? ≠ some c) :
    after'.head? ≠ some c := by
  rcases hafter with heq | hseparates
  · rwa [heq]
  · intro hsome
    exact absurd (hseparates c hsome) (by simp [hc])

theorem IsRun.change_after {p : Char → Bool} (hp : ∀ c, separates c → p c = false)
    {before run : List Char} (h : IsRun p before run after) : IsRun p before run after' := by
  refine ⟨h.ne_nil, h.all, h.start, fun c hc => ?_⟩
  rcases hafter with heq | hseparates
  · exact h.stop c (by rwa [← heq])
  · exact hp c (hseparates c hc)

/-- A token stays one if it ends as well before what now comes behind it.  Only a string that is
not closed would go on over it. -/
theorem TokenKind.Matches.change_after {before raw : List Char} {k : TokenKind}
    (h : k.Matches before raw after) (hopen : k = .string → after ≠ [] ∨ after' = []) :
    k.Matches before raw after' := by
  have hletter : ∀ c, separates c → isLetter c = false := by
    intro c hc
    simp only [separates, Bool.and_eq_true, Bool.not_eq_true'] at hc
    exact hc.1.1
  have hdigit : ∀ c, separates c → isDigit c = false := by
    intro c hc
    simp only [separates, Bool.and_eq_true, Bool.not_eq_true'] at hc
    exact hc.1.2
  cases h with
  | word hrun hname => exact .word (hrun.change_after hafter hletter) hname
  | reserved hk hrun => exact .reserved hk (hrun.change_after hafter hletter)
  | number hrun => exact .number (hrun.change_after hafter hdigit)
  | string hquote hbody => exact .string hquote hbody
  | unclosed hquote hbody =>
    obtain rfl := (hopen rfl).resolve_left fun hne => hne rfl
    exact .unclosed hquote hbody
  | fixed hk => exact .fixed hk
  | extensible hk hne => exact .extensible hk (head?_ne_of_change hafter (by decide) hne)
  | slash hline hblock =>
    exact .slash (head?_ne_of_change hafter (by decide) hline)
      (head?_ne_of_change hafter (by decide) hblock)
  | half hc hne =>
    refine .half hc (head?_ne_of_change hafter ?_ hne)
    rcases hc with rfl | rfl <;> decide
  | illegal hblank hc => exact .illegal hblank hc

end

namespace Lexeme

/-- What a lexeme stands for is settled by its kind and its text. -/
theorem Stands.literal_eq {l l' : Lexeme} (h : l.Stands) (h' : l'.Stands)
    (hkind : l.kind = l'.kind) (hraw : l.raw = l'.raw) : l.literal = l'.literal := by
  unfold Stands at h h'
  rw [hkind, hraw] at h
  split at h
  next hk =>
    rw [if_pos hk] at h'
    obtain ⟨q, -, hq, h⟩ := h
    obtain ⟨q', -, hq', h'⟩ := h'
    exact quoted_unique hq hq' (h.imp_right And.left) (h'.imp_right And.left)
  next hk =>
    rw [if_neg hk] at h'
    exact h.symm.trans h'

/-- A lexeme is read again where its text ends as well before what comes behind it, unless that
comes behind a string that is not closed. -/
theorem read_change_after {c : Char} {cs after : List Char}
    (hsplit : Trivia.between.split (c :: cs) = ([], c :: cs))
    (hafter : EndsAlike (read c cs).rest after)
    (hclosed : (read c cs).rest = [] → after ≠ [] → (read c cs).kind = .string →
      width (read c cs).raw ≠ width (read c cs).literal + 1) :
    ∃ xs, (read c cs).raw = c :: xs ∧
      Trivia.between.split (c :: (xs ++ after)) = ([], c :: (xs ++ after)) ∧
      read c (xs ++ after) = { read c cs with rest := after } := by
  have hmatches : (read c cs).kind.Matches [] (read c cs).raw (read c cs).rest :=
    read_matches hsplit fun _ _ _ => nofun
  have hstands := (read_stands c cs).2
  have hfound : Found (read c cs).kind (read c cs).raw after := by
    by_cases hopen : (read c cs).kind = .string → (read c cs).rest ≠ [] ∨ after = []
    · exact (hmatches.change_after hafter hopen).found
    · simp only [Classical.not_imp, not_or, not_not] at hopen
      obtain ⟨hk, hrest, hne⟩ := hopen
      rw [Stands, if_pos hk] at hstands
      obtain ⟨q, hq, hbody, hraw | ⟨hraw, -⟩⟩ := hstands
      · rw [hk, hraw]
        exact found_string hq hbody after
      · have hsize := Token.utf8Size_of_isQuote hq
        refine absurd ?_ (hclosed hrest hne hk)
        rw [hraw, width, hsize, Nat.add_comm]
  obtain ⟨hsplit', x, xs, hraw, hkind, hraw', hrest⟩ := hfound
  have hx : x = c := by
    have hparts := read_append c cs
    rw [hraw] at hparts
    exact (List.cons.inj hparts).1
  subst hx
  refine ⟨xs, hraw, by rwa [hraw] at hsplit', ?_⟩
  have hliteral := (read_stands x (xs ++ after)).2.literal_eq hstands hkind hraw'
  generalize read x (xs ++ after) = l at *
  obtain ⟨kind, raw, literal, rest⟩ := l
  dsimp only at hkind hraw' hliteral hrest
  rw [hkind, hraw', hliteral, hrest]

end Lexeme

/-! ### One token after another -/

/-- Of two parts of a text that start together the shorter one is the start of the longer one. -/
theorem exists_append_of_width_le {a b x y : List Char} (h : a ++ x = b ++ y)
    (hwidth : width a ≤ width b) : ∃ t, b = a ++ t ∧ x = t ++ y := by
  rcases List.append_eq_append_iff.1 h with ⟨t, rfl, rfl⟩ | ⟨t, rfl, rfl⟩
  · exact ⟨t, rfl, rfl⟩
  · rw [width_append] at hwidth
    have hlength := length_le_width t
    obtain rfl : t = [] := List.eq_nil_of_length_eq_zero (by omega)
    exact ⟨[], by simp, rfl⟩

/-- The token is not a string, or it has both its quotes. -/
def Token.Complete (t : Token) : Prop :=
  t.kind = .string → t.span.length ≠ t.literal.utf8ByteSize + 1

namespace Cursor

variable {c : Cursor} {text after after' : List Char}

/-- A token in the piece is read in the piece as it is in the source. -/
theorem next_piece (hparts : c.rest = text ++ after) (hafter : EndsAlike after after')
    (hne : c.next.1.kind ≠ .eof) (hstop : c.next.1.span.stop ≤ c.offset + width text)
    (hcomplete : c.next.2.rest = [] → c.next.1.Complete) :
    ∃ text', c.next.2.rest = text' ++ after ∧
      c.next.2.offset + width text' = c.offset + width text ∧
      next ⟨c.offset, text ++ after'⟩ = (c.next.1, ⟨c.next.2.offset, text' ++ after'⟩) := by
  have happend := Trivia.split_append .between c.rest
  have hgap : IsTrivia _ _ := Trivia.split_cut .between c.rest
  have hbehind := Trivia.split_rest .between c.rest
  generalize hsplit : Trivia.between.split c.rest = r at happend hgap hbehind
  obtain ⟨gap, rest⟩ := r
  cases rest with
  | nil =>
    rw [next_of_split_nil hsplit] at hne
    exact absurd rfl hne
  | cons x xs =>
    rw [next_of_split_cons hsplit] at hstop hcomplete ⊢
    dsimp only at happend hgap hbehind hstop hcomplete ⊢
    -- the gap and the token lie within the piece
    have hread := Lexeme.read_append x xs
    rw [hparts, ← hread, ← List.append_assoc] at happend
    obtain ⟨text', htext, hrest⟩ := exists_append_of_width_le happend (by rw [width_append]; omega)
    have hends : EndsAlike (Lexeme.read x xs).rest (text' ++ after') := by
      rw [hrest]
      exact hafter.append text'
    have hclosed : (Lexeme.read x xs).rest = [] → text' ++ after' ≠ [] →
        (Lexeme.read x xs).kind = .string →
        width (Lexeme.read x xs).raw ≠ width (Lexeme.read x xs).literal + 1 := by
      intro hnil _ hk
      have hlength := hcomplete hnil hk
      unfold Span.length at hlength
      rwa [utf8ByteSize_ofList, Nat.add_sub_cancel_left] at hlength
    obtain ⟨ys, hraw, hsplit', hread'⟩ := Lexeme.read_change_after hbehind hends hclosed
    have hgap' : IsTrivia gap (x :: (ys ++ (text' ++ after'))) :=
      hgap.change_rest (List.cons_ne_nil _ _) rfl
    have hnext : Trivia.between.split (text ++ after') = (gap, x :: (ys ++ (text' ++ after'))) := by
      rw [← hgap'.split_eq hsplit', htext, hraw]
      simp
    refine ⟨text', hrest, ?_, ?_⟩
    · rw [htext, width_append, width_append]
      omega
    · rw [next_of_split_cons (c := ⟨c.offset, text ++ after'⟩) hnext, hread']

theorem tokens_of_next {d : Cursor} {t : Token} (h : c.next = (t, d)) (hne : t.kind ≠ .eof) :
    c.tokens = t :: d.tokens := by
  rw [tokens_of_ne_eof (by rw [h]; exact hne), h]

/-- The first token of a piece, and the cursor behind it. -/
theorem tokens_piece_cons {t : Token} {us : List Token} (htokens : c.tokens = t :: us)
    (hus : us ≠ []) (hparts : c.rest = text ++ after) (hafter : EndsAlike after after')
    (hstop : t.span.stop ≤ c.offset + width text) (hcomplete : us.length ≤ 1 → t.Complete) :
    ∃ (d : Cursor) (text' : List Char), d.tokens = us ∧ d.offset = t.span.stop ∧
      d.rest = text' ++ after ∧ d.offset + width text' = c.offset + width text ∧
      tokens ⟨c.offset, text ++ after'⟩ = t :: tokens ⟨d.offset, text' ++ after'⟩ := by
  have hne : c.next.1.kind ≠ .eof := by
    intro heof
    rw [tokens_of_eof heof] at htokens
    exact hus (List.cons.inj htokens).2.symm
  rw [tokens_of_ne_eof hne] at htokens
  obtain ⟨rfl, rfl⟩ := List.cons.inj htokens
  have hcomplete' (hnil : c.next.2.rest = []) : c.next.1.Complete := by
    apply hcomplete
    have heta : c.next.2 = ⟨c.next.2.offset, []⟩ := by rw [← hnil]
    rw [heta, tokens_nil]
    exact Nat.le_refl 1
  obtain ⟨text', hparts', hwidth, hnext⟩ := next_piece hparts hafter hne hstop hcomplete'
  have htokens' := tokens_of_next hnext hne
  exact ⟨c.next.2, text', rfl, (next_span_stop hne).symm, hparts', hwidth, htokens'⟩

/-- The tokens of a piece that ends where its last token ends. -/
theorem tokens_piece {t : Token} {ts rest : List Token} (htokens : c.tokens = t :: ts ++ rest)
    (hrest : rest ≠ []) (hparts : c.rest = text ++ after) (hafter : EndsAlike after after')
    (hin : ∀ a ∈ t :: ts, a.span.stop ≤ c.offset + width text)
    (hstop : (ts.getLastD t).span.stop = c.offset + width text)
    (hcomplete : (ts.getLastD t).Complete) :
    tokens ⟨c.offset, text ++ after'⟩ = t :: ts ++ tokens ⟨c.offset + width text, after'⟩ := by
  have hle := hin t List.mem_cons_self
  induction ts generalizing c t text with
  | nil =>
    obtain ⟨d, text', -, hoffset, -, hwidth, heq⟩ :=
      tokens_piece_cons htokens hrest hparts hafter hle fun _ => hcomplete
    have hlast : t.span.stop = c.offset + width text := hstop
    have hlength := length_le_width text'
    obtain rfl : text' = [] := List.eq_nil_of_length_eq_zero (by omega)
    rw [heq, hoffset, hlast]
    rfl
  | cons b ts ih =>
    have hpos := List.length_pos_iff.2 hrest
    have hlong : ¬(b :: ts ++ rest).length ≤ 1 := by
      rw [List.length_append, List.length_cons]
      omega
    obtain ⟨d, text', hd, hoffset, hparts', hwidth, heq⟩ :=
      tokens_piece_cons htokens (List.cons_ne_nil _ _) hparts hafter hle fun hshort =>
        absurd hshort hlong
    rw [← hwidth] at hin hstop
    have hin' := (List.forall_mem_cons.1 hin).2
    rw [List.getLastD_cons] at hstop hcomplete
    rw [heq, ih hd hparts' hin' hstop hcomplete (hin' b List.mem_cons_self), hwidth]
    rfl

/-! ### Pieces of a source -/

/-- From every token of a source on, the tokens are those behind a place in it. -/
theorem In.exists_of_suffix {source : String} {ts : List Token} (hin : c.In source)
    (h : ts <:+ c.tokens) (hts : ts ≠ []) : ∃ d, In source d ∧ d.tokens = ts := by
  induction c using Cursor.tokens.induct with
  | case1 c heof =>
    refine ⟨c, hin, ?_⟩
    rw [tokens_of_eof heof] at h ⊢
    rcases List.suffix_cons_iff.1 h with heq | hnil
    · exact heq.symm
    · exact absurd (List.suffix_nil.1 hnil) hts
  | case2 c hne ih =>
    rw [tokens_of_ne_eof hne] at h
    rcases List.suffix_cons_iff.1 h with heq | hsuffix
    · refine ⟨c, hin, ?_⟩
      rw [tokens_of_ne_eof hne, heq]
    · obtain ⟨-, hend | ⟨-, -, -, -, hin'⟩⟩ := hin.next
      · rw [hend] at hne
        exact absurd rfl hne
      · exact ih hin' hsuffix

theorem next_eq_of_tokens {t : Token} {ts : List Token} (h : c.tokens = t :: ts) :
    c.next.1 = t := by
  by_cases heof : c.next.1.kind = .eof
  · rw [tokens_of_eof heof] at h
    exact (List.cons.inj h).1
  · rw [tokens_of_ne_eof heof] at h
    exact (List.cons.inj h).1

/-- Skipping what stands before a token changes nothing, and leads to where the token starts. -/
theorem tokens_skipTrivia (c : Cursor) :
    c.skipTrivia.tokens = c.tokens ∧ c.skipTrivia.offset = c.next.1.span.start := by
  have hskip : c.skipTrivia.skipTrivia = c.skipTrivia := by
    unfold skipTrivia
    rw [Trivia.split_rest]
    rfl
  have hnext : c.skipTrivia.next = c.next := by
    unfold next
    rw [hskip]
  constructor
  · rw [tokens, tokens.eq_1 c, hnext]
  · unfold next
    dsimp only
    split <;> rfl

theorem tokens_semicolon (n : Nat) :
    tokens ⟨n, [';']⟩ = [⟨.semicolon, ";", ⟨n, n + 1⟩⟩, ⟨.eof, "", ⟨n + 1, n + 1⟩⟩] := by
  have hnext : next ⟨n, [';']⟩ = (⟨.semicolon, ";", ⟨n, n + 1⟩⟩, ⟨n + 1, []⟩) := rfl
  rw [tokens_of_next hnext nofun, tokens_nil]

end Cursor

/-- Of the tokens up to one of them, that one ends last. -/
theorem Tiling.stop_le_getLastD {source : String} {offset : Nat} {t : Token} {ts rest : List Token}
    (h : Tiling source offset (t :: ts ++ rest)) :
    ∀ a ∈ t :: ts, a.span.stop ≤ (ts.getLastD t).span.stop := by
  induction ts generalizing t offset with
  | nil => exact List.forall_mem_singleton.2 (Nat.le_refl _)
  | cons b ts ih =>
    cases h with
    | cons _ _ _ _ htail =>
      have hin := ih htail
      have hb := hin b List.mem_cons_self
      have hle := htail.le_start b List.mem_cons_self
      have hle' := htail.start_le_stop b List.mem_cons_self
      rw [List.getLastD_cons]
      exact List.forall_mem_cons.2 ⟨by omega, hin⟩

/-- **The tokens of a piece of a source, with a semicolon behind it.**  The piece goes from the
start of one token to the end of another, and that is not a string without its second quote. -/
theorem lex_piece {source : String} {t : Token} {ts rest : List Token}
    (h : t :: ts ++ rest <:+ lex source) (hrest : rest ≠ [])
    (hcomplete : (ts.getLastD t).Complete) :
    ∃ text : String, Span.Holds source ⟨t.span.start, (ts.getLastD t).span.stop⟩ text.toList ∧
      (lex (text ++ ";")).map (·.shift t.span.start) =
        t :: ts ++ Cursor.tokens ⟨(ts.getLastD t).span.stop, [';']⟩ := by
  have hstart : (Cursor.ofString source).In source := ⟨[], rfl, rfl⟩
  obtain ⟨c, hc, hctokens⟩ := hstart.exists_of_suffix h (List.cons_ne_nil _ _)
  -- the piece starts where the blanks and comments before its first token end
  obtain ⟨htokens, hoffset⟩ := c.tokens_skipTrivia
  have hin := hc.skipTrivia.1
  rw [Cursor.next_eq_of_tokens hctokens] at hoffset
  rw [hctokens] at htokens
  generalize c.skipTrivia = d at htokens hoffset hin
  have htiling := hin.tiling
  rw [htokens] at htiling
  have hlast : ts.getLastD t ∈ t :: ts ++ rest := List.mem_append_left _ List.getLastD_mem_cons
  have hstops := htiling.stop_le_getLastD
  have hle := htiling.le_start _ hlast
  have hle' := htiling.start_le_stop _ hlast
  -- and it ends between two characters, where the last one ends
  obtain ⟨raw, before, after, hcuts⟩ := (htiling.stands _ hlast).holds
  obtain ⟨before', hparts', hwidth'⟩ := hin
  have hparts := hparts'.symm.trans hcuts.parts
  have hstop : width (before ++ raw) = (ts.getLastD t).span.stop := by
    rw [width_append, hcuts.stop]
  rw [← List.append_assoc] at hparts
  obtain ⟨text, htext, hrest'⟩ := exists_append_of_width_le hparts (by omega)
  rw [htext, width_append, hwidth'] at hstop
  refine ⟨String.ofList text, ?_, ?_⟩
  · rw [String.toList_ofList, ← hoffset]
    exact ⟨before', after, by rw [hparts', hrest'], hwidth', by rw [hwidth', hstop]⟩
  · have hends : EndsAlike after [';'] := .of_separates rfl after []
    rw [← hstop] at hstops ⊢
    rw [← d.tokens_piece htokens hrest hrest' hends hstops hstop.symm hcomplete]
    have hshift := (Cursor.ofString (String.ofList text ++ ";")).tokens_shift t.span.start
    rw [lex, ← hshift, Cursor.ofString, String.toList_append, String.toList_ofList, hoffset,
      Nat.zero_add]
    rfl

end Primer
