/-
  Primer/Proofs/Token/Append.lean
  ===============================
  **The tokens of two sources one behind the other.**

  Text behind a source can change its tokens: it may go on with the last word, close a string or
  a comment, or make a pair of the last operator.  It cannot where the source ends in a semicolon
  that is a token, because every token before it is followed by something, and a semicolon does
  not depend on what follows.  The tokens of the whole are then those of the first source without
  its end, and those of the second moved behind it (`lex_append`).
-/
import Primer.Proofs.Token.Tiling

namespace Primer

/-- The token moved `n` bytes to the right. -/
def Token.shift (n : Nat) (t : Token) : Token := { t with span := t.span.shift n }

/-! ### Text that is added behind -/

/-- Blanks and comments stay what they are if something comes behind them, unless that is a
single slash, which might then start a comment. -/
theorem Trivia.split_append_right (m : Trivia) (cs ds : List Char) (hrest : (split m cs).2 ≠ [])
    (hslash : (split m cs).2 ≠ ['/']) :
    split m (cs ++ ds) = ((split m cs).1, (split m cs).2 ++ ds) := by
  fun_induction split m cs with
  | case1 m => exact absurd rfl hrest
  | case2 cs gap rest heq ih =>
    rw [heq] at ih
    simp only [List.cons_append, split, ih hrest hslash]
  | case3 cs gap rest heq ih =>
    rw [heq] at ih
    simp only [List.cons_append, split, ih hrest hslash]
  | case4 c cs hline hblock hblank gap rest heq ih =>
    rw [heq] at ih
    have hc : c ≠ '/' := by
      rintro rfl
      exact absurd hblank (by decide)
    rw [List.cons_append, split]
    · rw [if_pos hblank, ih hrest hslash]
    · exact fun _ h => absurd h hc
    · exact fun _ h => absurd h hc
  | case5 c cs hline hblock hblank =>
    cases cs with
    | nil =>
      have hc : c ≠ '/' := by
        rintro rfl
        exact hslash rfl
      rw [List.cons_append, split]
      · rw [if_neg hblank]
      · exact fun _ h => absurd h hc
      · exact fun _ h => absurd h hc
    | cons d cs =>
      rw [List.cons_append, List.cons_append, split]
      · rw [if_neg hblank]
      · intro cs' hc hd
        exact hline cs hc (by rw [(List.cons.inj hd).1])
      · intro cs' hc hd
        exact hblock cs hc (by rw [(List.cons.inj hd).1])
  | case6 c cs gap rest heq ih =>
    rw [heq] at ih
    simp only [List.cons_append, split, ih hrest hslash]
  | case7 cs gap rest heq ih =>
    rw [heq] at ih
    simp only [List.cons_append, split, ih hrest hslash]
  | case8 c cs hend gap rest heq ih =>
    rw [heq] at ih
    cases cs with
    | nil =>
      cases heq
      exact absurd rfl hrest
    | cons d cs =>
      rw [List.cons_append, split]
      · rw [ih hrest hslash]
      · intro cs' hc hd
        exact hend cs hc (by rw [(List.cons.inj hd).1])

/-- A run of characters that stops before the end of the text stops there again. -/
theorem run_append_right {p : Char → Bool} {cs : List Char} (ds : List Char)
    (h : cs.dropWhile p ≠ []) :
    (cs ++ ds).takeWhile p = cs.takeWhile p ∧ (cs ++ ds).dropWhile p = cs.dropWhile p ++ ds := by
  have hlength : (cs.takeWhile p).length ≠ cs.length := by
    intro heq
    have happend := congrArg List.length (List.takeWhile_append_dropWhile (p := p) (l := cs))
    have hpos := List.length_pos_iff.2 h
    rw [List.length_append, heq] at happend
    omega
  rw [List.takeWhile_append, List.dropWhile_append, if_neg hlength,
    if_neg (mt List.isEmpty_iff.1 h)]
  exact ⟨rfl, rfl⟩

namespace Lexeme

theorem readString_append_right {q : Char} {cs : List Char} (ds : List Char)
    (h : (readString q cs).rest ≠ []) :
    readString q (cs ++ ds) = { readString q cs with rest := (readString q cs).rest ++ ds } := by
  unfold readString at h ⊢
  cases hdrop : cs.dropWhile (· != q) with
  | nil =>
    rw [hdrop] at h
    exact absurd rfl h
  | cons close rest =>
    have hrun := run_append_right ds (by rw [hdrop]; exact List.cons_ne_nil _ _)
    rw [hrun.1, hrun.2, hdrop]
    rfl

theorem read_append_right {c : Char} {cs : List Char} (ds : List Char)
    (h : (read c cs).rest ≠ [] ∨ (punctuator? c).isSome) :
    read c (cs ++ ds) = { read c cs with rest := (read c cs).rest ++ ds } := by
  unfold read at h ⊢
  cases hp : punctuator? c with
  | some kind => rfl
  | none =>
    have h := h.resolve_right (by rw [hp]; exact Bool.noConfusion)
    rw [hp] at h
    dsimp only at h ⊢
    cases hpair : pairing? c with
    | some p =>
      rw [hpair] at h
      cases cs with
      | nil => exact absurd rfl h
      | cons d cs =>
        dsimp only [List.cons_append]
        split <;> rfl
    | none =>
      rw [hpair] at h
      dsimp only at h ⊢
      split at h
      next hq =>
        rw [if_pos hq, if_pos hq]
        exact readString_append_right ds h
      next hq =>
        rw [if_neg hq, if_neg hq]
        split at h
        next hd =>
          have hrun := run_append_right ds h
          rw [if_pos hd, if_pos hd, hrun.1, hrun.2]
          rfl
        next hd =>
          rw [if_neg hd, if_neg hd]
          split at h
          next hl =>
            have hrun := run_append_right ds h
            rw [if_pos hl, if_pos hl, hrun.1, hrun.2]
            rfl
          next hl =>
            rw [if_neg hl, if_neg hl]
            rfl

/-- Only the character by itself is read as a semicolon. -/
theorem punctuator?_of_semicolon {c : Char} {cs : List Char} (h : (read c cs).kind = .semicolon) :
    (punctuator? c).isSome := by
  unfold read at h
  cases hp : punctuator? c with
  | some kind => rfl
  | none =>
    exfalso
    rw [hp] at h
    dsimp only at h
    split at h
    next p hpair =>
      obtain ⟨hpair, halone⟩ := (pairing?_ne hpair).2
      split at h
      · split at h
        · exact hpair h
        · exact halone h
      · exact halone h
    next =>
      split at h
      · unfold readString at h
        split at h <;> exact absurd h nofun
      · split at h
        · exact absurd h nofun
        · split at h
          · exact (TokenKind.ofWord_ne _).2 h
          · exact absurd h nofun

end Lexeme

/-! ### Tokens behind tokens -/

namespace Cursor

variable {c : Cursor}

theorem tokens_of_eof (h : c.next.1.kind = .eof) : c.tokens = [c.next.1] := by
  rw [tokens, dif_pos h]

theorem tokens_of_ne_eof (h : c.next.1.kind ≠ .eof) : c.tokens = c.next.1 :: c.next.2.tokens := by
  rw [tokens, dif_neg h]

theorem tokens_ne_nil (c : Cursor) : c.tokens ≠ [] := by
  rw [tokens]
  split <;> exact List.cons_ne_nil _ _

/-- Reading a token cuts a text off the front. -/
theorem exists_taken (c : Cursor) :
    ∃ text, c.rest = text ++ c.next.2.rest ∧ c.next.2.offset = c.offset + width text := by
  have hsplit := Trivia.split_append .between c.rest
  unfold next skipTrivia
  dsimp only
  split
  next hrest =>
    refine ⟨(Trivia.between.split c.rest).1, ?_, rfl⟩
    rw [hsplit]
  next x xs hrest =>
    refine ⟨(Trivia.between.split c.rest).1 ++ (Lexeme.read x xs).raw, ?_, ?_⟩
    · rw [List.append_assoc, Lexeme.read_append, ← hrest, hsplit]
    · rw [width_append, Nat.add_assoc]

/-- Reading a token and leaving the rest takes nothing away. -/
theorem next_offset_add_width (c : Cursor) :
    c.next.2.offset + width c.next.2.rest = c.offset + width c.rest := by
  obtain ⟨text, hrest, hoffset⟩ := c.exists_taken
  rw [hrest, width_append, hoffset, Nat.add_assoc]

theorem next_span_stop (hne : c.next.1.kind ≠ .eof) : c.next.1.span.stop = c.next.2.offset := by
  unfold next at hne ⊢
  dsimp only at hne ⊢
  split at hne
  next => exact absurd rfl hne
  next => rfl

/-- A token that something follows, or that is a semicolon, is read again if text is added
behind. -/
theorem next_append (ds : List Char) (hne : c.next.1.kind ≠ .eof)
    (h : c.next.2.rest ≠ [] ∨ c.next.1.kind = .semicolon) :
    next ⟨c.offset, c.rest ++ ds⟩ = (c.next.1, ⟨c.next.2.offset, c.next.2.rest ++ ds⟩) := by
  unfold next skipTrivia at hne h ⊢
  dsimp only at hne h ⊢
  cases hrest : (Trivia.between.split c.rest).2 with
  | nil =>
    rw [hrest] at hne
    exact absurd rfl hne
  | cons x xs =>
    rw [hrest] at h
    dsimp only at h
    have hstable : (Lexeme.read x xs).rest ≠ [] ∨ (punctuator? x).isSome :=
      h.imp_right Lexeme.punctuator?_of_semicolon
    have hslash : x :: xs ≠ ['/'] := by
      intro heq
      cases heq
      rcases h with h | h
      · exact h rfl
      · exact absurd h (by decide)
    rw [Trivia.split_append_right .between c.rest ds (by rw [hrest]; exact List.cons_ne_nil _ _)
      (by rw [hrest]; exact hslash), hrest]
    dsimp only [List.cons_append]
    rw [Lexeme.read_append_right ds hstable]

/-- Up to a last semicolon the tokens are the same whatever text is added behind it, where
reading goes on. -/
theorem tokens_append (ds : List Char) {ts : List Token} {t e : Token}
    (htokens : c.tokens = ts ++ [t, e]) (hkind : t.kind = .semicolon)
    (hstop : t.span.stop = c.offset + width c.rest) :
    tokens ⟨c.offset, c.rest ++ ds⟩ =
      ts ++ t :: tokens ⟨c.offset + width c.rest, ds⟩ := by
  induction c using Cursor.tokens.induct generalizing ts with
  | case1 c heof =>
    rw [tokens_of_eof heof] at htokens
    have hlength := congrArg List.length htokens
    simp at hlength
  | case2 c hne ih =>
    rw [tokens_of_ne_eof hne] at htokens
    have hwidth := c.next_offset_add_width
    have hstep (h : c.next.2.rest ≠ [] ∨ c.next.1.kind = .semicolon) :
        tokens ⟨c.offset, c.rest ++ ds⟩ =
          c.next.1 :: tokens ⟨c.next.2.offset, c.next.2.rest ++ ds⟩ := by
      have hnext := next_append ds hne h
      rw [tokens_of_ne_eof (by rw [hnext]; exact hne), hnext]
    cases ts with
    | nil =>
      obtain ⟨rfl, -⟩ := List.cons.inj htokens
      have hoffset := next_span_stop hne
      have hlength := length_le_width c.next.2.rest
      have hrest : c.next.2.rest = [] := List.eq_nil_of_length_eq_zero (by omega)
      rw [hstep (.inr hkind), hrest, ← hoffset, hstop]
      rfl
    | cons a ts =>
      obtain ⟨rfl, htail⟩ := List.cons.inj htokens
      have hrest : c.next.2.rest ≠ [] := by
        intro hnil
        have hlength := congrArg List.length htail
        have heta : c.next.2 = ⟨c.next.2.offset, []⟩ := by rw [← hnil]
        rw [heta, tokens_nil] at hlength
        simp at hlength
      rw [hstep (.inl hrest), ih htail (by omega), hwidth]
      rfl

/-- The tokens of a text are the same wherever it stands, up to their place. -/
theorem tokens_shift (c : Cursor) (n : Nat) :
    tokens ⟨c.offset + n, c.rest⟩ = c.tokens.map (·.shift n) := by
  have hnext (c : Cursor) : next ⟨c.offset + n, c.rest⟩ =
      (c.next.1.shift n, ⟨c.next.2.offset + n, c.next.2.rest⟩) := by
    unfold next skipTrivia Token.shift Span.shift
    dsimp only
    split
    · simp [Nat.add_right_comm]
    · simp [Nat.add_right_comm]
  induction c using Cursor.tokens.induct with
  | case1 c heof =>
    rw [tokens_of_eof (by rw [hnext]; exact heof), tokens_of_eof heof, hnext]
    rfl
  | case2 c hne ih =>
    rw [tokens_of_ne_eof (by rw [hnext]; exact hne), tokens_of_ne_eof hne, hnext, ih]
    rfl

end Cursor

/-- Where the last byte of a source is a semicolon, that token comes last but for the end. -/
theorem lex_eq_of_semicolon {source : String} {t : Token} (ht : t ∈ lex source)
    (hkind : t.kind = .semicolon) (hstop : t.span.stop = source.utf8ByteSize) :
    ∃ ts, lex source =
      ts ++ [t, ⟨.eof, "", ⟨source.utf8ByteSize, source.utf8ByteSize⟩⟩] := by
  have htiling := lex_tiling source
  obtain ⟨init, hlex, hinit⟩ := htiling.ending
  have hmem : t ∈ init := by
    rw [hlex, List.mem_append, List.mem_singleton] at ht
    rcases ht with ht | rfl
    · exact ht
    · exact absurd hkind nofun
  obtain ⟨ts, us, rfl⟩ := List.append_of_mem hmem
  cases us with
  | nil => exact ⟨ts, by rw [hlex]; simp⟩
  | cons u us =>
    -- a token behind it would lie within the source and take room
    have hu : u ∈ lex source := by rw [hlex]; simp
    have hlt := htiling.start_lt_stop u hu (hinit u (by simp))
    have hle := htiling.stop_le u hu
    have hordered := htiling.ordered
    rw [hlex, List.append_assoc, List.pairwise_append] at hordered
    have hbefore : t.span.stop ≤ u.span.start :=
      List.rel_of_pairwise_cons hordered.2.1 (by simp)
    omega

/-- **The tokens of a source that ends in a semicolon, and of any source behind it.** -/
theorem lex_append {p : String} (q : String)
    (h : ∃ t ∈ lex p, t.kind = .semicolon ∧ t.span.stop = p.utf8ByteSize) :
    ∃ ts t, t.kind = .semicolon ∧
      lex p = ts ++ [t, ⟨.eof, "", ⟨p.utf8ByteSize, p.utf8ByteSize⟩⟩] ∧
      lex (p ++ q) = ts ++ t :: (lex q).map (·.shift p.utf8ByteSize) := by
  obtain ⟨t, ht, hkind, hstop⟩ := h
  obtain ⟨ts, hts⟩ := lex_eq_of_semicolon ht hkind hstop
  refine ⟨ts, t, hkind, hts, ?_⟩
  have hwidth : t.span.stop = (Cursor.ofString p).offset + width (Cursor.ofString p).rest := by
    rw [hstop, ← width_toList]
    exact (Nat.zero_add _).symm
  have hshift := (Cursor.ofString q).tokens_shift p.utf8ByteSize
  have hparts : Cursor.ofString (p ++ q) =
      ⟨(Cursor.ofString p).offset, (Cursor.ofString p).rest ++ q.toList⟩ := by
    unfold Cursor.ofString
    rw [String.toList_append]
  unfold lex
  rw [hparts, Cursor.tokens_append q.toList hts hkind hwidth, ← hwidth, hstop, ← hshift]
  unfold Cursor.ofString
  rw [Nat.zero_add]

end Primer
