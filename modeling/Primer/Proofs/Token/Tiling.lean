/-
  Primer/Proofs/Token/Tiling.lean
  ===============================
  **The tokens of a source tile it.**

  A source is cut into tokens and the gaps before them, with nothing left out and nothing read
  twice.  A gap is made of blanks and comments (`IsTrivia`); a token's literal is the text at
  its span, without the quotes if it is a string (`Token.StandsIn`).  `Tiling` says so step by
  step, from one offset on, and is what a token adds to the tokens behind it; that spans are in
  order and within the source follows from it by induction.

  Offsets count bytes while texts are lists of characters.  A span is therefore always given
  with the characters before it, in it and behind it (`Span.Cuts`), so that its ends lie between
  characters.
-/
import Primer.Proofs.Token.Words

namespace Primer

/-! ### Pieces of a source -/

/-- The source is `before`, `text` and `after`, and `text` takes the bytes of `span`. -/
structure Span.Cuts (source : String) (span : Span) (before text after : List Char) : Prop where
  parts : source.toList = before ++ (text ++ after)
  start : width before = span.start
  stop : width before + width text = span.stop

/-- The text stands in the source at that span. -/
def Span.Holds (source : String) (span : Span) (text : List Char) : Prop :=
  ∃ before after, span.Cuts source before text after

/-- The offset lies between two characters, or at an end of the source. -/
def IsBoundary (source : String) (offset : Nat) : Prop :=
  String.Pos.Raw.IsValid source ⟨offset⟩

theorem width_toList (source : String) : width source.toList = source.utf8ByteSize := by
  rw [← utf8ByteSize_ofList, String.ofList_toList]

namespace Span

variable {source : String} {span : Span} {before text after : List Char}

theorem Cuts.stop_le (h : span.Cuts source before text after) :
    span.stop ≤ source.utf8ByteSize := by
  have hparts := congrArg width h.parts
  have hstop := h.stop
  rw [width_toList, width_append, width_append] at hparts
  omega

theorem Cuts.start_le_stop (h : span.Cuts source before text after) : span.start ≤ span.stop := by
  have hstart := h.start
  have hstop := h.stop
  omega

theorem Cuts.isBoundary_start (h : span.Cuts source before text after) :
    IsBoundary source span.start := by
  apply String.Pos.Raw.isValid_iff_exists_append.2
  refine ⟨String.ofList before, String.ofList (text ++ after), ?_, ?_⟩
  · rw [← String.ofList_append, ← h.parts, String.ofList_toList]
  · rw [String.rawEndPos, utf8ByteSize_ofList, h.start]

theorem Cuts.isBoundary_stop (h : span.Cuts source before text after) :
    IsBoundary source span.stop := by
  have h' : Cuts source ⟨span.stop, span.stop⟩ (before ++ text) [] after := by
    refine ⟨?_, ?_, ?_⟩
    · rw [h.parts, List.nil_append, List.append_assoc]
    · rw [width_append, h.stop]
    · rw [width_append, h.stop]
      rfl
  exact h'.isBoundary_start

end Span

/-! ### Blanks and comments -/

/-- The text is blanks and comments, one after another, and stands before `rest`.  A line
comment ends before a newline or with the source, and a block comment ends at the first `*/`;
only at the end of the source may that be missing. -/
inductive IsTrivia : List Char → List Char → Prop
  | nil {rest : List Char} : IsTrivia [] rest
  | blank {c : Char} {gap rest : List Char} :
      Trivia.isBlank c = true → IsTrivia gap rest → IsTrivia (c :: gap) rest
  | line {body gap rest : List Char} :
      '\n' ∉ body → (∀ c ∈ (gap ++ rest).head?, c = '\n') → IsTrivia gap rest →
      IsTrivia ('/' :: '/' :: (body ++ gap)) rest
  | block {body gap rest : List Char} :
      ¬['*', '/'] <:+: body → IsTrivia gap rest →
      IsTrivia ('/' :: '*' :: (body ++ '*' :: '/' :: gap)) rest
  | unclosed {body : List Char} : ¬['*', '/'] <:+: body → IsTrivia ('/' :: '*' :: body) []

namespace Trivia

/-- What is cut off the front of a text: trivia, or the rest of a comment and trivia behind it. -/
def Cut : Trivia → List Char → List Char → Prop
  | between, gap, rest => IsTrivia gap rest
  | line, gap, rest => ∃ body tail, gap = body ++ tail ∧ '\n' ∉ body ∧
      (∀ c ∈ (tail ++ rest).head?, c = '\n') ∧ IsTrivia tail rest
  | block, gap, rest =>
      (∃ body tail, gap = body ++ '*' :: '/' :: tail ∧ ¬['*', '/'] <:+: body ∧ IsTrivia tail rest) ∨
      ¬['*', '/'] <:+: gap ∧ rest = []

theorem not_pair_infix_cons {a b c : Char} {cs : List Char} (h : ¬[a, b] <:+: cs)
    (hc : c = a → b ∉ cs.head?) : ¬[a, b] <:+: c :: cs := by
  intro hinfix
  rcases List.infix_cons_iff.1 hinfix with hfront | hinfix
  · obtain ⟨rfl, ds, rfl⟩ := List.cons_prefix_cons.1 hfront
    exact hc rfl rfl
  · exact h hinfix

theorem split_cut (m : Trivia) (cs : List Char) : m.Cut (split m cs).1 (split m cs).2 := by
  fun_induction split m cs with
  | case1 m =>
    cases m with
    | between => exact .nil
    | line => exact ⟨[], [], rfl, List.not_mem_nil, by simp, .nil⟩
    | block =>
      refine .inr ⟨fun h => ?_, rfl⟩
      exact absurd (List.infix_nil.1 h) (List.cons_ne_nil _ _)
  | case2 cs gap rest heq ih =>
    simp only [heq, Cut] at ih ⊢
    obtain ⟨body, tail, rfl, hbody, hnext, htail⟩ := ih
    exact .line hbody hnext htail
  | case3 cs gap rest heq ih =>
    simp only [heq, Cut] at ih ⊢
    rcases ih with ⟨body, tail, rfl, hbody, htail⟩ | ⟨hbody, rfl⟩
    · exact .block hbody htail
    · exact .unclosed hbody
  | case4 c cs _ _ hblank gap rest heq ih =>
    simp only [heq, Cut] at ih ⊢
    exact .blank hblank ih
  | case5 => exact .nil
  | case6 c cs gap rest heq ih =>
    by_cases hc : c = '\n'
    · subst hc
      rw [if_pos (beq_self_eq_true _)] at heq ih
      rw [heq] at ih
      exact ⟨[], _, rfl, List.not_mem_nil, fun _ h => (Option.some.inj h).symm, .blank rfl ih⟩
    · rw [if_neg (by simpa using hc)] at heq ih
      rw [heq] at ih
      obtain ⟨body, tail, rfl, hbody, hnext, htail⟩ := ih
      refine ⟨c :: body, tail, rfl, ?_, hnext, htail⟩
      rw [List.mem_cons]
      rintro (h | h)
      · exact hc h.symm
      · exact hbody h
  | case7 cs gap rest heq ih =>
    simp only [heq, Cut] at ih ⊢
    refine .inl ⟨[], gap, rfl, fun h => ?_, ih⟩
    exact absurd (List.infix_nil.1 h) (List.cons_ne_nil _ _)
  | case8 c cs hend gap rest heq ih =>
    have happend := split_append block cs
    rw [heq] at happend ih
    -- the first character of the comment's body is the one that was looked at
    have hhead : ∀ {body tail : List Char}, cs = body ++ tail → c = '*' → '/' ∉ body.head? := by
      intro body tail hcs hc hslash
      cases body with
      | nil => cases hslash
      | cons d body =>
        cases hslash
        exact hend (body ++ tail) hc hcs
    rcases ih with ⟨body, tail, rfl, hbody, htail⟩ | ⟨hbody, rfl⟩
    · refine .inl ⟨c :: body, tail, rfl, not_pair_infix_cons hbody ?_, htail⟩
      exact hhead (happend.symm.trans (List.append_assoc ..))
    · exact .inr ⟨not_pair_infix_cons hbody (hhead happend.symm), rfl⟩

end Trivia

/-! ### Lexemes -/

theorem TokenKind.ofWord_ne (word : String) :
    (ofWord word ≠ .eof ∧ ofWord word ≠ .string) ∧ ofWord word ≠ .semicolon := by
  unfold ofWord keywords
  simp only [List.lookup_cons, List.lookup_nil]
  repeat' split
  all_goals decide

theorem punctuator?_ne {c : Char} {kind : TokenKind} (h : punctuator? c = some kind) :
    kind ≠ .eof ∧ kind ≠ .string := by
  unfold punctuator? at h
  split at h
  all_goals
    cases h
    try decide

theorem pairing?_ne {c : Char} {p : Pairing} (h : pairing? c = some p) :
    ((p.pair ≠ .eof ∧ p.pair ≠ .string) ∧ p.alone ≠ .eof ∧ p.alone ≠ .string) ∧
      p.pair ≠ .semicolon ∧ p.alone ≠ .semicolon := by
  unfold pairing? at h
  split at h
  all_goals
    cases h
    try decide

namespace Lexeme

/-- The lexeme stands for the text that was cut off; a string stands for what is between its
quotes, and only the end of the source can take the place of the second one. -/
def Stands (l : Lexeme) : Prop :=
  if l.kind = .string then
    ∃ quote, isQuote quote = true ∧ quote ∉ l.literal ∧
      (l.raw = quote :: (l.literal ++ [quote]) ∨ l.raw = quote :: l.literal ∧ l.rest = [])
  else l.raw = l.literal

theorem stands_plain {kind : TokenKind} (h : kind ≠ .eof ∧ kind ≠ .string) (raw rest : List Char) :
    (plain kind raw rest).kind ≠ .eof ∧ (plain kind raw rest).Stands := by
  unfold Stands plain
  rw [if_neg h.2]
  exact ⟨h.1, rfl⟩

theorem stands_readString {quote : Char} (h : isQuote quote = true) (cs : List Char) :
    (readString quote cs).Stands := by
  have hbody : quote ∉ cs.takeWhile (· != quote) := by
    intro hmem
    have hne := List.all_eq_true.1 (List.all_takeWhile (p := (· != quote)) (l := cs)) quote hmem
    simp at hne
  unfold readString
  split
  next hdrop => exact ⟨quote, h, hbody, .inr ⟨rfl, rfl⟩⟩
  next close rest hdrop =>
    have hclose : close = quote := by
      have hhead := List.head_dropWhile_not (p := (· != quote)) (l := cs) (by simp [hdrop])
      simpa [hdrop] using hhead
    subst hclose
    exact ⟨close, h, hbody, .inl rfl⟩

/-- No lexeme is read as the end of the source, and each stands for its text. -/
theorem read_stands (c : Char) (cs : List Char) :
    (read c cs).kind ≠ .eof ∧ (read c cs).Stands := by
  unfold read
  split
  next kind h => exact stands_plain (punctuator?_ne h) _ _
  next =>
    split
    next p h =>
      obtain ⟨hpair, halone⟩ := (pairing?_ne h).1
      split
      · split
        · exact stands_plain hpair _ _
        · exact stands_plain halone _ _
      · exact stands_plain halone _ _
    next =>
      split
      next hquote =>
        refine ⟨?_, stands_readString hquote cs⟩
        unfold readString
        split <;> exact nofun
      next =>
        split
        · exact stands_plain (by decide) _ _
        · split
          · exact stands_plain (TokenKind.ofWord_ne _).1 _ _
          · exact stands_plain (by decide) _ _

end Lexeme

/-! ### Tilings -/

namespace Token

/-- The span of the literal, which for a string starts behind the first quote. -/
def literalSpan (t : Token) : Span :=
  if t.kind = .string then ⟨t.span.start + 1, t.span.start + 1 + width t.literal.toList⟩ else t.span

/-- The literal is the text of the source at the token's span; for a string, that text without
the quote before it and, unless the source ends there, without the same quote behind it. -/
def StandsIn (source : String) (t : Token) : Prop :=
  if t.kind = .string then
    ∃ quote, isQuote quote = true ∧ quote ∉ t.literal.toList ∧
      (t.span.Holds source (quote :: (t.literal.toList ++ [quote])) ∨
        t.span.Holds source (quote :: t.literal.toList) ∧ t.span.stop = source.utf8ByteSize)
  else t.span.Holds source t.literal.toList

variable {source : String} {t : Token}

theorem StandsIn.holds (h : t.StandsIn source) : ∃ text, t.span.Holds source text := by
  unfold StandsIn at h
  split at h
  · obtain ⟨quote, -, -, h | ⟨h, -⟩⟩ := h
    · exact ⟨_, h⟩
    · exact ⟨_, h⟩
  · exact ⟨_, h⟩

theorem utf8Size_of_isQuote {quote : Char} (h : isQuote quote = true) : quote.utf8Size = 1 := by
  unfold isQuote at h
  simp only [Bool.or_eq_true, beq_iff_eq] at h
  rcases h with rfl | rfl <;> rfl

theorem StandsIn.literal_holds (h : t.StandsIn source) :
    t.literalSpan.Holds source t.literal.toList := by
  unfold StandsIn at h
  unfold literalSpan
  split at h
  next hk =>
    rw [if_pos hk]
    obtain ⟨quote, hquote, -, h⟩ := h
    have hsize := utf8Size_of_isQuote hquote
    -- the literal stands between the first quote and whatever text is behind it
    have hbehind (rest : List Char)
        (h : t.span.Holds source (quote :: (t.literal.toList ++ rest))) :
        Span.Holds source ⟨t.span.start + 1, t.span.start + 1 + width t.literal.toList⟩
          t.literal.toList := by
      obtain ⟨before, after, h⟩ := h
      have hstart : width (before ++ [quote]) = t.span.start + 1 := by
        rw [width_append, h.start, width, hsize]
        rfl
      refine ⟨before ++ [quote], rest ++ after, ?_, hstart, ?_⟩
      · rw [h.parts]
        simp
      · rw [hstart]
    rcases h with h | ⟨h, -⟩
    · exact hbehind _ h
    · exact hbehind [] (by rwa [List.append_nil])
  next hk =>
    rw [if_neg hk]
    exact h

end Token

/-- Between those two offsets the source has nothing but blanks and comments. -/
def TriviaBetween (source : String) (start stop : Nat) : Prop :=
  ∃ before gap after, Span.Cuts source ⟨start, stop⟩ before gap after ∧ IsTrivia gap after

/-- From that offset on the source consists of the tokens and the gaps before them. -/
inductive Tiling (source : String) : Nat → List Token → Prop
  | last {offset : Nat} : TriviaBetween source offset source.utf8ByteSize →
      Tiling source offset [⟨.eof, "", ⟨source.utf8ByteSize, source.utf8ByteSize⟩⟩]
  | cons {offset : Nat} {t : Token} {ts : List Token} :
      TriviaBetween source offset t.span.start → t.kind ≠ .eof → t.span.start < t.span.stop →
      t.StandsIn source → Tiling source t.span.stop ts → Tiling source offset (t :: ts)

namespace Cursor

/-- The cursor is a place in that source. -/
def In (source : String) (c : Cursor) : Prop :=
  ∃ before, source.toList = before ++ c.rest ∧ width before = c.offset

variable {source : String} {c : Cursor}

theorem In.offset_add_width (h : c.In source) : c.offset + width c.rest = source.utf8ByteSize := by
  obtain ⟨before, hparts, hoffset⟩ := h
  rw [← width_toList, hparts, width_append, hoffset]

/-- The characters in front of a place, cut off, make a piece of the source. -/
theorem In.cuts {text rest : List Char} (h : c.In source) (hrest : c.rest = text ++ rest) :
    ∃ before, Span.Cuts source ⟨c.offset, c.offset + width text⟩ before text rest ∧
      In source ⟨c.offset + width text, rest⟩ := by
  obtain ⟨before, hparts, hoffset⟩ := h
  rw [hrest] at hparts
  refine ⟨before, ⟨hparts, hoffset, by rw [hoffset]⟩, before ++ text, ?_, ?_⟩
  · rw [hparts, List.append_assoc]
  · rw [width_append, hoffset]

theorem In.skipTrivia (h : c.In source) :
    c.skipTrivia.In source ∧ TriviaBetween source c.offset c.skipTrivia.offset := by
  have happend := Trivia.split_append .between c.rest
  obtain ⟨before, hcuts, hin⟩ := h.cuts happend.symm
  exact ⟨hin, before, _, _, hcuts, Trivia.split_cut .between c.rest⟩

/-- What one token does: it is the end, or it takes its text off the front. -/
theorem In.next (h : c.In source) :
    TriviaBetween source c.offset c.next.1.span.start ∧
      (c.next.1 = ⟨.eof, "", ⟨source.utf8ByteSize, source.utf8ByteSize⟩⟩ ∨
        c.next.1.kind ≠ .eof ∧ c.next.1.span.start < c.next.1.span.stop ∧
        c.next.1.StandsIn source ∧ c.next.2.offset = c.next.1.span.stop ∧ c.next.2.In source) := by
  obtain ⟨hin, hgap⟩ := h.skipTrivia
  unfold Cursor.next
  generalize c.skipTrivia = d at hin hgap
  obtain ⟨offset, rest⟩ := d
  cases rest with
  | nil =>
    have hend : offset + 0 = source.utf8ByteSize := hin.offset_add_width
    rw [Nat.add_zero] at hend
    subst hend
    exact ⟨hgap, .inl rfl⟩
  | cons x xs =>
    refine ⟨hgap, .inr ?_⟩
    obtain ⟨hkind, hstands⟩ := Lexeme.read_stands x xs
    have hraw := Lexeme.read_raw_ne_nil x xs
    obtain ⟨before, hcuts, hin'⟩ := hin.cuts (Lexeme.read_append x xs).symm
    have hpos : 0 < width (Lexeme.read x xs).raw :=
      Nat.lt_of_lt_of_le (List.length_pos_iff.2 hraw) (length_le_width _)
    refine ⟨hkind, Nat.lt_add_of_pos_right hpos, ?_, rfl, hin'⟩
    have hholds : Span.Holds source ⟨offset, offset + width (Lexeme.read x xs).raw⟩
        (Lexeme.read x xs).raw := ⟨before, _, hcuts⟩
    unfold Lexeme.Stands at hstands
    unfold Token.StandsIn
    simp only [String.toList_ofList]
    split at hstands
    next hk =>
      rw [if_pos hk]
      obtain ⟨quote, hquote, hliteral, hraw | ⟨hraw, hrest⟩⟩ := hstands
      · rw [hraw] at hholds ⊢
        exact ⟨quote, hquote, hliteral, .inl hholds⟩
      · have hend := hin'.offset_add_width
        rw [hrest] at hend
        rw [hraw] at hholds hend ⊢
        exact ⟨quote, hquote, hliteral, .inr ⟨hholds, hend⟩⟩
    next hk =>
      rw [if_neg hk, ← hstands]
      exact hholds

theorem In.tiling (h : c.In source) : Tiling source c.offset c.tokens := by
  induction c using Cursor.tokens.induct with
  | case1 c heof =>
    rw [Cursor.tokens, dif_pos heof]
    obtain ⟨hgap, hend | ⟨hne, -⟩⟩ := h.next
    · rw [hend] at hgap ⊢
      exact .last hgap
    · exact absurd heof hne
  | case2 c heof ih =>
    rw [Cursor.tokens, dif_neg heof]
    obtain ⟨hgap, hend | ⟨hne, hlt, hstands, hoffset, hin⟩⟩ := h.next
    · rw [hend] at heof
      exact absurd rfl heof
    · have htail := ih hin
      rw [hoffset] at htail
      exact .cons hgap hne hlt hstands htail

end Cursor

theorem lex_tiling (source : String) : Tiling source 0 (lex source) := by
  have hin : (Cursor.ofString source).In source := ⟨[], rfl, rfl⟩
  exact hin.tiling

/-! ### What follows for all tokens -/

theorem TriviaBetween.le {source : String} {start stop : Nat}
    (h : TriviaBetween source start stop) : start ≤ stop := by
  obtain ⟨before, gap, after, hcuts, -⟩ := h
  exact hcuts.start_le_stop

/-- Before each token, from the offset on, there are only blanks and comments. -/
def GapsBetween (source : String) : Nat → List Token → Prop
  | _, [] => True
  | offset, t :: ts => TriviaBetween source offset t.span.start ∧ GapsBetween source t.span.stop ts

namespace Tiling

variable {source : String} {offset : Nat} {ts : List Token}

theorem gaps (h : Tiling source offset ts) : GapsBetween source offset ts := by
  induction h with
  | last hgap => exact ⟨hgap, trivial⟩
  | cons hgap _ _ _ _ ih => exact ⟨hgap, ih⟩

theorem ending (h : Tiling source offset ts) :
    ∃ init, ts = init ++ [⟨.eof, "", ⟨source.utf8ByteSize, source.utf8ByteSize⟩⟩] ∧
      ∀ t ∈ init, t.kind ≠ .eof := by
  induction h with
  | last => exact ⟨[], rfl, nofun⟩
  | @cons offset t ts _ hne _ _ _ ih =>
    obtain ⟨init, rfl, hinit⟩ := ih
    exact ⟨t :: init, rfl, List.forall_mem_cons.2 ⟨hne, hinit⟩⟩

theorem le_start (h : Tiling source offset ts) : ∀ t ∈ ts, offset ≤ t.span.start := by
  induction h with
  | last hgap => exact List.forall_mem_singleton.2 hgap.le
  | cons hgap _ hlt _ _ ih =>
    refine List.forall_mem_cons.2 ⟨hgap.le, fun u hu => ?_⟩
    have hu := ih u hu
    have hle := hgap.le
    omega

theorem ordered (h : Tiling source offset ts) :
    ts.Pairwise fun t u => t.span.stop ≤ u.span.start := by
  induction h with
  | last => exact List.pairwise_singleton _ _
  | cons _ _ _ _ htail ih => exact List.pairwise_cons.2 ⟨htail.le_start, ih⟩

theorem stands (h : Tiling source offset ts) : ∀ t ∈ ts, t.StandsIn source := by
  induction h with
  | last =>
    intro t ht
    rw [List.mem_singleton.1 ht]
    exact ⟨source.toList, [], (List.append_nil _).symm, width_toList source, width_toList source⟩
  | cons _ _ _ hstands _ ih => exact List.forall_mem_cons.2 ⟨hstands, ih⟩

theorem start_lt_stop (h : Tiling source offset ts) :
    ∀ t ∈ ts, t.kind ≠ .eof → t.span.start < t.span.stop := by
  induction h with
  | last => exact List.forall_mem_singleton.2 fun hne => absurd rfl hne
  | cons _ _ hlt _ _ ih => exact List.forall_mem_cons.2 ⟨fun _ => hlt, ih⟩

theorem stop_le (h : Tiling source offset ts) : ∀ t ∈ ts, t.span.stop ≤ source.utf8ByteSize := by
  intro t ht
  obtain ⟨text, before, after, hcuts⟩ := (h.stands t ht).holds
  exact hcuts.stop_le

theorem start_le_stop (h : Tiling source offset ts) : ∀ t ∈ ts, t.span.start ≤ t.span.stop := by
  intro t ht
  obtain ⟨text, before, after, hcuts⟩ := (h.stands t ht).holds
  exact hcuts.start_le_stop

end Tiling

/-- **The tokens of a source tile it.**  The last token, and no other, is the end of the source,
and its span is the end of the source.  Spans lie within the source, one behind the other, and
only that of the end is empty; their ends, and those of the literals in them, are boundaries of
characters.  Each token stands for the text at its span.  Before each token there are only blanks
and comments. -/
theorem lex_tiles (source : String) :
    (∃ init, lex source = init ++ [⟨.eof, "", ⟨source.utf8ByteSize, source.utf8ByteSize⟩⟩] ∧
      ∀ t ∈ init, t.kind ≠ .eof) ∧
    (∀ t ∈ lex source, (t.kind ≠ .eof → t.span.start < t.span.stop) ∧
      t.span.stop ≤ source.utf8ByteSize) ∧
    (lex source).Pairwise (fun t u => t.span.stop ≤ u.span.start) ∧
    (∀ t ∈ lex source, ∀ n ∈ [t.span.start, t.span.stop, t.literalSpan.start, t.literalSpan.stop],
      IsBoundary source n) ∧
    (∀ t ∈ lex source, t.StandsIn source ∧ t.literalSpan.Holds source t.literal.toList) ∧
    GapsBetween source 0 (lex source) := by
  have h := lex_tiling source
  refine ⟨h.ending, fun t ht => ⟨h.start_lt_stop t ht, h.stop_le t ht⟩, h.ordered, ?_, ?_, h.gaps⟩
  · intro t ht n hn
    obtain ⟨text, before, after, hcuts⟩ := (h.stands t ht).holds
    obtain ⟨before', after', hcuts'⟩ := (h.stands t ht).literal_holds
    simp only [List.mem_cons, List.not_mem_nil, or_false] at hn
    rcases hn with rfl | rfl | rfl | rfl
    · exact hcuts.isBoundary_start
    · exact hcuts.isBoundary_stop
    · exact hcuts'.isBoundary_start
    · exact hcuts'.isBoundary_stop
  · intro t ht
    exact ⟨h.stands t ht, (h.stands t ht).literal_holds⟩

end Primer
