/-
  Primer/Proofs/Token/LongestMatch.lean
  =====================================
  **There is only one way to cut a source into tokens.**

  `TokenKind.Matches` says what a token of each kind is, by its own text and the texts before and
  behind it: a word or a number is a run that goes on at neither side, an operator that could be
  half of a longer one is not, a slash does not open a comment, a string ends at the next quote of
  its kind, and an illegal character starts nothing.  The kinds are described one by one, and not
  by what is tried first.

  Every choice is forced.  Where a token matches, no blank or comment starts and reading finds the
  token (`TokenKind.Matches.found`), so the gap before it is as long as it can be
  (`IsTrivia.split_eq`), and what tiles a source is what is read of it (`Tiling.eq_tokens`).
  Conversely the tokens that are read match (`Lexeme.read_matches`); that a word or a number does
  not go on from what is before it is carried along as an invariant of the cursor (`Cursor.Apart`).
  So the tokens of a source are the only ones that tile it (`lex_only_tiling`).
-/
import Primer.Proofs.Token.Append

namespace Primer

/-! ### What a token of each kind is -/

/-- A run of characters of a class that goes on neither before it nor behind it. -/
structure IsRun (p : Char → Bool) (before run after : List Char) : Prop where
  ne_nil : run ≠ []
  all : ∀ c ∈ run, p c
  start : ∀ c ∈ before.getLast?, p c = false
  stop : ∀ c ∈ after.head?, p c = false

namespace TokenKind

/-- The kinds of the eight reserved words. -/
def reserved : List TokenKind :=
  [functionKw, letKw, constKw, returnKw, ifKw, elseKw, trueKw, falseKw]

/-- The kinds of signs that are the same whatever follows them. -/
def fixed : List TokenKind :=
  [plus, minus, asterisk, comma, colon, semicolon, lparen, rparen, lbrace, rbrace, lbracket,
    rbracket, eq, notEq, lte, gte, and, or]

/-- The kinds of signs that an equals sign behind them would make another sign of. -/
def extensible : List TokenKind := [assign, bang, lt, gt]

end TokenKind

/-- Does a word, a number, a string or a sign start with the character? -/
def StartsToken (c : Char) : Prop :=
  isLetter c ∨ isDigit c ∨ isQuote c ∨ ∃ k : TokenKind, c ∈ k.spelling.toList.head?

/-- The text `raw` between `before` and `after` is a token of that kind. -/
inductive TokenKind.Matches (before : List Char) : TokenKind → List Char → List Char → Prop
  | word {raw after : List Char} : IsRun isLetter before raw after →
      (∀ k ∈ reserved, raw ≠ k.spelling.toList) → Matches before .ident raw after
  | reserved {k : TokenKind} {after : List Char} : k ∈ reserved →
      IsRun isLetter before k.spelling.toList after → Matches before k k.spelling.toList after
  | number {raw after : List Char} : IsRun isDigit before raw after → Matches before .int raw after
  /-- up to the next quote of the same kind -/
  | string {quote : Char} {body after : List Char} : isQuote quote → quote ∉ body →
      Matches before .string (quote :: (body ++ [quote])) after
  /-- up to the end of the source -/
  | unclosed {quote : Char} {body : List Char} : isQuote quote → quote ∉ body →
      Matches before .string (quote :: body) []
  | fixed {k : TokenKind} {after : List Char} : k ∈ fixed →
      Matches before k k.spelling.toList after
  | extensible {k : TokenKind} {after : List Char} : k ∈ extensible → after.head? ≠ some '=' →
      Matches before k k.spelling.toList after
  /-- neither `//` nor `/*` -/
  | slash {after : List Char} : after.head? ≠ some '/' → after.head? ≠ some '*' →
      Matches before .slash ['/'] after
  /-- half of `&&` or `||` -/
  | half {c : Char} {after : List Char} : c = '&' ∨ c = '|' → after.head? ≠ some c →
      Matches before .illegal [c] after
  | illegal {c : Char} {after : List Char} : Trivia.isBlank c = false → ¬StartsToken c →
      Matches before .illegal [c] after

/-- The token is one of its kind where it stands in the source. -/
def Token.IsExact (source : String) (t : Token) : Prop :=
  ∃ before raw after, t.span.Cuts source before raw after ∧ t.kind.Matches before raw after

/-! ### Gaps are skipped whole -/

namespace Trivia

theorem split_blank {c : Char} (h : isBlank c) (cs : List Char) :
    between.split (c :: cs) = (c :: (between.split cs).1, (between.split cs).2) := by
  have hc : c ≠ '/' := by
    rintro rfl
    exact absurd h (by decide)
  rw [split]
  · simp [h]
  · exact fun _ heq => absurd heq hc
  · exact fun _ heq => absurd heq hc

/-- A line comment goes on to the next newline. -/
theorem split_line_append {body tail : List Char} (hbody : '\n' ∉ body)
    (htail : ∀ c ∈ tail.head?, c = '\n') :
    line.split (body ++ tail) = (body ++ (between.split tail).1, (between.split tail).2) := by
  induction body with
  | nil =>
    cases tail with
    | nil => rfl
    | cons c tail =>
      obtain rfl := htail c rfl
      rfl
  | cons c body ih =>
    rw [List.mem_cons, not_or] at hbody
    have hc : (c == '\n') = false := by simpa using Ne.symm hbody.1
    simp [split, hc, ih hbody.2]

/-- Inside a block comment nothing closes it but the first `*/`. -/
theorem split_block_cons {c : Char} {cs : List Char} (h : ∀ ds, c = '*' → cs ≠ '/' :: ds) :
    block.split (c :: cs) = (c :: (block.split cs).1, (block.split cs).2) := by
  rw [split]
  exact fun ds hc hcs => h ds hc hcs

theorem not_pair_infix_of_cons {a b c : Char} {cs : List Char} (h : ¬[a, b] <:+: c :: cs) :
    ¬[a, b] <:+: cs ∧ ∀ ds, c = a → cs ≠ b :: ds := by
  constructor
  · exact fun hcs => h (hcs.trans (List.suffix_cons c cs).isInfix)
  · rintro ds rfl rfl
    exact h ⟨[], ds, rfl⟩

theorem split_block_append {body : List Char} (hbody : ¬['*', '/'] <:+: body) (tail : List Char) :
    block.split (body ++ '*' :: '/' :: tail) =
      (body ++ '*' :: '/' :: (between.split tail).1, (between.split tail).2) := by
  induction body with
  | nil => rfl
  | cons c body ih =>
    obtain ⟨hbody, hfirst⟩ := not_pair_infix_of_cons hbody
    rw [List.cons_append, split_block_cons, ih hbody]
    · rfl
    · intro ds hc heq
      cases body with
      | nil => cases heq
      | cons d body => exact hfirst body hc (by rw [(List.cons.inj heq).1])

theorem split_block_unclosed {body : List Char} (hbody : ¬['*', '/'] <:+: body) :
    block.split body = (body, []) := by
  induction body with
  | nil => rfl
  | cons c body ih =>
    obtain ⟨hbody, hfirst⟩ := not_pair_infix_of_cons hbody
    rw [split_block_cons hfirst, ih hbody]

end Trivia

/-- Blanks and comments are skipped, and then what is skipped of the text behind them. -/
theorem IsTrivia.split_append {gap rest : List Char} (h : IsTrivia gap rest) :
    Trivia.between.split (gap ++ rest) =
      (gap ++ (Trivia.between.split rest).1, (Trivia.between.split rest).2) := by
  induction h with
  | nil => rfl
  | blank hblank _ ih => rw [List.cons_append, Trivia.split_blank hblank, ih, List.cons_append]
  | line hbody hnext _ ih =>
    have hline := Trivia.split_line_append hbody hnext
    rw [ih] at hline
    simp [Trivia.split, hline]
  | @block _ gap rest hbody _ ih =>
    have hblock := Trivia.split_block_append hbody (gap ++ rest)
    rw [ih] at hblock
    simp [Trivia.split, hblock]
  | unclosed hbody => simp [Trivia.split, Trivia.split_block_unclosed hbody]

/-- Blanks and comments before a text that starts with neither are all that is skipped there. -/
theorem IsTrivia.split_eq {gap rest : List Char} (h : IsTrivia gap rest)
    (hrest : Trivia.between.split rest = ([], rest)) :
    Trivia.between.split (gap ++ rest) = (gap, rest) := by
  rw [h.split_append, hrest, List.append_nil]

/-! ### Where a token matches, reading finds it -/

namespace IsRun

variable {p : Char → Bool} {before run after : List Char}

theorem takeWhile_eq (h : IsRun p before run after) : (run ++ after).takeWhile p = run := by
  rw [List.takeWhile_append_of_pos h.all]
  cases after with
  | nil => simp
  | cons c after => simp [h.stop c rfl]

theorem dropWhile_eq (h : IsRun p before run after) : (run ++ after).dropWhile p = after := by
  rw [List.dropWhile_append_of_pos h.all]
  cases after with
  | nil => rfl
  | cons c after => simp [h.stop c rfl]

/-- A run starts with a character of the class, and the rest of it is what follows of the class. -/
theorem exists_cons (h : IsRun p before run after) :
    ∃ c cs, run = c :: cs ∧ p c ∧ (cs ++ after).takeWhile p = cs ∧
      (cs ++ after).dropWhile p = after := by
  obtain ⟨c, cs, rfl⟩ := List.exists_cons_of_ne_nil h.ne_nil
  have hc := h.all c List.mem_cons_self
  have htake := h.takeWhile_eq
  have hdrop := h.dropWhile_eq
  simp only [List.cons_append, List.takeWhile_cons, List.dropWhile_cons, hc, if_true,
    List.cons.injEq, true_and] at htake hdrop
  exact ⟨c, cs, rfl, hc, htake, hdrop⟩

end IsRun

/-- The lexeme at the front of `raw ++ after` is `raw`, of that kind, and nothing is skipped
before it. -/
structure Lexeme.Found (k : TokenKind) (raw after : List Char) : Prop where
  split : Trivia.between.split (raw ++ after) = ([], raw ++ after)
  read : ∃ c cs, raw = c :: cs ∧ (Lexeme.read c (cs ++ after)).kind = k ∧
    (Lexeme.read c (cs ++ after)).raw = raw ∧ (Lexeme.read c (cs ++ after)).rest = after

theorem found_word {before raw after : List Char} (h : IsRun isLetter before raw after) :
    Lexeme.Found (.ofWord (String.ofList raw)) raw after := by
  obtain ⟨c, cs, rfl, hc, htake, hdrop⟩ := h.exists_cons
  obtain ⟨h₁, h₂, h₃, h₄, h₅⟩ := not_sign (not_mem_signs (by decide) hc)
  have hread : Lexeme.read c (cs ++ after) =
      .plain (.ofWord (String.ofList (c :: cs))) (c :: cs) after := by
    simp [Lexeme.read, h₁, h₂, h₃, hc, isDigit_of_isLetter hc, htake, hdrop]
  refine ⟨Trivia.split_of_not_blank h₄ h₅, c, cs, rfl, ?_⟩
  simp [hread, Lexeme.plain]

theorem found_number {before raw after : List Char} (h : IsRun isDigit before raw after) :
    Lexeme.Found .int raw after := by
  obtain ⟨c, cs, rfl, hc, htake, hdrop⟩ := h.exists_cons
  obtain ⟨h₁, h₂, h₃, h₄, h₅⟩ := not_sign (not_mem_signs (by decide) hc)
  have hread : Lexeme.read c (cs ++ after) = .plain .int (c :: cs) after := by
    simp [Lexeme.read, h₁, h₂, h₃, hc, htake, hdrop]
  refine ⟨Trivia.split_of_not_blank h₄ h₅, c, cs, rfl, ?_⟩
  simp [hread, Lexeme.plain]

theorem isQuote_iff {c : Char} : isQuote c ↔ c = '"' ∨ c = '\'' := by
  simp [isQuote]

theorem read_quote {quote : Char} (h : isQuote quote) (cs : List Char) :
    Trivia.between.split (quote :: cs) = ([], quote :: cs) ∧
      Lexeme.read quote cs = Lexeme.readString quote cs := by
  rcases isQuote_iff.1 h with rfl | rfl
  · exact ⟨Trivia.split_of_not_blank rfl nofun, rfl⟩
  · exact ⟨Trivia.split_of_not_blank rfl nofun, rfl⟩

theorem found_string {quote : Char} {body : List Char} (hquote : isQuote quote)
    (hbody : quote ∉ body) (after : List Char) :
    Lexeme.Found .string (quote :: (body ++ [quote])) after := by
  have hne : ∀ c ∈ body, (c != quote) = true := by
    intro c hc
    simpa using ne_of_mem_of_not_mem hc hbody
  obtain ⟨hsplit, hread⟩ := read_quote hquote (body ++ [quote] ++ after)
  refine ⟨hsplit, quote, body ++ [quote], rfl, ?_⟩
  have hstring : Lexeme.readString quote (body ++ [quote] ++ after) =
      ⟨.string, quote :: (body ++ [quote]), body, after⟩ := by
    simp [Lexeme.readString, List.takeWhile_append_of_pos hne, List.dropWhile_append_of_pos hne]
  rw [hread, hstring]
  exact ⟨rfl, rfl, rfl⟩

theorem found_unclosed {quote : Char} {body : List Char} (hquote : isQuote quote)
    (hbody : quote ∉ body) : Lexeme.Found .string (quote :: body) [] := by
  have hne : ∀ c ∈ body, (c != quote) = true := by
    intro c hc
    simpa using ne_of_mem_of_not_mem hc hbody
  obtain ⟨hsplit, hread⟩ := read_quote hquote (body ++ [])
  refine ⟨hsplit, quote, body, rfl, ?_⟩
  have hstring : Lexeme.readString quote (body ++ []) = ⟨.string, quote :: body, body, []⟩ := by
    have htake : (body ++ []).takeWhile (· != quote) = body ++ [] :=
      List.takeWhile_append_of_pos hne
    have hdrop : (body ++ []).dropWhile (· != quote) = [] := List.dropWhile_append_of_pos hne
    rw [List.append_nil] at htake hdrop ⊢
    simp [Lexeme.readString, htake, hdrop]
  rw [hread, hstring]
  exact ⟨rfl, rfl, rfl⟩

theorem found_fixed {k : TokenKind} (h : k ∈ TokenKind.fixed) (after : List Char) :
    Lexeme.Found k k.spelling.toList after := by
  simp only [TokenKind.fixed, List.mem_cons, List.not_mem_nil, or_false] at h
  rcases h with rfl | rfl | rfl | rfl | rfl | rfl | rfl | rfl | rfl | rfl | rfl | rfl | rfl | rfl |
    rfl | rfl | rfl | rfl
  all_goals exact ⟨Trivia.split_of_not_blank rfl nofun, _, _, rfl, rfl, rfl, rfl⟩

/-- A sign that could be half of a longer one is read alone if the other half does not follow. -/
theorem found_alone {c : Char} {p : Pairing} (hp : pairing? c = some p) {after : List Char}
    (hafter : after.head? ≠ some p.second) : Lexeme.Found p.alone [c] after := by
  have hc : Trivia.isBlank c = false ∧ c ≠ '/' ∧ punctuator? c = none := by
    unfold pairing? at hp
    split at hp
    case h_7 => cases hp
    all_goals exact ⟨rfl, nofun, rfl⟩
  refine ⟨Trivia.split_of_not_blank hc.1 hc.2.1, c, [], rfl, ?_⟩
  cases after with
  | nil => simp [Lexeme.read, Lexeme.plain, hc.2.2, hp]
  | cons d after =>
    have hd : d ≠ p.second := by simpa using hafter
    simp [Lexeme.read, Lexeme.plain, hc.2.2, hp, hd]

theorem found_extensible {k : TokenKind} (h : k ∈ TokenKind.extensible) {after : List Char}
    (hafter : after.head? ≠ some '=') : Lexeme.Found k k.spelling.toList after := by
  simp only [TokenKind.extensible, List.mem_cons, List.not_mem_nil, or_false] at h
  rcases h with rfl | rfl | rfl | rfl
  · exact found_alone (c := '=') rfl hafter
  · exact found_alone (c := '!') rfl hafter
  · exact found_alone (c := '<') rfl hafter
  · exact found_alone (c := '>') rfl hafter

theorem found_half {c : Char} (h : c = '&' ∨ c = '|') {after : List Char}
    (hafter : after.head? ≠ some c) : Lexeme.Found .illegal [c] after := by
  rcases h with rfl | rfl
  · exact found_alone (c := '&') rfl hafter
  · exact found_alone (c := '|') rfl hafter

theorem found_slash {after : List Char} (hline : after.head? ≠ some '/')
    (hblock : after.head? ≠ some '*') : Lexeme.Found .slash ['/'] after := by
  refine ⟨?_, '/', [], rfl, rfl, rfl, rfl⟩
  rw [List.singleton_append, Trivia.split]
  · rfl
  · rintro ds - rfl
    exact hline rfl
  · rintro ds - rfl
    exact hblock rfl

theorem ofWord_of_mem_reserved : ∀ k ∈ TokenKind.reserved, TokenKind.ofWord k.spelling = k := by
  decide

theorem ofWord_of_not_reserved {word : String} (h : ∀ k ∈ TokenKind.reserved, word ≠ k.spelling) :
    TokenKind.ofWord word = .ident := by
  simp only [TokenKind.reserved, List.forall_mem_cons, TokenKind.spelling, ← beq_eq_false_iff_ne,
    List.not_mem_nil, false_implies, implies_true, and_true] at h
  simp [TokenKind.ofWord, TokenKind.keywords, List.lookup_cons, h]

theorem punctuator?_spelling {c : Char} {k : TokenKind} (h : punctuator? c = some k) :
    k.spelling.toList = [c] ∧ (k ∈ TokenKind.fixed ∨ k = .slash) := by
  unfold punctuator? at h
  split at h
  case h_14 => cases h
  all_goals
    cases h
    decide

theorem pairing?_spelling {c : Char} {p : Pairing} (h : pairing? c = some p) :
    p.pair.spelling.toList = [c, p.second] ∧ p.pair ∈ TokenKind.fixed ∧
      (p.alone.spelling.toList = [c] ∧ p.alone ∈ TokenKind.extensible ∧ p.second = '=' ∨
        p.alone = .illegal ∧ (c = '&' ∨ c = '|') ∧ p.second = c) := by
  unfold pairing? at h
  split at h
  case h_7 => cases h
  all_goals
    cases h
    decide

theorem not_startsToken_iff {c : Char} : ¬StartsToken c ↔
    punctuator? c = none ∧ pairing? c = none ∧ isQuote c = false ∧ isDigit c = false ∧
      isLetter c = false := by
  constructor
  · intro h
    simp only [StartsToken, not_or, Bool.not_eq_true] at h
    obtain ⟨hletter, hdigit, hquote, hspelling⟩ := h
    refine ⟨?_, ?_, hquote, hdigit, hletter⟩
    · rw [Option.eq_none_iff_forall_ne_some]
      intro k hk
      exact hspelling ⟨k, by rw [(punctuator?_spelling hk).1]; rfl⟩
    · rw [Option.eq_none_iff_forall_ne_some]
      intro p hp
      exact hspelling ⟨p.pair, by rw [(pairing?_spelling hp).1]; rfl⟩
  · rintro ⟨hpunctuator, hpairing, hquote, hdigit, hletter⟩ (h | h | h | ⟨k, hk⟩)
    · exact absurd h (by simp [hletter])
    · exact absurd h (by simp [hdigit])
    · exact absurd h (by simp [hquote])
    · cases k with
      | illegal | eof | ident | int | string => cases hk
      | functionKw | letKw | constKw | returnKw | ifKw | elseKw | trueKw | falseKw =>
        cases hk
        cases hletter
      | assign | bang | eq | notEq | lt | gt | lte | gte | and | or =>
        cases hk
        cases hpairing
      | _ =>
        cases hk
        cases hpunctuator

theorem found_illegal {c : Char} (hblank : Trivia.isBlank c = false) (h : ¬StartsToken c)
    (after : List Char) : Lexeme.Found .illegal [c] after := by
  obtain ⟨hpunctuator, hpairing, hquote, hdigit, hletter⟩ := not_startsToken_iff.1 h
  have hslash : c ≠ '/' := by
    rintro rfl
    cases hpunctuator
  refine ⟨Trivia.split_of_not_blank hblank hslash, c, [], rfl, ?_⟩
  simp [Lexeme.read, Lexeme.plain, hpunctuator, hpairing, hquote, hdigit, hletter]

theorem TokenKind.Matches.found {before raw after : List Char} {k : TokenKind}
    (h : k.Matches before raw after) : Lexeme.Found k raw after := by
  cases h with
  | word hrun hname =>
    have hword : TokenKind.ofWord (String.ofList raw) = .ident := by
      apply ofWord_of_not_reserved
      intro k hk heq
      exact hname k hk (by rw [← heq, String.toList_ofList])
    rw [← hword]
    exact found_word hrun
  | reserved hk hrun =>
    have hfound := found_word hrun
    rwa [String.ofList_toList, ofWord_of_mem_reserved k hk] at hfound
  | number hrun => exact found_number hrun
  | string hquote hbody => exact found_string hquote hbody after
  | unclosed hquote hbody => exact found_unclosed hquote hbody
  | fixed hk => exact found_fixed hk after
  | extensible hk hafter => exact found_extensible hk hafter
  | slash hline hblock => exact found_slash hline hblock
  | half hc hafter => exact found_half hc hafter
  | illegal hblank hc => exact found_illegal hblank hc after

/-! ### What is read matches -/

/-- No run of letters and no run of digits goes on over the place between the texts. -/
def NoRunAcross (before after : List Char) : Prop :=
  ∀ p, p = isLetter ∨ p = isDigit → ∀ c ∈ before.getLast?, p c → ∀ d ∈ after.head?, p d = false

theorem Trivia.not_trivia_of_split {c : Char} {cs : List Char}
    (h : between.split (c :: cs) = ([], c :: cs)) :
    isBlank c = false ∧ (c = '/' → cs.head? ≠ some '/' ∧ cs.head? ≠ some '*') := by
  constructor
  · rw [← Bool.not_eq_true]
    intro hblank
    rw [split_blank hblank] at h
    cases congrArg Prod.fst h
  · rintro rfl
    cases cs with
    | nil => exact ⟨nofun, nofun⟩
    | cons d cs =>
      constructor
      · rintro ⟨⟩
        rw [split] at h
        cases congrArg Prod.fst h
      · rintro ⟨⟩
        rw [split] at h
        cases congrArg Prod.fst h

/-- Behind the blanks and comments that are skipped there are no more of them. -/
theorem Trivia.split_rest (m : Trivia) (cs : List Char) :
    between.split (split m cs).2 = ([], (split m cs).2) := by
  fun_induction split m cs with
  | case1 m => rfl
  | case5 c cs hline hblock hblank =>
    rw [split]
    · rw [if_neg hblank]
    · exact hline
    · exact hblock
  | case2 cs gap rest heq ih | case3 cs gap rest heq ih | case4 c cs _ _ _ gap rest heq ih
  | case6 c cs gap rest heq ih | case7 cs gap rest heq ih | case8 c cs _ gap rest heq ih =>
    rwa [heq] at ih

/-- A gap before a token ends in a blank or at the end of a comment. -/
theorem IsTrivia.getLast {gap rest : List Char} (h : IsTrivia gap rest) {d : Char} {ds : List Char}
    (hrest : rest = d :: ds) (hd : Trivia.isBlank d = false) :
    ∀ c ∈ gap.getLast?, Trivia.isBlank c ∨ c = '/' := by
  -- the last character is that of the trivia behind, where there is any
  have hlast (front gap : List Char) (c : Char) (hc : Trivia.isBlank c ∨ c = '/')
      (ih : ∀ c ∈ gap.getLast?, Trivia.isBlank c ∨ c = '/') :
      ∀ e ∈ (front ++ c :: gap).getLast?, Trivia.isBlank e ∨ e = '/' := by
    intro e he
    rw [List.getLast?_append_of_ne_nil _ (by simp)] at he
    cases gap with
    | nil =>
      cases he
      exact hc
    | cons d gap => exact ih e (by rwa [List.getLast?_cons_cons] at he)
  induction h with
  | nil => exact nofun
  | blank hblank _ ih => exact hlast [] _ _ (.inl hblank) (ih hrest)
  | @line body gap rest _ hnext _ ih =>
    cases gap with
    | nil =>
      subst hrest
      obtain rfl := hnext d rfl
      cases hd
    | cons c gap =>
      intro e he
      apply ih hrest e
      rwa [← List.cons_append, ← List.cons_append,
        List.getLast?_append_of_ne_nil _ (by simp)] at he
  | @block body gap rest _ _ ih =>
    have heq : '/' :: '*' :: (body ++ '*' :: '/' :: gap) =
        ('/' :: '*' :: (body ++ ['*'])) ++ '/' :: gap := by simp
    rw [heq]
    exact hlast _ _ _ (.inr rfl) (ih hrest)
  | unclosed => cases hrest

theorem not_letter_or_digit_of_sign {c : Char} (hc : c ∈ signs) :
    isLetter c = false ∧ isDigit c = false := by
  constructor
  · rw [← Bool.not_eq_true]
    exact fun hletter => not_mem_signs (by decide) hletter hc
  · rw [← Bool.not_eq_true]
    exact fun hdigit => not_mem_signs (by decide) hdigit hc

/-- A sign ends in a character of a sign. -/
theorem exists_last_of_sign {k : TokenKind} (hk : k ∈ TokenKind.fixed ++ TokenKind.extensible) :
    ∃ c, k.spelling.toList.getLast? = some c ∧ c ∈ signs := by
  have hlast : ∀ k ∈ TokenKind.fixed ++ TokenKind.extensible,
      k.spelling.toList.getLast?.any (· ∈ signs) := by decide
  simpa using (Option.any_eq_true _ _).1 (hlast k hk)

namespace NoRunAcross

variable {before raw after : List Char}

theorem of_getLast {c : Char} (hlast : raw.getLast? = some c)
    (hc : isLetter c = false ∧ isDigit c = false) : NoRunAcross (before ++ raw) after := by
  have hne : raw ≠ [] := by
    rintro rfl
    cases hlast
  rintro p hp d hd hpd
  rw [List.getLast?_append_of_ne_nil _ hne, hlast] at hd
  cases hd
  rcases hp with rfl | rfl
  · exact absurd hpd (by simp [hc.1])
  · exact absurd hpd (by simp [hc.2])

theorem skip {gap : List Char} (h : NoRunAcross before (gap ++ after)) (hgap : IsTrivia gap after)
    (hsplit : Trivia.between.split after = ([], after)) : NoRunAcross (before ++ gap) after := by
  cases after with
  | nil => exact fun _ _ _ _ _ => nofun
  | cons d after =>
    have hd := (Trivia.not_trivia_of_split hsplit).1
    cases hlast : gap.getLast? with
    | none =>
      rw [List.getLast?_eq_none_iff] at hlast
      simpa [hlast] using h
    | some c =>
      apply of_getLast hlast
      apply not_letter_or_digit_of_sign
      rcases hgap.getLast rfl hd c hlast with hc | rfl
      · simp only [Trivia.isBlank, Bool.or_eq_true, beq_iff_eq] at hc
        rcases hc with ((rfl | rfl) | rfl) | rfl <;> decide
      · decide

/-- A run ends where its class does. -/
theorem run {p q : Char → Bool} (hrun : IsRun p before raw after)
    (hdisjoint : ∀ c, p c → q c = false) : ∀ r, r = p ∨ r = q → ∀ c ∈ (before ++ raw).getLast?,
      r c → ∀ d ∈ after.head?, r d = false := by
  intro r hr c hc hrc d hd
  rw [List.getLast?_append_of_ne_nil _ hrun.ne_nil] at hc
  have hpc := hrun.all c (List.mem_of_getLast? hc)
  rcases hr with rfl | rfl
  · exact hrun.stop d hd
  · exact absurd hrc (by simp [hdisjoint c hpc])

end NoRunAcross

theorem isLetter_of_isDigit {c : Char} (h : isDigit c) : isLetter c = false := by
  rw [← Bool.not_eq_true]
  intro hletter
  rw [isDigit_of_isLetter hletter] at h
  cases h

/-- No run goes on from a token to what is behind it. -/
theorem TokenKind.Matches.noRunAcross {before raw after : List Char} {k : TokenKind}
    (h : k.Matches before raw after) : NoRunAcross (before ++ raw) after := by
  cases h with
  | word hrun | reserved _ hrun =>
    exact NoRunAcross.run hrun fun _ => isDigit_of_isLetter
  | number hrun =>
    intro p hp
    exact NoRunAcross.run hrun (fun _ => isLetter_of_isDigit) p hp.symm
  | @string quote body _ hquote =>
    have hlast : (quote :: (body ++ [quote])).getLast? = some quote := by
      rw [← List.cons_append, List.getLast?_concat]
    apply NoRunAcross.of_getLast hlast
    rcases isQuote_iff.1 hquote with rfl | rfl <;> decide
  | unclosed => exact fun _ _ _ _ _ => nofun
  | fixed hk =>
    obtain ⟨c, hlast, hc⟩ := exists_last_of_sign (List.mem_append_left _ hk)
    exact .of_getLast hlast (not_letter_or_digit_of_sign hc)
  | extensible hk =>
    obtain ⟨c, hlast, hc⟩ := exists_last_of_sign (List.mem_append_right _ hk)
    exact .of_getLast hlast (not_letter_or_digit_of_sign hc)
  | slash => exact .of_getLast rfl (by decide)
  | half hc =>
    rcases hc with rfl | rfl
    · exact .of_getLast rfl (by decide)
    · exact .of_getLast rfl (by decide)
  | illegal _ hc =>
    obtain ⟨-, -, -, hdigit, hletter⟩ := not_startsToken_iff.1 hc
    exact .of_getLast rfl ⟨hletter, hdigit⟩

/-- The run of a class at the front of a text, if it goes on from nothing before it. -/
theorem isRun_takeWhile {p : Char → Bool} {before : List Char} {c : Char} {cs : List Char}
    (hc : p c) (hstart : ∀ b ∈ before.getLast?, p b = false) :
    IsRun p before (c :: cs.takeWhile p) (cs.dropWhile p) := by
  refine ⟨List.cons_ne_nil _ _, ?_, hstart, ?_⟩
  · intro d hd
    rcases List.mem_cons.1 hd with rfl | hd
    · exact hc
    · exact List.all_eq_true.1 List.all_takeWhile d hd
  · intro d hd
    have hhead := List.head?_dropWhile_not p cs
    rw [hd] at hhead
    simpa using hhead

/-- A run of letters is a word, or the reserved word that it spells. -/
theorem word_matches {before raw after : List Char} (hrun : IsRun isLetter before raw after) :
    (TokenKind.ofWord (String.ofList raw)).Matches before raw after := by
  by_cases hword : ∃ k ∈ TokenKind.reserved, raw = k.spelling.toList
  · obtain ⟨k, hk, rfl⟩ := hword
    rw [String.ofList_toList, ofWord_of_mem_reserved k hk]
    exact .reserved hk hrun
  · have hne : ∀ k ∈ TokenKind.reserved, raw ≠ k.spelling.toList :=
      fun k hk heq => hword ⟨k, hk, heq⟩
    rw [ofWord_of_not_reserved]
    · exact .word hrun hne
    · intro k hk heq
      exact hne k hk (by rw [← heq, String.toList_ofList])

namespace Lexeme

theorem readString_matches {quote : Char} (hquote : isQuote quote) (before cs : List Char) :
    (readString quote cs).kind.Matches before (readString quote cs).raw
      (readString quote cs).rest := by
  have hkind : (readString quote cs).kind = .string := by
    unfold readString
    split <;> rfl
  have hstands := stands_readString hquote cs
  rw [Stands, if_pos hkind] at hstands
  obtain ⟨q, hq, hbody, hraw | ⟨hraw, hrest⟩⟩ := hstands
  · rw [hkind, hraw]
    exact .string hq hbody
  · rw [hkind, hraw, hrest]
    exact .unclosed hq hbody

theorem read_matches {before : List Char} {c : Char} {cs : List Char}
    (hsplit : Trivia.between.split (c :: cs) = ([], c :: cs))
    (hacross : NoRunAcross before (c :: cs)) :
    (read c cs).kind.Matches before (read c cs).raw (read c cs).rest := by
  obtain ⟨hblank, hslash⟩ := Trivia.not_trivia_of_split hsplit
  have hstart (p : Char → Bool) (hp : p = isLetter ∨ p = isDigit) (hc : p c) :
      ∀ b ∈ before.getLast?, p b = false := by
    intro b hb
    rw [← Bool.not_eq_true]
    intro hpb
    exact absurd hc (by simp [hacross p hp b hb hpb c rfl])
  unfold read
  split
  next k hk =>
    obtain ⟨hspelling, hk | rfl⟩ := punctuator?_spelling hk
    · show k.Matches before [c] cs
      rw [← hspelling]
      exact .fixed hk
    · cases hspelling
      exact .slash (hslash rfl).1 (hslash rfl).2
  next hpunctuator =>
    split
    next p hp =>
      obtain ⟨hpair, hfixed, halone⟩ := pairing?_spelling hp
      have hone (hcs : cs.head? ≠ some p.second) : p.alone.Matches before [c] cs := by
        rcases halone with ⟨hspelling, hk, hsecond⟩ | ⟨hk, hc, hsecond⟩
        · rw [hsecond] at hcs
          rw [← hspelling]
          exact .extensible hk hcs
        · rw [hsecond] at hcs
          rw [hk]
          exact .half hc hcs
      split
      next d rest =>
        split
        next hd =>
          show p.pair.Matches before [c, d] rest
          rw [hd, ← hpair]
          exact .fixed hfixed
        next hd => exact hone (by simpa using hd)
      next => exact hone nofun
    next hpairing =>
      split
      next hquote => exact readString_matches hquote before cs
      next hquote =>
        split
        next hdigit => exact .number (isRun_takeWhile hdigit (hstart _ (.inr rfl) hdigit))
        next hdigit =>
          split
          next hletter =>
            exact word_matches (isRun_takeWhile hletter (hstart _ (.inl rfl) hletter))
          next hletter =>
            simp only [Bool.not_eq_true] at hquote hdigit hletter
            exact .illegal hblank
              (not_startsToken_iff.2 ⟨hpunctuator, hpairing, hquote, hdigit, hletter⟩)

end Lexeme

/-! ### All tokens -/

namespace Cursor

/-- The cursor stands in the source behind `before`, and no run goes on over its place. -/
structure Apart (source : String) (before : List Char) (c : Cursor) : Prop where
  parts : source.toList = before ++ c.rest
  offset : width before = c.offset
  across : NoRunAcross before c.rest

theorem next_of_split_nil {c : Cursor} {gap : List Char}
    (h : Trivia.between.split c.rest = (gap, [])) :
    c.next = (⟨.eof, "", ⟨c.offset + width gap, c.offset + width gap⟩⟩,
      ⟨c.offset + width gap, []⟩) := by
  simp [next, skipTrivia, h]

theorem next_of_split_cons {c : Cursor} {gap : List Char} {x : Char} {xs : List Char}
    (h : Trivia.between.split c.rest = (gap, x :: xs)) :
    c.next = (⟨(Lexeme.read x xs).kind, String.ofList (Lexeme.read x xs).literal,
        ⟨c.offset + width gap, c.offset + width gap + width (Lexeme.read x xs).raw⟩⟩,
      ⟨c.offset + width gap + width (Lexeme.read x xs).raw, (Lexeme.read x xs).rest⟩) := by
  simp [next, skipTrivia, h]

/-- A token that is read is one of its kind, and stands apart from what is behind it. -/
theorem Apart.next {source : String} {before : List Char} {c : Cursor}
    (h : c.Apart source before) (hne : c.next.1.kind ≠ .eof) :
    c.next.1.IsExact source ∧ ∃ before', c.next.2.Apart source before' := by
  have happend := Trivia.split_append .between c.rest
  have hcut : IsTrivia _ _ := Trivia.split_cut .between c.rest
  have hrest := Trivia.split_rest .between c.rest
  generalize hsplit : Trivia.between.split c.rest = r at happend hcut hrest
  obtain ⟨gap, rest⟩ := r
  cases rest with
  | nil =>
    rw [next_of_split_nil hsplit] at hne
    exact absurd rfl hne
  | cons x xs =>
    rw [next_of_split_cons hsplit]
    have hacross : NoRunAcross (before ++ gap) (x :: xs) := by
      apply NoRunAcross.skip _ hcut hrest
      rw [happend]
      exact h.across
    have hmatches := Lexeme.read_matches hrest hacross
    have hparts : source.toList =
        (before ++ gap) ++ ((Lexeme.read x xs).raw ++ (Lexeme.read x xs).rest) := by
      rw [Lexeme.read_append, h.parts, ← happend, List.append_assoc]
    have hwidth : width (before ++ gap) = c.offset + width gap := by
      rw [width_append, h.offset]
    constructor
    · refine ⟨before ++ gap, _, _, ⟨hparts, hwidth, ?_⟩, hmatches⟩
      rw [hwidth]
    · refine ⟨before ++ gap ++ (Lexeme.read x xs).raw, ?_, ?_, hmatches.noRunAcross⟩
      · rw [hparts, List.append_assoc (before ++ gap)]
      · rw [width_append, hwidth]

theorem Apart.tokens {source : String} {before : List Char} {c : Cursor}
    (h : c.Apart source before) : ∀ t ∈ c.tokens, t.kind ≠ .eof → t.IsExact source := by
  induction c using Cursor.tokens.induct generalizing before with
  | case1 c heof =>
    rw [tokens_of_eof heof]
    intro t ht hne
    rw [List.mem_singleton.1 ht] at hne
    exact absurd heof hne
  | case2 c hne ih =>
    rw [tokens_of_ne_eof hne]
    obtain ⟨hexact, before', hnext⟩ := h.next hne
    exact List.forall_mem_cons.2 ⟨fun _ => hexact, ih hnext⟩

end Cursor

/-! ### Only one tiling -/

theorem append_inj_of_width {a b x y : List Char} (h : a ++ x = b ++ y)
    (hwidth : width a = width b) : a = b ∧ x = y := by
  rcases List.append_eq_append_iff.1 h with ⟨t, rfl, rfl⟩ | ⟨t, rfl, rfl⟩
  all_goals
    rw [width_append] at hwidth
    have hlength := length_le_width t
    have ht : t = [] := List.eq_nil_of_length_eq_zero (by omega)
    simp [ht]

theorem Span.Cuts.unique {source : String} {span : Span}
    {before text after before' text' after' : List Char} (h : span.Cuts source before text after)
    (h' : span.Cuts source before' text' after') :
    before = before' ∧ text = text' ∧ after = after' := by
  have hparts := h.parts.symm.trans h'.parts
  obtain ⟨rfl, hrest⟩ := append_inj_of_width hparts (h.start.trans h'.start.symm)
  have hstop := h.stop.trans h'.stop.symm
  obtain ⟨rfl, rfl⟩ := append_inj_of_width hrest (by omega)
  exact ⟨rfl, rfl, rfl⟩

theorem Span.Holds.unique {source : String} {span : Span} {text text' : List Char}
    (h : span.Holds source text) (h' : span.Holds source text') : text = text' := by
  obtain ⟨_, _, hcuts⟩ := h
  obtain ⟨_, _, hcuts'⟩ := h'
  exact (hcuts.unique hcuts').2.1

/-- What stands between quotes, or behind a single one, is settled by the text with the quotes. -/
theorem quoted_unique {q q' : Char} {a b raw : List Char} (ha : q ∉ a) (hb : q' ∉ b)
    (h : raw = q :: (a ++ [q]) ∨ raw = q :: a) (h' : raw = q' :: (b ++ [q']) ∨ raw = q' :: b) :
    a = b := by
  rcases h with rfl | rfl
  · rcases h' with h' | h'
    · exact (List.append_inj' (List.cons.inj h').2 rfl).1
    · obtain ⟨rfl, rfl⟩ := List.cons.inj h'
      exact absurd (by simp) hb
  · rcases h' with h' | h'
    · obtain ⟨rfl, rfl⟩ := List.cons.inj h'
      exact absurd (by simp) ha
    · exact (List.cons.inj h').2

/-- What a token stands for is settled by its kind and its span. -/
theorem Token.StandsIn.unique {source : String} {t u : Token} (ht : t.StandsIn source)
    (hu : u.StandsIn source) (hkind : t.kind = u.kind) (hspan : t.span = u.span) : t = u := by
  have hliteral : t.literal.toList = u.literal.toList := by
    unfold StandsIn at ht hu
    rw [hkind, hspan] at ht
    split at ht
    next hk =>
      rw [if_pos hk] at hu
      obtain ⟨q, -, hq, ht | ⟨ht, -⟩⟩ := ht
      · obtain ⟨q', -, hq', hu | ⟨hu, -⟩⟩ := hu
        · exact quoted_unique hq hq' (.inl rfl) (.inl (ht.unique hu))
        · exact quoted_unique hq hq' (.inl rfl) (.inr (ht.unique hu))
      · obtain ⟨q', -, hq', hu | ⟨hu, -⟩⟩ := hu
        · exact quoted_unique hq hq' (.inr rfl) (.inl (ht.unique hu))
        · exact quoted_unique hq hq' (.inr rfl) (.inr (ht.unique hu))
    next hk =>
      rw [if_neg hk] at hu
      exact ht.unique hu
  obtain ⟨kind, literal, span⟩ := t
  cases hkind
  cases hspan
  rw [Token.mk.injEq]
  exact ⟨rfl, String.toList_injective hliteral, rfl⟩

/-- Where a gap and then a text stand behind a cursor, they are what is left of the source there. -/
theorem Cursor.In.rest_eq {source : String} {c : Cursor} (hin : c.In source) {start : Nat}
    {before gap after : List Char} (hcuts : Span.Cuts source ⟨c.offset, start⟩ before gap after) :
    c.rest = gap ++ after ∧ start = c.offset + width gap := by
  obtain ⟨before', hparts, hwidth⟩ := hin
  have hstart : width before = c.offset := hcuts.start
  obtain ⟨rfl, hrest⟩ :=
    append_inj_of_width (hcuts.parts.symm.trans hparts) (hstart.trans hwidth.symm)
  have hstop : width before + width gap = start := hcuts.stop
  exact ⟨hrest.symm, by omega⟩

theorem Tiling.eq_tokens {source : String} {offset : Nat} {ts : List Token}
    (h : Tiling source offset ts) (hexact : ∀ t ∈ ts, t.kind ≠ .eof → t.IsExact source)
    {c : Cursor} (hin : c.In source) (hoffset : c.offset = offset) : ts = c.tokens := by
  induction h generalizing c with
  | last hgap =>
    obtain ⟨before, gap, after, hcuts, htrivia⟩ := hgap
    subst hoffset
    obtain ⟨hrest, hend⟩ := hin.rest_eq hcuts
    have hsize := hin.offset_add_width
    rw [hrest, width_append] at hsize
    have hlength := length_le_width after
    obtain rfl : after = [] := List.eq_nil_of_length_eq_zero (by omega)
    have hsplit : Trivia.between.split c.rest = (gap, []) := by
      rw [hrest]
      exact htrivia.split_eq rfl
    have hnext := Cursor.next_of_split_nil hsplit
    rw [Cursor.tokens_of_eof (by rw [hnext]), hnext, hend]
  | @cons offset t ts hgap hne hlt hstands _ ih =>
    obtain ⟨before, gap, after, hcuts, htrivia⟩ := hgap
    obtain ⟨before', raw, after', htoken, hmatches⟩ := hexact t List.mem_cons_self hne
    subst hoffset
    obtain ⟨hrest, hstart⟩ := hin.rest_eq hcuts
    -- behind the gap stands the token
    have hafter : after = raw ++ after' := by
      have hparts := hcuts.parts.symm.trans htoken.parts
      rw [← List.append_assoc] at hparts
      refine (append_inj_of_width hparts ?_).2
      have hbefore : width before = c.offset := hcuts.start
      rw [width_append, hbefore, htoken.start, hstart]
    subst hafter
    obtain ⟨hsplit, x, xs, rfl, hkind, hraw, hrest'⟩ := hmatches.found
    have hgap : Trivia.between.split c.rest = (gap, x :: (xs ++ after')) := by
      rw [hrest]
      exact htrivia.split_eq hsplit
    have hnext := Cursor.next_of_split_cons hgap
    simp only [hkind, hraw, hrest'] at hnext
    have hkind' : c.next.1.kind = t.kind := by rw [hnext]
    have hspan : c.next.1.span = t.span := by
      have hstop := htoken.stop
      rw [htoken.start] at hstop
      rw [hnext, ← hstart, hstop]
    obtain ⟨-, hend | ⟨hne', -, hstands', hoffset, hin'⟩⟩ := hin.next
    · rw [hend] at hkind'
      exact absurd hkind'.symm hne
    · rw [Cursor.tokens_of_ne_eof hne', ← hstands'.unique hstands hkind' hspan]
      congr 1
      apply ih _ hin'
      · rw [hoffset, hspan]
      · exact fun u hu => hexact u (List.mem_cons_of_mem _ hu)

/-- **The tokens of a source are the only ones that tile it** with blanks and comments between them
in such a way that each token is one of its kind.  Words and numbers then are runs that go on at
neither side, and a word is reserved exactly if it is one of the eight reserved words; `=`, `!`, `<`
and `>` are tokens only where no `=` follows, a slash only where it opens no comment, and `&` and
`|` only in pairs; a string ends at the next quote of its kind or with the source; and every other
token is a single character with which no token and no gap starts. -/
theorem lex_only_tiling (source : String) (ts : List Token) :
    (Tiling source 0 ts ∧ ∀ t ∈ ts, t.kind ≠ .eof → t.IsExact source) ↔ ts = lex source := by
  constructor
  · rintro ⟨htiling, hexact⟩
    exact htiling.eq_tokens hexact ⟨[], rfl, rfl⟩ rfl
  · rintro rfl
    have hapart : (Cursor.ofString source).Apart source [] := ⟨rfl, rfl, fun _ _ _ => nofun⟩
    exact ⟨lex_tiling source, hapart.tokens⟩

end Primer
