/-
  Primer/Proofs/Token/Words.lean
  ==============================
  **Writing tokens down and reading them again.**

  A `Word` is a token without a place: a kind and the text it stands for.  Words are written
  with one space between them (`Word.spaced`), a string between quotes that do not occur in it.
  Reading such a text gives the words back, one token for each (`lex_spaced`): the space ends
  every run of letters or digits and keeps two operators from being read as one.
-/
import Mathlib.Data.List.Forall2
import Primer.Token.Lexer

namespace Primer

/-- The text of the kinds that are always written the same way. -/
def TokenKind.spelling : TokenKind → String
  | assign => "="
  | plus => "+"
  | minus => "-"
  | asterisk => "*"
  | slash => "/"
  | bang => "!"
  | eq => "=="
  | notEq => "!="
  | lt => "<"
  | gt => ">"
  | lte => "<="
  | gte => ">="
  | and => "&&"
  | or => "||"
  | comma => ","
  | colon => ":"
  | semicolon => ";"
  | lparen => "("
  | rparen => ")"
  | lbrace => "\x7b"
  | rbrace => "\x7d"
  | lbracket => "["
  | rbracket => "]"
  | functionKw => "function"
  | letKw => "let"
  | constKw => "const"
  | returnKw => "return"
  | ifKw => "if"
  | elseKw => "else"
  | trueKw => "true"
  | falseKw => "false"
  | illegal | eof | ident | int | string => ""

/-- A token to be written: its kind and the text it stands for. -/
structure Word where
  kind : TokenKind
  literal : String
deriving DecidableEq, Repr

namespace Word

/-- The word of a kind that is always written the same way. -/
def symbol (k : TokenKind) : Word := ⟨k, k.spelling⟩

def name (x : String) : Word := ⟨.ident, x⟩

def number (n : Nat) : Word := ⟨.int, toString n⟩

def quoted (text : String) : Word := ⟨.string, text⟩

/-- The quote that a string is written between: the double one unless it occurs inside. -/
def quote (text : String) : Char := if '"' ∈ text.toList then '\'' else '"'

/-- How a word is written. -/
def text (w : Word) : List Char :=
  if w.kind = .string then quote w.literal :: (w.literal.toList ++ [quote w.literal])
  else w.literal.toList

/-- Words with one space between them. -/
def spaced : List Word → List Char
  | [] => []
  | [w] => w.text
  | w :: ws => w.text ++ ' ' :: spaced ws

end Word

/-- May a name be written so? Names are words of letters that are not reserved. -/
def isName (x : String) : Bool :=
  !x.toList.isEmpty && x.toList.all isLetter && TokenKind.ofWord x == .ident

/-! ### What ends a word -/

/-- A text that goes on with a space, if at all. -/
def Gap (rest : List Char) : Prop := ∀ c ∈ rest.head?, c = ' '

/-- The word is read as one token wherever a gap follows it. -/
def Word.Lexes (w : Word) : Prop :=
  w.kind ≠ .eof ∧ ∀ o rest, Gap rest →
    Cursor.next ⟨o, w.text ++ rest⟩ =
      (⟨w.kind, w.literal, ⟨o, o + width w.text⟩⟩, ⟨o + width w.text, rest⟩)

variable {c : Char} {cs rest : List Char}

theorem gap_nil : Gap [] := by
  intro c hc
  cases hc

theorem gap_space (cs : List Char) : Gap (' ' :: cs) := by
  intro c hc
  cases hc
  rfl

/-- A run of characters of a class stops at a gap, which the class leaves out. -/
theorem Gap.takeWhile_append {p : Char → Bool} (hg : Gap rest) (hp : p ' ' = false)
    (hcs : ∀ c ∈ cs, p c) : (cs ++ rest).takeWhile p = cs := by
  rw [List.takeWhile_append_of_pos hcs]
  cases rest with
  | nil => simp
  | cons c rest => rw [List.takeWhile_cons, hg c rfl, hp]; simp

theorem Gap.dropWhile_append {p : Char → Bool} (hg : Gap rest) (hp : p ' ' = false)
    (hcs : ∀ c ∈ cs, p c) : (cs ++ rest).dropWhile p = rest := by
  rw [List.dropWhile_append_of_pos hcs]
  cases rest with
  | nil => simp
  | cons c rest => rw [List.dropWhile_cons, hg c rfl, hp]; simp

/-! ### Cursors before a word -/

namespace Cursor

/-- A space in front makes no difference but for the offset. -/
theorem next_space (o : Nat) (cs : List Char) :
    Cursor.next ⟨o, ' ' :: cs⟩ = Cursor.next ⟨o + 1, cs⟩ := by
  have hsplit : Trivia.between.split (' ' :: cs) =
      (' ' :: (Trivia.between.split cs).1, (Trivia.between.split cs).2) := by
    rw [Trivia.split]
    · rfl
    all_goals exact nofun
  have hskip : skipTrivia ⟨o, ' ' :: cs⟩ = skipTrivia ⟨o + 1, cs⟩ := by
    unfold skipTrivia
    rw [hsplit]
    show Cursor.mk (o + (' '.utf8Size + width _)) _ = _
    rw [← Nat.add_assoc]
    rfl
  unfold next
  rw [hskip]

/-- Where no trivia stands, a lexeme is read. -/
theorem next_of_split (o : Nat) (h : Trivia.between.split (c :: cs) = ([], c :: cs)) :
    Cursor.next ⟨o, c :: cs⟩ =
      (⟨(Lexeme.read c cs).kind, String.ofList (Lexeme.read c cs).literal,
          ⟨o, o + width (Lexeme.read c cs).raw⟩⟩,
        ⟨o + width (Lexeme.read c cs).raw, (Lexeme.read c cs).rest⟩) := by
  have hskip : skipTrivia ⟨o, c :: cs⟩ = ⟨o, c :: cs⟩ := by
    unfold skipTrivia
    rw [h]
    rfl
  unfold next
  rw [hskip]

theorem next_nil (o : Nat) : Cursor.next ⟨o, []⟩ = (⟨.eof, "", ⟨o, o⟩⟩, ⟨o, []⟩) := rfl

end Cursor

theorem Trivia.split_of_not_blank (hb : Trivia.isBlank c = false) (hs : c ≠ '/') :
    Trivia.between.split (c :: cs) = ([], c :: cs) := by
  rw [Trivia.split]
  · simp [hb]
  · rintro _ rfl
    exact absurd rfl hs
  · rintro _ rfl
    exact absurd rfl hs

theorem Trivia.split_slash (hg : Gap rest) :
    Trivia.between.split ('/' :: rest) = ([], '/' :: rest) := by
  cases rest with
  | nil => rfl
  | cons d rest =>
    cases hg d rfl
    rfl

/-! ### Each word is read as itself -/

/-- The characters that start trivia, a sign or a string. -/
def signs : List Char := "+-*/,:;()\x7b\x7d[]=!<>&| \t\r\n\"'".toList

theorem not_sign (h : c ∉ signs) :
    punctuator? c = none ∧ pairing? c = none ∧ isQuote c = false ∧ Trivia.isBlank c = false ∧
      c ≠ '/' := by
  have hne : ∀ d ∈ signs, c ≠ d := by
    rintro d hd rfl
    exact h hd
  refine ⟨?_, ?_, ?_, ?_, hne '/' (by decide)⟩
  · unfold punctuator?
    split
    case h_14 => rfl
    all_goals exact absurd rfl (hne _ (by decide))
  · unfold pairing?
    split
    case h_7 => rfl
    all_goals exact absurd rfl (hne _ (by decide))
  · unfold isQuote
    simp [hne '"' (by decide), hne '\'' (by decide)]
  · unfold Trivia.isBlank
    simp [hne ' ' (by decide), hne '\t' (by decide), hne '\r' (by decide), hne '\n' (by decide)]

theorem not_mem_signs {p : Char → Bool} (hp : signs.all fun d => !p d) (hc : p c) :
    c ∉ signs := by
  intro h
  have hpc := List.all_eq_true.1 hp c h
  rw [hc] at hpc
  exact absurd hpc Bool.false_ne_true

theorem isDigit_of_isLetter (h : isLetter c) : isDigit c = false := by
  simp only [isLetter, isDigit, Bool.or_eq_true, Bool.and_eq_true, decide_eq_true_eq,
    Bool.and_eq_false_iff, decide_eq_false_iff_not, Char.le_def, UInt32.le_iff_toNat_le] at *
  have ha : 'a'.val.toNat = 97 := rfl
  have hA : 'A'.val.toNat = 65 := rfl
  have h9 : '9'.val.toNat = 57 := rfl
  omega

theorem utf8ByteSize_ofList (cs : List Char) : (String.ofList cs).utf8ByteSize = width cs := by
  induction cs with
  | nil => rfl
  | cons c cs ih =>
    rw [← List.singleton_append, String.ofList_append, String.utf8ByteSize_append, ih,
      width_append, ← String.singleton_eq_ofList, String.utf8ByteSize_singleton]
    rfl

namespace Word

/-- What has to be shown of a word: no trivia starts it, and its lexeme is the word. -/
theorem lexes_of_read {w : Word} (hk : w.kind ≠ .eof) (ht : w.text = c :: cs)
    (hsplit : ∀ rest, Gap rest →
      Trivia.between.split (c :: (cs ++ rest)) = ([], c :: (cs ++ rest)))
    (hread : ∀ rest, Gap rest →
      Lexeme.read c (cs ++ rest) = ⟨w.kind, w.text, w.literal.toList, rest⟩) :
    w.Lexes := by
  refine ⟨hk, fun o rest hg => ?_⟩
  rw [ht, List.cons_append, Cursor.next_of_split o (hsplit rest hg), hread rest hg, ← ht]
  simp only [String.ofList_toList]

theorem text_of_ne_string {w : Word} (h : w.kind ≠ .string) : w.text = w.literal.toList :=
  if_neg h

/-- A run of letters, reserved or not. -/
theorem lexes_letters {k : TokenKind} {x : String} (hne : x.toList ≠ [])
    (hx : ∀ c ∈ x.toList, isLetter c) (hk : TokenKind.ofWord x = k) (he : k ≠ .eof)
    (hs : k ≠ .string) : Word.Lexes ⟨k, x⟩ := by
  obtain ⟨c, cs, hcs⟩ := List.exists_cons_of_ne_nil hne
  rw [hcs] at hx
  have hc := hx c (List.mem_cons_self ..)
  obtain ⟨h₁, h₂, h₃, h₄, h₅⟩ := not_sign (not_mem_signs (by decide) hc)
  have htext : text ⟨k, x⟩ = c :: cs := (text_of_ne_string hs).trans hcs
  refine lexes_of_read he htext (fun rest _ => Trivia.split_of_not_blank h₄ h₅) fun rest hg => ?_
  have hcs' : ∀ d ∈ cs, isLetter d := fun d hd => hx d (List.mem_cons_of_mem c hd)
  have hw : String.ofList (c :: cs) = x := by rw [← hcs, String.ofList_toList]
  unfold Lexeme.read
  rw [h₁, h₂, hg.takeWhile_append rfl hcs', hg.dropWhile_append rfl hcs']
  simp only [h₃, isDigit_of_isLetter hc, hc, hw, hk, htext, hcs]
  rfl

theorem lexes_name {x : String} (h : isName x) : (name x).Lexes := by
  simp only [isName, Bool.and_eq_true, Bool.not_eq_true', List.isEmpty_eq_false_iff,
    List.all_eq_true, beq_iff_eq] at h
  obtain ⟨⟨hne, hx⟩, hk⟩ := h
  exact lexes_letters hne hx hk nofun nofun

theorem lexes_number (n : Nat) : (number n).Lexes := by
  have hdigits : (toString n).toList = Nat.toDigits 10 n := by
    rw [Nat.toString_eq_ofList_toDigits, String.toList_ofList]
  obtain ⟨c, cs, hcs⟩ := List.exists_cons_of_ne_nil (Nat.toDigits_ne_nil (n := n) (b := 10))
  have hall : ∀ d ∈ c :: cs, isDigit d := by
    intro d hd
    rw [← hcs] at hd
    exact Nat.isDigit_of_mem_toDigits (by decide) (by decide) hd
  have hc := hall c (List.mem_cons_self ..)
  have hk : TokenKind.int ≠ .string := nofun
  have htext : (number n).text = c :: cs :=
    (text_of_ne_string (w := number n) hk).trans (hdigits.trans hcs)
  obtain ⟨h₁, h₂, h₃, h₄, h₅⟩ := not_sign (not_mem_signs (by decide) hc)
  refine lexes_of_read nofun htext (fun rest _ => Trivia.split_of_not_blank h₄ h₅) fun rest hg => ?_
  have hcs' : ∀ d ∈ cs, isDigit d := fun d hd => hall d (List.mem_cons_of_mem c hd)
  unfold Lexeme.read
  rw [h₁, h₂, hg.takeWhile_append rfl hcs', hg.dropWhile_append rfl hcs', htext]
  have hlit : (number n).literal.toList = c :: cs := hdigits.trans hcs
  simp only [h₃, hc, hlit]
  rfl

/-- The digits of a number have its value. -/
theorem ofDigitChars_number (n : Nat) :
    Nat.ofDigitChars 10 (number n).literal.toList 0 = n := by
  show Nat.ofDigitChars 10 (toString n).toList 0 = n
  rw [Nat.toString_eq_ofList_toDigits, String.toList_ofList, Nat.ofDigitChars_ten_toDigits]

/-- A string can be written when one of the quotes does not occur in it. -/
theorem lexes_quoted {x : String} (h : ¬('"' ∈ x.toList ∧ '\'' ∈ x.toList)) :
    (quoted x).Lexes := by
  have hq : quote x = '"' ∨ quote x = '\'' := by
    unfold quote
    split
    · exact .inr rfl
    · exact .inl rfl
  have hnot : quote x ∉ x.toList := by
    unfold quote
    split
    next hd => exact fun hs => h ⟨hd, hs⟩
    next hd => exact hd
  generalize hqx : quote x = q at hq hnot
  have htext : (quoted x).text = q :: (x.toList ++ [q]) := by
    rw [← hqx]
    rfl
  have hne : ∀ c ∈ x.toList, (c != q) = true := by
    intro c hc
    rw [bne_iff_ne]
    rintro rfl
    exact hnot hc
  refine lexes_of_read nofun htext (fun rest _ => ?_) fun rest _ => ?_
  · rcases hq with rfl | rfl <;> exact Trivia.split_of_not_blank rfl nofun
  · have hread : Lexeme.read q (x.toList ++ [q] ++ rest) =
        Lexeme.readString q (x.toList ++ [q] ++ rest) := by
      rcases hq with rfl | rfl <;> rfl
    rw [hread, htext]
    unfold Lexeme.readString
    rw [List.append_assoc, List.takeWhile_append_of_pos hne, List.dropWhile_append_of_pos hne]
    simp [quoted]

/-- A sign followed by a gap. -/
theorem lexes_symbol {k : TokenKind} (h : k.spelling ≠ "") : (symbol k).Lexes := by
  cases k with
  | illegal | eof | ident | int | string => exact absurd rfl h
  | functionKw | letKw | constKw | returnKw | ifKw | elseKw | trueKw | falseKw =>
    exact lexes_letters (by decide) (List.all_eq_true.mp rfl) rfl nofun nofun
  | slash => exact lexes_of_read nofun rfl (fun _ hg => Trivia.split_slash hg) fun _ _ => rfl
  | plus | minus | asterisk | comma | colon | semicolon | lparen | rparen | lbrace | rbrace
  | lbracket | rbracket | eq | notEq | lte | gte | and | or =>
    exact lexes_of_read nofun rfl (fun _ _ => Trivia.split_of_not_blank rfl nofun) fun _ _ => rfl
  | assign | bang | lt | gt =>
    -- these would be half of a longer operator, were there no gap
    refine lexes_of_read nofun rfl (fun _ _ => Trivia.split_of_not_blank rfl nofun) ?_
    intro rest hg
    cases rest with
    | nil => rfl
    | cons d rest =>
      cases hg d rfl
      rfl

/-- A string is two bytes longer when written, which tells it from one that is not closed. -/
theorem width_quoted (x : String) : width (quoted x).text = x.utf8ByteSize + 2 := by
  have hq : (quote x).utf8Size = 1 := by
    unfold quote
    split <;> rfl
  show width (quote x :: (x.toList ++ [quote x])) = _
  simp only [width, width_append, hq]
  rw [← utf8ByteSize_ofList, String.ofList_toList]
  omega

end Word

/-! ### Texts of many words -/

/-- The token stands for the word and is as long as the word is when written. -/
structure Word.Names (w : Word) (t : Token) : Prop where
  kind : t.kind = w.kind
  literal : t.literal = w.literal
  length : t.span.length = width w.text

namespace Cursor

theorem tokens_space (o : Nat) (cs : List Char) :
    Cursor.tokens ⟨o, ' ' :: cs⟩ = Cursor.tokens ⟨o + 1, cs⟩ := by
  rw [Cursor.tokens, Cursor.tokens.eq_1 ⟨o + 1, cs⟩, next_space]

theorem tokens_word {w : Word} (h : w.Lexes) (o : Nat) (hg : Gap rest) :
    ∃ t, w.Names t ∧
      Cursor.tokens ⟨o, w.text ++ rest⟩ = t :: Cursor.tokens ⟨o + width w.text, rest⟩ := by
  refine ⟨⟨w.kind, w.literal, ⟨o, o + width w.text⟩⟩, ⟨rfl, rfl, Nat.add_sub_cancel_left ..⟩, ?_⟩
  rw [Cursor.tokens, h.2 o rest hg, dif_neg h.1]

theorem tokens_nil (o : Nat) : Cursor.tokens ⟨o, []⟩ = [⟨.eof, "", ⟨o, o⟩⟩] := by
  rw [Cursor.tokens, next_nil, dif_pos rfl]

theorem tokens_spaced {ws : List Word} (h : ∀ w ∈ ws, w.Lexes) (o : Nat) :
    ∃ ts e, Cursor.tokens ⟨o, Word.spaced ws⟩ = ts ++ [e] ∧ e.kind = .eof ∧
      List.Forall₂ Word.Names ws ts := by
  induction ws generalizing o with
  | nil => exact ⟨[], _, tokens_nil o, rfl, .nil⟩
  | cons w ws ih =>
    have hw := h w (List.mem_cons_self ..)
    cases ws with
    | nil =>
      obtain ⟨t, ht, heq⟩ := tokens_word hw o gap_nil
      rw [List.append_nil, tokens_nil] at heq
      exact ⟨[t], _, heq, rfl, .cons ht .nil⟩
    | cons v ws =>
      obtain ⟨t, ht, heq⟩ := tokens_word hw o (gap_space (Word.spaced (v :: ws)))
      rw [tokens_space] at heq
      obtain ⟨ts, e, hts, he, hall⟩ :=
        ih (fun w hw => h w (List.mem_cons_of_mem _ hw)) (o + width w.text + 1)
      rw [hts] at heq
      exact ⟨t :: ts, e, heq, he, .cons ht hall⟩

end Cursor

/-- A text of words is read as these words. -/
theorem lex_spaced {ws : List Word} (h : ∀ w ∈ ws, w.Lexes) :
    ∃ ts e, lex (String.ofList (Word.spaced ws)) = ts ++ [e] ∧ e.kind = .eof ∧
      List.Forall₂ Word.Names ws ts := by
  have hcursor : Cursor.ofString (String.ofList (Word.spaced ws)) = ⟨0, Word.spaced ws⟩ := by
    unfold Cursor.ofString
    rw [String.toList_ofList]
  unfold lex
  rw [hcursor]
  exact Cursor.tokens_spaced h 0

end Primer
