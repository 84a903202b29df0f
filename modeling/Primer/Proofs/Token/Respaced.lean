/-
  Primer/Proofs/Token/Respaced.lean
  =================================
  **Tokens one space apart.**

  `respaced` takes the texts of the tokens of a source, quotes included, and writes them with one
  space between them.  Comments and all other blanks are gone, and every token is there again: it
  has only moved (`closeUp`).

  A token is read again because a space ends it (`Lexeme.read_change_after`).  Only a string that
  is not closed would go on over the space, but that is the last token of its source, and nothing
  is written behind it.
-/
import Mathlib.Data.String.Basic
import Primer.Proofs.Token.Content
import Primer.Proofs.Token.Piece

namespace Primer

variable {source source' : String}

/-! ### Texts of tokens -/

/-- The text of the source at a span. -/
def Span.textOf (source : String) (span : Span) : String :=
  String.Pos.Raw.extract source ⟨span.start⟩ ⟨span.stop⟩

/-- The texts of the tokens of a source, quotes included, without its end. -/
def tokenTexts (source : String) : List String :=
  (lex source).dropLast.map (·.span.textOf source)

/-- The source with its tokens one space apart. -/
def respaced (source : String) : String := " ".intercalate (tokenTexts source)

theorem utf8Len_eq_width (cs : List Char) : String.utf8Len cs = width cs := by
  induction cs with
  | nil => rfl
  | cons c cs ih => rw [String.utf8Len_cons, ih, width, Nat.add_comm]

theorem Span.Holds.textOf_eq {span : Span} {text : List Char} (h : span.Holds source text) :
    span.textOf source = String.ofList text := by
  obtain ⟨before, after, hcuts⟩ := h
  have hextract := String.extract_of_valid before text after
  rw [utf8Len_eq_width, utf8Len_eq_width, hcuts.start, ← hcuts.start, hcuts.stop, hcuts.start,
    List.append_assoc, ← hcuts.parts, String.ofList_toList] at hextract
  exact hextract

/-! ### Moving tokens together -/

/-- The token at another place. -/
def Token.moveTo (offset : Nat) (t : Token) : Token :=
  { t with span := ⟨offset, offset + t.span.length⟩ }

/-- The tokens moved together: the first starts at the offset, and each other one byte behind the
one before it, but for the last, the end of the source, which follows at once. -/
def closeUp : Nat → List Token → List Token
  | _, [] => []
  | offset, t :: ts =>
    t.moveTo offset :: closeUp (offset + t.span.length + if ts.dropLast = [] then 0 else 1) ts

theorem content_closeUp (offset : Nat) (ts : List Token) :
    (closeUp offset ts).map Token.content = ts.map Token.content := by
  induction ts generalizing offset with
  | nil => rfl
  | cons t ts ih =>
    rw [closeUp, List.map_cons, List.map_cons, ih]
    rfl

theorem closeUp_ne_nil {ts : List Token} (h : ts ≠ []) (offset : Nat) :
    closeUp offset ts ≠ [] := by
  cases ts with
  | nil => exact absurd rfl h
  | cons t ts => exact List.cons_ne_nil _ _

/-! ### Reading them again -/

theorem intercalate_space_cons (text : List Char) (texts : List (List Char)) :
    [' '].intercalate (text :: texts) = text ++ texts.flatMap (' ' :: ·) := by
  induction texts generalizing text with
  | nil => simp
  | cons text' texts ih => rw [List.intercalate_cons_cons, ih]; simp

namespace Cursor

variable {c : Cursor}

/-- The texts of the tokens from the cursor on. -/
def texts (source : String) (c : Cursor) : List (List Char) :=
  c.tokens.dropLast.map fun t => (t.span.textOf source).toList

theorem texts_of_rest_nil (h : c.rest = []) : c.texts source = [] := by
  have heta : c = ⟨c.offset, []⟩ := by rw [← h]
  rw [heta, texts, tokens_nil]
  rfl

/-- A token is read again from its own text, before a character that ends it or before nothing. -/
theorem next_alone (hin : c.In source) (hne : c.next.1.kind ≠ .eof) :
    ∃ raw, c.next.1.span.Holds source raw ∧ c.next.1.span.length = width raw ∧
      ∀ offset after, (∀ d ∈ after.head?, separates d) → (c.next.2.rest = [] → after = []) →
        next ⟨offset, raw ++ after⟩ =
          (c.next.1.moveTo offset, ⟨offset + width raw, after⟩) := by
  have happend := Trivia.split_append .between c.rest
  have hbehind := Trivia.split_rest .between c.rest
  generalize hsplit : Trivia.between.split c.rest = r at happend hbehind
  obtain ⟨gap, rest⟩ := r
  cases rest with
  | nil =>
    rw [next_of_split_nil hsplit] at hne
    exact absurd rfl hne
  | cons x xs =>
    rw [next_of_split_cons hsplit]
    dsimp only at happend hbehind ⊢
    have hlength : Span.length ⟨c.offset + width gap,
        c.offset + width gap + width (Lexeme.read x xs).raw⟩ = width (Lexeme.read x xs).raw :=
      Nat.add_sub_cancel_left ..
    obtain ⟨-, -, hin'⟩ := hin.cuts happend.symm
    obtain ⟨before, hcuts, -⟩ := hin'.cuts (Lexeme.read_append x xs).symm
    refine ⟨(Lexeme.read x xs).raw, ⟨before, _, hcuts⟩, hlength, ?_⟩
    intro offset after hseparates hlast
    obtain ⟨ys, hraw, hsplit', hread⟩ := Lexeme.read_change_after hbehind (.inr hseparates)
      fun hrest hafter => absurd (hlast hrest) hafter
    rw [hraw, List.cons_append, next_of_split offset hsplit', hread, ← hraw, Token.moveTo, hlength]

/-- Behind a token comes nothing, or a space and the texts of the others. -/
theorem tokens_flatMap_space {texts : List (List Char)} {offset : Nat}
    (hin : In source ⟨offset, texts.flatMap (' ' :: ·)⟩) :
    In source ⟨offset + if texts = [] then 0 else 1, [' '].intercalate texts⟩ ∧
      tokens ⟨offset, texts.flatMap (' ' :: ·)⟩ =
        tokens ⟨offset + if texts = [] then 0 else 1, [' '].intercalate texts⟩ := by
  cases texts with
  | nil => exact ⟨hin, rfl⟩
  | cons text texts =>
    rw [if_neg (List.cons_ne_nil _ _), intercalate_space_cons]
    have hparts : (text :: texts).flatMap (' ' :: ·) =
        [' '] ++ (text ++ texts.flatMap (' ' :: ·)) := rfl
    obtain ⟨-, -, hin'⟩ := hin.cuts hparts
    exact ⟨hin', tokens_space ..⟩

/-- From a cursor on, the tokens written one space apart are read moved together, each of them
from the same text as before. -/
theorem tokens_intercalate {offset : Nat} (hin : c.In source)
    (hin' : In source' ⟨offset, [' '].intercalate (c.texts source)⟩) :
    tokens ⟨offset, [' '].intercalate (c.texts source)⟩ = closeUp offset c.tokens ∧
      (closeUp offset c.tokens).dropLast.map (·.span.textOf source') =
        c.tokens.dropLast.map (·.span.textOf source) := by
  induction c using Cursor.tokens.induct generalizing offset with
  | case1 c heof =>
    obtain ⟨-, hend | ⟨hne, -⟩⟩ := hin.next
    · rw [texts, tokens_of_eof heof, hend, closeUp, closeUp, Token.moveTo, Span.length, Nat.sub_self]
      exact ⟨tokens_nil offset, rfl⟩
    · exact absurd heof hne
  | case2 c hne ih =>
    obtain ⟨raw, hholds, hlength, hnext⟩ := next_alone hin hne
    obtain ⟨-, hend | ⟨-, -, -, -, hin₂⟩⟩ := hin.next
    · rw [hend] at hne
      exact absurd rfl hne
    have htexts : c.texts source = raw :: c.next.2.texts source := by
      rw [texts, tokens_of_ne_eof hne, List.dropLast_cons_of_ne_nil (tokens_ne_nil _), List.map_cons,
        hholds.textOf_eq, String.toList_ofList]
      rfl
    rw [htexts, intercalate_space_cons] at hin' ⊢
    obtain ⟨before, hcuts, hbehind⟩ := hin'.cuts rfl
    obtain ⟨hin₃, htokens⟩ := tokens_flatMap_space hbehind
    obtain ⟨ih₁, ih₂⟩ := ih hin₂ hin₃
    -- the next token, if there is one, starts behind the space
    have hspace : (c.next.2.texts source = []) = (c.next.2.tokens.dropLast = []) := by
      rw [texts, List.map_eq_nil_iff]
    simp only [hspace] at htokens ih₁ ih₂
    rw [tokens_of_ne_eof hne, closeUp, hlength]
    constructor
    · have hseparates : ∀ d ∈ ((c.next.2.texts source).flatMap (' ' :: ·)).head?, separates d := by
        intro d hd
        generalize c.next.2.texts source = texts at hd
        cases texts with
        | nil => cases hd
        | cons text texts =>
          cases hd
          rfl
      have hlast (hrest : c.next.2.rest = []) :
          (c.next.2.texts source).flatMap (' ' :: ·) = [] := by
        rw [texts_of_rest_nil hrest]
        rfl
      rw [tokens_of_next (hnext offset _ hseparates hlast) hne, htokens, ih₁]
    · have hholds' : (c.next.1.moveTo offset).span.Holds source' raw := by
        rw [Token.moveTo, hlength]
        exact ⟨before, _, hcuts⟩
      rw [List.dropLast_cons_of_ne_nil (closeUp_ne_nil (tokens_ne_nil _) _),
        List.dropLast_cons_of_ne_nil (tokens_ne_nil _), List.map_cons, List.map_cons, ih₂,
        hholds'.textOf_eq, hholds.textOf_eq]

end Cursor

/-- **The texts of the tokens of a source, one space apart, are read as the same tokens.**  They
have only moved together; so writing them one space apart again changes nothing. -/
theorem lex_respaced (source : String) :
    (lex (respaced source)).map Token.content = (lex source).map Token.content ∧
      lex (respaced source) = closeUp 0 (lex source) ∧
      tokenTexts (respaced source) = tokenTexts source ∧
      respaced (respaced source) = respaced source := by
  have hin : (Cursor.ofString source).In source := ⟨[], rfl, rfl⟩
  have hin' : (Cursor.ofString (respaced source)).In (respaced source) := ⟨[], rfl, rfl⟩
  have hcursor : Cursor.ofString (respaced source) =
      ⟨0, [' '].intercalate ((Cursor.ofString source).texts source)⟩ := by
    unfold Cursor.ofString respaced tokenTexts
    rw [String.toList_intercalate, List.map_map]
    rfl
  rw [hcursor] at hin'
  obtain ⟨htokens, htexts⟩ := Cursor.tokens_intercalate hin hin'
  have hlex : lex (respaced source) = closeUp 0 (lex source) := by
    rw [lex, hcursor, htokens]
    rfl
  have htexts' : tokenTexts (respaced source) = tokenTexts source := by
    rw [tokenTexts, hlex]
    exact htexts
  refine ⟨?_, hlex, htexts', ?_⟩
  · rw [hlex, content_closeUp]
  · rw [respaced, htexts', respaced]

/-- A comment that looks like a string, half an operator, and a string that is not closed. -/
example : respaced "x=\"it's\"/* \" */& &1 // 2\n'b  c" = "x = \"it's\" & & 1 'b  c" := by
  decide +kernel

end Primer
