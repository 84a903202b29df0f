/-
  Primer/Token/Lexer.lean
  =======================
  **From a source text to its tokens.**

  A `Cursor` is a place in a source: how many bytes lie before it and what is left.
  `Cursor.next` reads one token and moves behind it; at the end of the source it keeps
  giving the end-of-source token.  `lex` reads a whole source and ends in exactly one
  such token.  A `Lexer` hands tokens out on demand, one by one or as a sequence that
  ends after its first end-of-source token.
-/
import Primer.Text.Width
import Primer.Token.Lexeme
import Primer.Token.Trivia

namespace Primer

/-! ### Cursors -/

/-- A place in a source text. -/
structure Cursor where
  /-- the number of bytes before the place -/
  offset : Nat
  /-- the text behind the place -/
  rest : List Char
deriving Repr

namespace Cursor

/-- The start of a source text. -/
def ofString (source : String) : Cursor := ⟨0, source.toList⟩

/-- Moves behind the blanks and comments at the cursor. -/
def skipTrivia (c : Cursor) : Cursor :=
  let (gap, rest) := Trivia.between.split c.rest
  ⟨c.offset + width gap, rest⟩

/-- Reads the token at the cursor and moves behind it. -/
def next (c : Cursor) : Token × Cursor :=
  let c := c.skipTrivia
  match c.rest with
  | [] => (⟨.eof, "", ⟨c.offset, c.offset⟩⟩, c)
  | x :: xs =>
    let lexeme := Lexeme.read x xs
    let stop := c.offset + width lexeme.raw
    (⟨lexeme.kind, String.ofList lexeme.literal, ⟨c.offset, stop⟩⟩, ⟨stop, lexeme.rest⟩)

theorem skipTrivia_rest_length_le (c : Cursor) : c.skipTrivia.rest.length ≤ c.rest.length := by
  have h := congrArg List.length (Trivia.split_append .between c.rest)
  simp only [List.length_append] at h
  simp only [skipTrivia]
  omega

/-- Every token but the end of the source takes something off what is left. -/
theorem next_rest_length_lt (c : Cursor) (h : c.next.1.kind ≠ .eof) :
    c.next.2.rest.length < c.rest.length := by
  have hle := skipTrivia_rest_length_le c
  revert h
  simp only [next]
  split
  · simp
  next x xs e =>
    intro _
    have hlt := Lexeme.read_rest_length_lt x xs
    rw [e] at hle
    exact Nat.lt_of_lt_of_le hlt hle

/-- The tokens from the cursor to the end of the source, which comes last. -/
def tokens (c : Cursor) : List Token :=
  if _h : c.next.1.kind = .eof then [c.next.1] else c.next.1 :: c.next.2.tokens
termination_by c.rest.length
decreasing_by exact next_rest_length_lt c (by assumption)

end Cursor

/-- The tokens of a source text; the last one, and no other, is the end of the source. -/
def lex (source : String) : List Token := (Cursor.ofString source).tokens

/-! ### Tokens on demand -/

/-- A source being read token by token. -/
structure Lexer where
  source : String
  cursor : Cursor
  /-- has the sequence of tokens ended? -/
  finished : Bool
deriving Repr

namespace Lexer

/-- A lexer at the start of a source. -/
def ofString (source : String) : Lexer := ⟨source, .ofString source, false⟩

/-- The next token; at the end of the source, the end again and again. -/
def nextToken (l : Lexer) : Token × Lexer :=
  let (t, c) := l.cursor.next
  (t, { l with cursor := c })

/-- The next token of the sequence, which ends after the end of the source. -/
def next? (l : Lexer) : Option Token × Lexer :=
  if l.finished then
    (none, l)
  else
    let (t, l) := l.nextToken
    (some t, { l with finished := t.is .eof })

/-- All tokens that are left of the sequence. -/
def remaining (l : Lexer) : List Token × Lexer :=
  if l.finished then
    ([], l)
  else
    let tokens := l.cursor.tokens
    let stop := (tokens.getLast?.map (·.span.stop)).getD l.cursor.offset
    (tokens, { l with cursor := ⟨stop, []⟩, finished := true })

end Lexer

end Primer
