/-
  Primer/Proofs/Token/Content.lean
  ================================
  **What a token is, wherever it stands.**

  Of a token its kind and its literal are what counts (`Token.content`), and its length follows
  from them.  There is one exception: at the end of a source a string may lack its closing quote
  (`Token.IsOpen`), and is then shorter by one.
-/
import Primer.Proofs.Token.Tiling

namespace Primer

variable {a b source : String} {t t' : Token}

/-! ### Lengths of tokens -/

theorem Span.Holds.length {span : Span} {text : List Char} (h : span.Holds source text) :
    span.length = width text := by
  obtain ⟨before, after, h⟩ := h
  have hstart := h.start
  have hstop := h.stop
  unfold Span.length
  omega

namespace Token

/-- The token is a string without its closing quote. -/
def IsOpen (source : String) (t : Token) : Prop :=
  t.kind = .string ∧
    ∃ quote, isQuote quote = true ∧ t.span.Holds source (quote :: t.literal.toList)

theorem IsOpen.length (h : t.IsOpen source) : t.span.length = width t.literal.toList + 1 := by
  obtain ⟨-, quote, hquote, h⟩ := h
  rw [h.length, width, utf8Size_of_isQuote hquote, Nat.add_comm]

theorem StandsIn.length (h : t.StandsIn source) (hopen : ¬t.IsOpen source) :
    t.span.length = width t.literal.toList + if t.kind = .string then 2 else 0 := by
  unfold StandsIn at h
  split at h
  next hk =>
    rw [if_pos hk]
    obtain ⟨quote, hquote, -, h | ⟨h, -⟩⟩ := h
    · have hsize := utf8Size_of_isQuote hquote
      rw [h.length, width, width_append, width, width, hsize]
      omega
    · exact absurd ⟨hk, quote, hquote, h⟩ hopen
  next hk => rw [if_neg hk, h.length, Nat.add_zero]

/-- Only at the end of the source can a string lack its closing quote. -/
theorem IsOpen.stop_eq (hopen : t.IsOpen source) (h : t.StandsIn source) :
    t.span.stop = source.utf8ByteSize := by
  have hlength := hopen.length
  unfold StandsIn at h
  rw [if_pos hopen.1] at h
  obtain ⟨quote, hquote, -, h | ⟨-, h⟩⟩ := h
  · have hsize := utf8Size_of_isQuote hquote
    rw [h.length, width, width_append, width, width, hsize] at hlength
    omega
  · exact h

theorem length_eq (h : t.StandsIn a) (h' : t'.StandsIn b) (hk : t.kind = t'.kind)
    (hl : t.literal = t'.literal) (hopen : t.IsOpen a ↔ t'.IsOpen b) :
    t.span.length = t'.span.length := by
  by_cases ho : t.IsOpen a
  · rw [ho.length, (hopen.1 ho).length, hl]
  · rw [h.length ho, h'.length (mt hopen.2 ho), hk, hl]

end Token

/-! ### Contents -/

/-- What a token is, wherever it stands and however it is quoted. -/
def Token.content (t : Token) : TokenKind × String := (t.kind, t.literal)

/-- The source ends in a string without its closing quote. -/
def EndsOpen (source : String) : Prop := ∃ t ∈ lex source, t.IsOpen source

end Primer
