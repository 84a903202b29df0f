/-
  Primer/Token/Trivia.lean
  ========================
  **The text between tokens: blanks and comments.**

  Blanks are space, tab, carriage return and newline.  A line comment runs from `//`
  to the next newline, a block comment from `/*` to the first `*/`; either ends with
  the source when nothing closes it.  `Trivia.split` cuts the trivia off the front of
  a text and loses nothing (`split_append`).
-/

namespace Primer

/-- Where the skipping of trivia stands. -/
inductive Trivia where
  /-- between comments -/
  | between
  /-- inside a line comment -/
  | line
  /-- inside a block comment -/
  | block
deriving DecidableEq, Repr

namespace Trivia

/-- The four blank characters. -/
def isBlank (c : Char) : Bool := c == ' ' || c == '\t' || c == '\r' || c == '\n'

/-- Splits a text into the trivia at its front and what follows it. -/
def split : Trivia → List Char → List Char × List Char
  | _, [] => ([], [])
  | between, '/' :: '/' :: cs =>
    let (gap, rest) := split line cs
    ('/' :: '/' :: gap, rest)
  | between, '/' :: '*' :: cs =>
    let (gap, rest) := split block cs
    ('/' :: '*' :: gap, rest)
  | between, c :: cs =>
    if isBlank c then
      let (gap, rest) := split between cs
      (c :: gap, rest)
    else
      ([], c :: cs)
  | line, c :: cs =>
    let (gap, rest) := split (if c == '\n' then between else line) cs
    (c :: gap, rest)
  | block, '*' :: '/' :: cs =>
    let (gap, rest) := split between cs
    ('*' :: '/' :: gap, rest)
  | block, c :: cs =>
    let (gap, rest) := split block cs
    (c :: gap, rest)

/-- The trivia at the front and the rest make up the text. -/
theorem split_append (m : Trivia) (cs : List Char) : (split m cs).1 ++ (split m cs).2 = cs := by
  fun_induction split m cs <;> simp_all

end Trivia

end Primer
