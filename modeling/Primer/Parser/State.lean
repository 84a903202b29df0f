/-
  Primer/Parser/State.lean
  ========================
  **The state of a reading, and the steps that rules are made of.**

  A reading stands on a current token and sees the tokens ahead, of which it looks at the
  first only.  The last token of a source is its end, and a reading that stands on the end
  stays there.  A rule either yields a result or fails, and keeps the state in both
  cases; whoever fails has reported why.

  Whether the nodes of the tree are placed where they were read is fixed for a whole
  reading, so the `Layout` is a parameter of its states.  Diagnostics are placed in any case.
-/
import Primer.Diagnostic
import Primer.Token.Lexer
import Primer.Tree

namespace Primer.Parser

/-- What becomes of the places of nodes. -/
inductive Layout where
  /-- a node spans the bytes that it was read from -/
  | kept
  /-- every node has the span `0..0` -/
  | erased
deriving DecidableEq, Repr

/-- The span of a node that was read from `span`. -/
def Layout.place : Layout → Span → Span
  | kept, span => span
  | erased, _ => .zero

@[simp, grind =] theorem Layout.place_kept (span : Span) : kept.place span = span := rfl

/-- Where a reading stands, and what it has found wrong so far. -/
structure State (layout : Layout := .kept) where
  current : Token
  ahead : List Token
  diagnostics : List Diagnostic
deriving Repr

variable {layout : Layout}

namespace State

/-- The start of a list of tokens, which should end in the end of the source. -/
def ofTokens : List Token → State layout
  | [] => ⟨⟨.eof, "", .zero⟩, [], []⟩
  | t :: ts => ⟨t, ts, []⟩

def ofString (source : String) : State layout := ofTokens (lex source)

/-- The token behind the current one; at the end of the source, the end again. -/
def peek (s : State layout) : Token := s.ahead.headD s.current

/-- Moves on to the next token. -/
def advance (s : State layout) : State layout :=
  match s.ahead with
  | [] => s
  | t :: ts => { s with current := t, ahead := ts }

def report (s : State layout) (span : Span) (problem : Problem) : State layout :=
  { s with diagnostics := s.diagnostics ++ [⟨problem, span⟩] }

/-- Does a statement end at a token of this kind? -/
def endsStatement : TokenKind → Bool
  | .semicolon | .rbrace | .eof => true
  | _ => false

/-- Is a token of this kind the first behind a statement? -/
def startsAnother : TokenKind → Bool
  | .letKw | .constKw | .returnKw | .functionKw | .rbrace => true
  | _ => false

/-- The current token and those ahead once a failed statement has been skipped: up to a
token that ends a statement, or one before a token that starts another. -/
def skipStatement (current : Token) : List Token → Token × List Token
  | [] => (current, [])
  | t :: ts =>
    if endsStatement current.kind || startsAnother t.kind then (current, t :: ts)
    else skipStatement t ts

/-- Skips what is left of a failed statement. -/
def synchronize (s : State layout) : State layout :=
  let (current, ahead) := skipStatement s.current s.ahead
  { s with current, ahead }

end State

/-- The sign of a rule that cannot go on; the reason has been reported. -/
inductive Failed where
  | failed
deriving DecidableEq, Repr

/-- A part of a reading. A rule of the grammar starts on the first token of its construct and ends
on the last. -/
abbrev Reading (layout : Layout) := EStateM Failed (State layout)

/-- A rule of the grammar where nodes keep their places. -/
abbrev Rule := Reading .kept

/-! ### Steps -/

def current : Reading layout Token := return (← get).current

def advance : Reading layout Unit := modify State.advance

/-- Is the next token of kind `k`? -/
def peekIs (k : TokenKind) : Reading layout Bool := return (← get).peek.is k

def report (span : Span) (problem : Problem) : Reading layout Unit := modify (·.report span problem)

/-- Reports a problem and gives up. -/
def fail {α : Type} (span : Span) (problem : Problem) : Reading layout α := do
  report span problem
  throw .failed

/-- Moves on to the next token, which must be of kind `k`. -/
def expect (k : TokenKind) (place : Place) : Reading layout Unit := do
  let next := (← get).peek
  if next.is k then advance else fail next.span (.expected k place next.kind next.literal)

/-- Moves on if the next token is of kind `k`. -/
def skip (k : TokenKind) : Reading layout Unit := do
  if ← peekIs k then advance

/-- Runs a rule; a failure becomes `none`. -/
def attempt {α : Type} (rule : Reading layout α) : Reading layout (Option α) := fun s =>
  match rule s with
  | .ok a s => .ok (some a) s
  | .error _ s => .ok none s

def synchronize : Reading layout Unit := modify State.synchronize

/-- The span of a node from `start` to the end of the current token. -/
def spanFrom (start : Nat) : Reading layout Span :=
  return layout.place ⟨start, (← current).span.stop⟩

/-- The current token as a name. -/
def identifier : Reading layout Ident := do
  let t ← current
  return ⟨layout.place t.span, t.literal⟩

/-- How often a loop can go on that moves on at least one token each time round. -/
def roundsLeft : Reading layout Nat := return (← get).ahead.length

end Primer.Parser
