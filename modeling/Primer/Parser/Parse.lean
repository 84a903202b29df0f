/-
  Primer/Parser/Parse.lean
  ========================
  **Reading a source text as a program.**

  Reading never gives up: `parse` yields the program of all statements that could be read,
  with the diagnostics for the rest.  A strict reading rejects a source that has any.
-/
import Primer.Parser.Rules
import Primer.Tree.Spans

namespace Primer

namespace Parser.State

variable {layout : Layout}

/-- Reads all that is left of the source. -/
def readProgram (s : State layout) : Program Unit × State layout :=
  match program s with
  | .ok p s => (p, s)
  | .error _ s => (⟨.zero, []⟩, s)

/-- The diagnostics so far, and the state without them. -/
def takeDiagnostics (s : State layout) : List Diagnostic × State layout :=
  (s.diagnostics, { s with diagnostics := [] })

end Parser.State

/-- The statements of a source that could be read, and the diagnostics for the rest. -/
def parseAs (layout : Parser.Layout) (source : String) : Program Unit × List Diagnostic :=
  let (p, s) := (Parser.State.ofString source : Parser.State layout).readProgram
  (p, s.diagnostics)

/-- The same, with every node in the place that it was read from. -/
def parse (source : String) : Program Unit × List Diagnostic := parseAs .kept source

/-- How to read a source. -/
structure ParseOptions where
  /-- reject a source that has diagnostics -/
  strict : Bool := false
  /-- give every node the span `0..0`; diagnostics keep theirs -/
  eraseSpans : Bool := false
deriving DecidableEq, Repr

def ParseOptions.layout (options : ParseOptions) : Parser.Layout :=
  if options.eraseSpans then .erased else .kept

def parseWith (options : ParseOptions) (source : String) :
    Except Rejection (Program Unit × List Diagnostic) :=
  let (p, diagnostics) := parseAs options.layout source
  if options.strict && !diagnostics.isEmpty then
    .error ⟨diagnostics⟩
  else
    .ok (p, diagnostics)

end Primer
