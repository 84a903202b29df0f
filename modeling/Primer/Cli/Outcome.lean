/-
  Primer/Cli/Outcome.lean
  =======================
  **What a run of the program leaves behind.**
-/
import Primer.Eval.Basic

namespace Primer.Cli

/-- What was written to the two outputs. -/
structure Output where
  stdout : String := ""
  stderr : String := ""
deriving DecidableEq, Repr

namespace Output

/-- One output after another. -/
def append (a b : Output) : Output := ⟨a.stdout ++ b.stdout, a.stderr ++ b.stderr⟩

instance : Append Output := ⟨append⟩

/-- A line on standard output. -/
def line (text : String) : Output := { stdout := text ++ "\n" }

/-- A line on standard error. -/
def errorLine (text : String) : Output := { stderr := text ++ "\n" }

/-- Lines on standard error. -/
def errorLines (texts : List String) : Output := { stderr := String.join (texts.map (· ++ "\n")) }

end Output

/-- The outputs of a run and its exit code. -/
structure Outcome where
  exit : Nat
  output : Output
deriving DecidableEq, Repr

namespace Outcome

/-- The outcome, with output that came before it. -/
def after (before : Output) (o : Outcome) : Outcome := { o with output := before ++ o.output }

/-- The end of a run that cannot go on. -/
def fatal (message : String) : Outcome := ⟨1, .errorLine ("Error: " ++ message)⟩

/-- The end of a run that cannot go on, and what caused it. -/
def fatalBecause (message cause : String) : Outcome :=
  fatal (message ++ "\n\nCaused by:\n    " ++ cause)

end Outcome

end Primer.Cli
