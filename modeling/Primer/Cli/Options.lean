/-
  Primer/Cli/Options.lean
  =======================
  **The arguments of the command line.**

  Arguments are read from left to right; the first one that is wrong, or that asks for the
  version or for help, decides.  Every option may be given once, options and the file may
  stand in any order, and `--` ends the options.
-/
import Primer.Eval.Run
import Primer.Token.Lexeme

namespace Primer.Cli

/-- What a run was asked to do. -/
structure Options where
  /-- the source file; without one, lines are read from standard input -/
  file : Option String := none
  tokens : Bool := false
  ast : Bool := false
  sexpr : Bool := false
  strict : Bool := false
  log : Bool := false
  maxDepth : Option Nat := none
deriving DecidableEq, Repr

namespace Options

/-- Is the source to be shown and not evaluated? -/
def inspecting (o : Options) : Bool := o.tokens || o.ast || o.sexpr

def bounds (o : Options) : Bounds := { calls := o.maxDepth.getD defaultCallDepth }

def parseOptions (o : Options) : ParseOptions := { strict := o.strict }

end Options

/-- What arguments ask for. -/
inductive Request where
  | run (options : Options)
  | version
  | help
  /-- the arguments cannot be understood -/
  | misuse
deriving DecidableEq, Repr

/-- A number of 64 bits without sign: digits, perhaps behind a `+`. -/
def readNumber? (s : String) : Option Nat :=
  let digits := match s.toList with
    | '+' :: cs => cs
    | cs => cs
  let n := Nat.ofDigitChars 10 digits 0
  if !digits.isEmpty && digits.all isDigit && n ≤ 18446744073709551615 then some n else none

/-- Sets an option that has not been given yet. -/
def Options.giveDepth? (o : Options) (value : String) : Option Options :=
  match o.maxDepth, readNumber? value with
  | none, some n => some { o with maxDepth := some n }
  | _, _ => none

/-- Sets a flag that has not been given yet. -/
def Options.giveFlag? (o : Options) : String → Option Options
  | "--tokens" => if o.tokens then none else some { o with tokens := true }
  | "--ast" => if o.ast then none else some { o with ast := true }
  | "--sexpr" => if o.sexpr then none else some { o with sexpr := true }
  | "--strict" => if o.strict then none else some { o with strict := true }
  | "--log" => if o.log then none else some { o with log := true }
  | _ => none

/-- Takes an argument as the file, of which there is one, with a name that is not empty. -/
def Options.giveFile? (o : Options) (name : String) : Option Options :=
  if name.isEmpty || o.file.isSome then none else some { o with file := some name }

/-- Reads arguments behind `--`: only a file may stand there. -/
def readFiles (o : Options) : List String → Request
  | [] => .run o
  | name :: rest =>
    match o.giveFile? name with
    | some o => readFiles o rest
    | none => .misuse

/-- The value that an argument `option=value` gives an option. -/
def attachedValue? (option arg : String) : Option String :=
  let start := (option ++ "=").toList
  if start.isPrefixOf arg.toList then some (String.ofList (arg.toList.drop start.length)) else none

/-- Reads arguments on top of those read before. -/
def readArgs (o : Options) : List String → Request
  | [] => .run o
  | "--" :: rest => readFiles o rest
  | "--version" :: _ => .version
  | "--help" :: _ => .help
  | ["--max-depth"] => .misuse
  | "--max-depth" :: value :: rest =>
    match o.giveDepth? value with
    | some o => readArgs o rest
    | none => .misuse
  | arg :: rest =>
    match arg.toList with
    | '-' :: 'V' :: _ => .version
    | '-' :: 'h' :: _ => .help
    | chars =>
      let given :=
        match attachedValue? "--max-depth" arg, chars with
        | some value, _ => o.giveDepth? value
        | none, '-' :: _ :: _ => o.giveFlag? arg
        | none, _ => o.giveFile? arg
      match given with
      | some o => readArgs o rest
      | none => .misuse

/-- What the arguments ask for. -/
def Request.ofArgs (args : List String) : Request := readArgs {} args

end Primer.Cli
