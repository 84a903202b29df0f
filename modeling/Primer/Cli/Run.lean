/-
  Primer/Cli/Run.lean
  ===================
  **What the program does with its arguments and its input.**

  With a file, the file is run, or shown in the forms that were asked for.  Without one,
  lines are read and answered one by one; all of them share their variables.
-/
import Primer.Cli.Options
import Primer.Cli.Outcome
import Primer.Text.Blank
import Primer.Text.Utf8
import Primer.Tree.Json

namespace Primer.Cli

/-! ### Showing a source -/

/-- Shows a source in the forms that were asked for; the answer is whether it is free of
diagnostics. A strict reading may reject it, after its tokens have been shown. -/
def inspect (o : Options) (source : String) : Output × Except Rejection Bool :=
  let tokens : Output :=
    if o.tokens then .line (Json.arr ((lex source).map Token.json)).pretty else {}
  if o.ast || o.sexpr then
    match parseWith o.parseOptions source with
    | .error rejection => (tokens, .error rejection)
    | .ok (program, diagnostics) =>
      let errors := Output.errorLines (diagnostics.map (·.text))
      let ast : Output := if o.ast then .line program.json.pretty else {}
      let sexpr : Output := if o.sexpr then .line program.sexpr else {}
      (tokens ++ errors ++ ast ++ sexpr, .ok diagnostics.isEmpty)
  else
    (tokens, .ok true)

/-! ### Running a source -/

/-- What became of a source that was to be run. -/
inductive Answer where
  | value (v : Value)
  /-- the source was not run, because of what is wrong with it -/
  | unreadable (errors : Output)
  | halted (halt : Halt)

/-- Why a run gave no value. -/
def haltMessage : Halt → String
  | .error cause => cause.message
  | .exhausted => "Evaluation is nested too deeply"

namespace Answer

def output : Answer → Output
  | value v => .line v.text
  | unreadable errors => errors
  | halted halt => .errorLine (haltMessage halt)

/-- The exit code of a program with this answer. -/
def exit : Answer → Nat
  | value _ => 0
  | unreadable _ => 65
  | halted _ => 70

end Answer

/-- Runs a source that has no diagnostics. -/
def answer (o : Options) (state : Eval.State) (source : String) : Answer × Eval.State :=
  match parseWith o.parseOptions source with
  | .error rejection => (.unreadable (.errorLine rejection.message), state)
  | .ok (_, d :: ds) => (.unreadable (.errorLines ((d :: ds).map (·.text))), state)
  | .ok (program, []) =>
    match (do o.bounds.evaluate Heap.root (← load program) : Eval Value) state with
    | .ok v state => (.value v, state)
    | .error halt state => (.halted halt, state)

/-! ### Files -/

/-- Why the bytes of a file cannot be had. -/
inductive FileFault where
  | notFound
  | denied
  | isDirectory
deriving DecidableEq, Repr

namespace FileFault

/-- What could not be done: a directory can be opened, but not read. -/
def attempt : FileFault → String
  | notFound | denied => "Failed to open file "
  | isDirectory => "Failed to read file "

def message : FileFault → String
  | notFound => "No such file or directory (os error 2)"
  | denied => "Permission denied (os error 13)"
  | isDirectory => "Is a directory (os error 21)"

end FileFault

/-- Runs or shows a source. -/
def runSourceText (o : Options) (source : String) : Outcome :=
  if o.inspecting then
    match inspect o source with
    | (output, .ok true) => ⟨0, output⟩
    | (output, .ok false) => ⟨65, output⟩
    | (output, .error rejection) => (Outcome.fatal rejection.message).after output
  else
    let (a, _) := answer o .empty source
    ⟨a.exit, a.output⟩

/-- Runs or shows a file of which the bytes are given. -/
def runFile (o : Options) (name : String) : Except FileFault (List UInt8) → Outcome
  | .error fault => .fatalBecause (fault.attempt ++ Quoted.quote name) fault.message
  | .ok bytes =>
    match Utf8.decode bytes with
    | .error fault =>
      .fatalBecause ("File " ++ Quoted.quote name ++ " is not valid UTF-8") fault.message
    | .ok source => runSourceText o source

/-! ### Lines -/

/-- What is written before a line is read. -/
def prompt : Output := { stdout := "> " }

/-- Answers one line, which keeps its newline; a strict reading that shows lines ends with
the first that it rejects. -/
def respond (o : Options) (state : Eval.State) (line : String) :
    Output × Except Rejection Eval.State :=
  if isBlankText line then
    ({}, .ok state)
  else if o.inspecting then
    let (output, shown) := inspect o line
    (output, shown.map fun _ => state)
  else
    let (a, state) := answer o state line
    (a.output, .ok state)

/-- How reading lines goes on after one of them. -/
inductive Next where
  | readOn (state : Eval.State)
  | stop (outcome : Outcome)

/-- Reads one line from its bytes and answers it. -/
def readLine (o : Options) (state : Eval.State) (bytes : List UInt8) : Output × Next :=
  match Utf8.decode bytes with
  | .error _ => ({}, .stop (.fatal "stream did not contain valid UTF-8"))
  | .ok line =>
    match respond o state line with
    | (output, .ok state) => (output, .readOn state)
    | (output, .error rejection) => (output, .stop (.fatal rejection.message))

/-- The end of the input. -/
def endOfInput : Outcome := ⟨0, .line ""⟩

/-- Reads and answers lines up to the end of the input. -/
def readLines (o : Options) (state : Eval.State) : List (List UInt8) → Outcome
  | [] => endOfInput.after prompt
  | bytes :: rest =>
    match readLine o state bytes with
    | (output, .readOn state) => (readLines o state rest).after (prompt ++ output)
    | (output, .stop outcome) => outcome.after (prompt ++ output)

/-- The bytes up to and with each newline; what stands behind the last one is a line too. -/
def splitLines : List UInt8 → List (List UInt8)
  | [] => []
  | b :: bs =>
    if b = 10 then
      [b] :: splitLines bs
    else
      match splitLines bs with
      | [] => [[b]]
      | line :: lines => (b :: line) :: lines

/-! ### The whole program -/

/-- The name and version of the program. -/
def versionText : String := "ast-explorer 0.1.0"

/-- The options, for those who ask. -/
def helpText : String :=
  "Interpreter for a small teaching language\n\n"
    ++ "Usage: ast-explorer [OPTIONS] [FILENAME]\n\n"
    ++ "Arguments:\n"
    ++ "  [FILENAME]  Source file to run; starts a REPL when omitted\n\n"
    ++ "Options:\n"
    ++ "      --tokens                 Print the token stream as JSON\n"
    ++ "      --ast                    Print the parsed program as JSON\n"
    ++ "      --sexpr                  Print the parsed program as S-expressions\n"
    ++ "      --strict                 Treat any parse diagnostic as a single fatal error\n"
    ++ "      --max-depth <MAX_DEPTH>  Maximum nesting of function calls before evaluation aborts "
    ++ "[default: 128]\n"
    ++ "      --log                    Enable logging to app.log\n"
    ++ "  -h, --help                   Print help\n"
    ++ "  -V, --version                Print version"

/-- The end of a run whose arguments cannot be understood. -/
def misused : Outcome :=
  ⟨2, .errorLine "Usage: ast-explorer [OPTIONS] [FILENAME]\n\nFor more information, try '--help'."⟩

/-- Runs the program on its arguments, the files it finds and the bytes of its input. -/
def run (args : List String) (files : String → Except FileFault (List UInt8))
    (input : List UInt8) : Outcome :=
  match Request.ofArgs args with
  | .misuse => misused
  | .version => ⟨0, .line versionText⟩
  | .help => ⟨0, .line helpText⟩
  | .run o =>
    match o.file with
    | some name => runFile o name (files name)
    | none => readLines o .empty (splitLines input)

/-- Does the run keep a log? -/
def keepsLog (args : List String) : Bool :=
  match Request.ofArgs args with
  | .run o => o.log
  | _ => false

end Primer.Cli
