/-
  Primer/Main.lean
  ================
  **The command line.**  Reading and writing only; `Primer.Cli.Run` says what is written.
-/
import Primer.Cli.Run

namespace Primer.Cli

/-- Writes what is to be written. -/
def Output.put (o : Output) : IO Unit := do
  let stdout ← IO.getStdout
  stdout.putStr o.stdout
  stdout.flush
  (← IO.getStderr).putStr o.stderr

/-- The next line of the input with its newline; no bytes at the end of the input. -/
partial def nextLine (input : IO.FS.Stream) (read : ByteArray) : IO ByteArray := do
  let b ← input.read 1
  if b.isEmpty then
    return read
  else if b.toList = [10] then
    return read ++ b
  else
    nextLine input (read ++ b)

/-- Reads and answers lines as they come. -/
partial def converse (o : Options) (input : IO.FS.Stream) (state : Eval.State) : IO Nat := do
  prompt.put
  let bytes ← nextLine input .empty
  if bytes.isEmpty then
    endOfInput.output.put
    return endOfInput.exit
  else
    match readLine o state bytes.toList with
    | (output, .readOn state) =>
      output.put
      converse o input state
    | (output, .stop outcome) =>
      (output ++ outcome.output).put
      return outcome.exit

/-- Reads the bytes of a file. -/
def readFile (name : String) : IO (Except FileFault (List UInt8)) := do
  try
    return .ok (← IO.FS.readBinFile name).toList
  catch
    | .noFileOrDirectory .. => return .error .notFound
    | .permissionDenied .. => return .error .denied
    | _ => return .error .isDirectory

end Primer.Cli

open Primer.Cli in
def main (args : List String) : IO UInt32 := do
  if keepsLog args then
    IO.FS.writeFile "app.log" ""
  match Request.ofArgs args with
  | .run o =>
    match o.file with
    | some name =>
      let outcome := runFile o name (← readFile name)
      outcome.output.put
      return outcome.exit.toUInt32
    | none =>
      return (← converse o (← IO.getStdin) .empty).toUInt32
  | _ =>
    let outcome := run args (fun _ => .error .notFound) []
    outcome.output.put
    return outcome.exit.toUInt32
