import Symbolizer.CommandLine

/-! # Program

Reads the file that the arguments name and prints what the command line answers.
-/

open Symbolizer CommandLine in
def main (arguments : List String) : IO UInt32 := do
  let file ← match parse arguments with
    | .error _ | .ok (.help _) => pure none
    | .ok (.run options) =>
      try
        let bytes ← IO.FS.readBinFile options.file
        pure (some bytes.data.toList)
      catch _ => pure none
  let programName := (← IO.appPath).fileName.getD ""
  let output := run programName (fun _ => file) arguments
  IO.eprint (Message.report output.log)
  for record in output.records do
    IO.println record
  match output.ending with
  | .success => pure ()
  | .usage error => IO.eprintln error.message
  | .failed error => IO.eprintln ("Error: " ++ error.message)
  | .fatal cause => IO.eprintln cause.message
  pure output.ending.exitCode
