import Optima.CommandLine

namespace Optima

def readContent (path : String) : IO (Except FileFault ByteArray) := do
  try
    return .ok (← IO.FS.readBinFile path)
  catch
    | .noFileOrDirectory .. => return .error .notFound
    | e => return .error (.other (toString e))

end Optima

open Optima in
def main (args : List String) : IO UInt32 := do
  match Command.ofArguments? args with
  | none =>
    IO.eprintln "usage: (lp | transportation | assignment) FILE [--step-limit N] [--trace] [--json]"
    return 2
  | some c =>
    let (text, error) := c.run c.file.toUTF8.toList (← readContent c.file)
    IO.print text
    match error with
    | none => return 0
    | some e =>
      IO.eprintln s!"Error: {e.message}"
      return 1
