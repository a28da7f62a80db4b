import Lumen.CommandLine

/-!
# The program

Reads the file and the standard input that the arguments ask for, and puts out the report.
-/

namespace Lumen

/-- The rest of a stream. -/
partial def readAll (stream : IO.FS.Stream) (text : String) : IO String := do
  let line ← stream.getLine
  if line.isEmpty then return text else readAll stream (text ++ line)

def readContents (file : String) : IO CommandLine.Contents := do
  try
    return .text (← IO.FS.readFile file)
  catch _ => return .missing

def putReport (r : CommandLine.Report) : IO UInt32 := do
  for (file, text) in r.files do IO.FS.writeFile file text
  IO.print r.output
  IO.eprint r.errors
  match r.ending with
  | .done => return 0
  | .exit code => return UInt32.ofNat (code % 256).toNat
  | _ => return 1

end Lumen

def main (args : List String) : IO UInt32 := do
  match Lumen.CommandLine.Request.ofArguments args with
  | .help =>
    IO.println "usage: lumen [-h] [-v] [--emit-ast LUM_FILE | --ast AST_JSON_FILE] [program]"
    return 0
  | .usage =>
    IO.eprintln "usage: lumen [-h] [-v] [--emit-ast LUM_FILE | --ast AST_JSON_FILE] [program]"
    return 2
  | .run options =>
    let contents ←
      match options.command.file? with
      | some file => Lumen.readContents file
      | none => pure .missing
    let input ← Lumen.readAll (← IO.getStdin) ""
    Lumen.putReport (Lumen.CommandLine.perform .standard options contents input)
