import Listfile.Cli

/-!
# The program

Reads files, hands them to the command line, prints what it says and exits as
it says.
-/

namespace Listfile.Cli

/-- What a failed reading means. -/
def FileError.ofSystem : IO.Error → FileError
  | .noFileOrDirectory .. => .missing
  | .noSuchThing .. => .missing
  | .inappropriateType .. => .directory
  | e => .other (toString e)

/-- Reads a file as text. -/
def readText (path : String) : IO (Except FileError String) := do
  try
    let bytes ← IO.FS.readBinFile path
    match String.fromUTF8? bytes with
    | some text => return .ok text
    | none => return .error .notText
  catch e => return .error (.ofSystem e)

/-- The files that the arguments may name, each read once. -/
def readFiles (paths : List String) : IO Files := do
  let contents ← paths.mapM fun path => return (path, ← readText path)
  return fun path => ((contents.find? (·.1 == path)).map (·.2)).getD (.error .missing)

end Listfile.Cli

/-- Runs the tool on the arguments of the program. -/
def main (args : List String) : IO UInt32 := do
  let files ← Listfile.Cli.readFiles (args.drop 1)
  let outcome := Listfile.Cli.run args files
  IO.print outcome.stdout
  IO.eprint outcome.stderr
  return outcome.code.toUInt32
