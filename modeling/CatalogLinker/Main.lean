import CatalogLinker.CommandLine.Run

namespace CatalogLinker.CommandLine

def fileErrorOf : IO.Error → IO FileError
  | .noFileOrDirectory _ _ _ => pure .notFound
  | .inappropriateType _ 21 _ => pure .isDirectory
  | .inappropriateType _ _ _ => pure .notDirectory
  | .invalidArgument _ 36 _ => pure .nameTooLong
  | .noSuchThing _ 6 _ => pure .noDevice
  | .resourceExhausted _ 28 _ => pure .noSpace
  | e => throw e

def readPath (path : String) : IO (Except FileError String) := do
  try
    let bytes ← IO.FS.readBinFile path
    return match String.fromUTF8? bytes with
      | some s => .ok s
      | none => .error .notText
  catch e => return .error (← fileErrorOf e)

def writePath (path text : String) : IO (Except FileError Unit) := do
  try
    IO.FS.writeFile path text
    return .ok ()
  catch e => return .error (← fileErrorOf e)

def finish (r : Result) : IO UInt32 := do
  IO.eprint r.stderr
  IO.print r.stdout
  return r.exit

def runProgram (args : List String) : IO UInt32 := do
  let paths := match Command.ofArgs args with
    | .ok c => c.inputs
    | .error _ => []
  let files ← paths.mapM fun path => return (path, ← readPath path)
  match start (fun path => (files.lookup path).getD (.error .notFound)) args with
  | .ended r => finish r
  | .linked output text notices =>
    match ← writePath output text with
    | .ok () => finish { exit := 0, stderr := notices }
    | .error e => finish (failed (.file e) output notices)

end CatalogLinker.CommandLine

def main (args : List String) : IO UInt32 :=
  CatalogLinker.CommandLine.runProgram args
