import DeclarationChecker.CommandLine.Run

set_option autoImplicit false

namespace DeclarationChecker.CommandLine

def readBytes (path : String) : IO (Except FileFault (List UInt8)) := do
  try
    let bytes ← IO.FS.readBinFile path
    return .ok bytes.toList
  catch
    | .noFileOrDirectory .. => return .error .missing
    | .permissionDenied .. => return .error .denied
    | .inappropriateType _ 21 _ => return .error .isDirectory
    | .inappropriateType .. => return .error .notDirectory
    | .invalidArgument .. => return .error .nameTooLong
    | e => throw e

def wantedPaths (arguments : List String) : List String :=
  match parseArguments arguments with
  | .ok options => options.source :: options.grammar.toList
  | .error _ => []

def readFiles (paths : List String) : IO Files := do
  let contents ← paths.mapM fun path => return (path, ← readBytes path)
  return fun path => (contents.lookup path).getD (.error .missing)

end DeclarationChecker.CommandLine

open DeclarationChecker.CommandLine in
def main (arguments : List String) : IO UInt32 := do
  let files ← readFiles (wantedPaths arguments)
  match execute files arguments with
  | .ok result =>
    (← IO.getStdout).putStr result.output
    (← IO.getStderr).putStr result.errors
    return result.status.code.toUInt32
  | .error failure =>
    (← IO.getStderr).putStrLn failure.message
    return 1
