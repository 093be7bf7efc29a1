import JassExpr.Command

/-!
# The program

Reads the files that the arguments name, and prints what the command makes of them.
-/

namespace JassExpr

/-- The reason behind an error of the system. -/
def FileError.ofSystem : IO.Error → FileError
  | .noFileOrDirectory _ _ _ => .missing
  | .permissionDenied _ code details => .system details code.toNat
  | .inappropriateType _ code details => .system details code.toNat
  | .resourceExhausted _ code details => .system details code.toNat
  | .invalidArgument _ code details => .system details code.toNat
  | .otherError code details => .system details code.toNat
  | error => .system (toString error) 0

/-- The text of a file, or the reason why it has none. -/
def readText (path : String) : IO (Except FileError String) := do
  try
    let bytes ← IO.FS.readBinFile path
    match String.fromUTF8? bytes with
    | some text => return .ok text
    | none => return .error .notText
  catch error =>
    return .error (FileError.ofSystem error)

end JassExpr

open JassExpr in
def main (arguments : List String) : IO UInt32 := do
  let request := Request.ofArguments arguments
  let files ← request.paths.mapM fun path => do
    let content ← readText path
    return (path, content)
  let (outcome, code) := request.answer files
  (← IO.getStdout).putStr outcome.stdout
  (← IO.getStderr).putStr outcome.stderr
  return UInt32.ofNat code
