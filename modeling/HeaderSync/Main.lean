import HeaderSync.Command.Run

/-!
# The program

Runs the command line over the files of the machine.
-/

namespace HeaderSync

/-- The words of the machine for what went wrong, with its number. -/
def machineError (details : String) (code : UInt32) : Text :=
  (details ++ " (os error " ++ toString code ++ ")").toList

/-- Why the machine could not read a file. -/
def readFailure : IO.Error → Text
  | .noFileOrDirectory _ _ _ => FileError.notFound.message
  | .inappropriateType _ code details => machineError details code
  | .permissionDenied _ code details => machineError details code
  | .invalidArgument _ code details => machineError details code
  | .resourceExhausted _ code details => machineError details code
  | .userError _ => "stream did not contain valid UTF-8"
  | error => (toString error).toList

/-- The path of the file that is written before it takes the place of `path`. -/
def temporaryPath (path : Text) (stamp : Nat) : Text :=
  Path.join ((Path.parent? path).getD []) (".tmp" ++ Text.decimal stamp)

/-- Writes the content beside the path and moves it into place. -/
def replaceFile (path content : Text) : IO Bool := do
  if (Path.parent? path).isNone then return false
  let temporary := String.ofList (temporaryPath path (← IO.monoNanosNow))
  try
    IO.FS.writeFile temporary (String.ofList content)
  catch _ => return false
  try
    IO.FS.rename temporary (String.ofList path)
    return true
  catch _ =>
    IO.FS.removeFile temporary
    return false

/-- The files of the machine. -/
def machineFiles : FileSystem IO where
  workingDirectory := return (toString (← IO.currentDir)).toList
  isFile path := do
    try
      discard (IO.FS.readBinFile (String.ofList path))
      return true
    catch _ => return false
  read path := do
    try
      return .ok (← IO.FS.readFile (String.ofList path)).toList
    catch error => return .error (readFailure error)
  write := replaceFile

end HeaderSync

def main (arguments : List String) : IO UInt32 := do
  let outcome ← HeaderSync.runArguments HeaderSync.machineFiles (arguments.map String.toList)
  IO.print (String.ofList outcome.output)
  match outcome.error with
  | some report => IO.eprintln (String.ofList report)
  | none => if outcome.code = 2 then IO.eprintln "error: the arguments cannot be understood"
  return outcome.code.toUInt32
