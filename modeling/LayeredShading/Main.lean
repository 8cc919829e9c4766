import LayeredShading.CommandLine.Run

/-!
# The program

Reads and writes real files and prints what a run shows.
-/

namespace LayeredShading

namespace CommandLine

/-- The reason that the system gives for a failed file operation. -/
def systemReason : IO.Error → String
  | .alreadyExists _ code details | .interrupted _ code details
  | .noFileOrDirectory _ code details | .invalidArgument _ code details
  | .permissionDenied _ code details | .resourceExhausted _ code details
  | .inappropriateType _ code details | .noSuchThing _ code details
  | .otherError code details | .resourceBusy code details | .resourceVanished code details
  | .unsupportedOperation code details | .hardwareFault code details
  | .unsatisfiedConstraints code details | .illegalOperation code details
  | .protocolError code details | .timeExpired code details =>
    details ++ " (os error " ++ toString code ++ ")"
  | error => toString error

/-- The result of a file operation. -/
def attempt {α : Type} (action : IO α) : IO (Except Error α) := do
  match ← action.toBaseIO with
  | .ok value => return .ok value
  | .error error => return .error (.fileAccess (systemReason error))

/-- The text that the bytes of a file stand for. -/
def decodeText (bytes : ByteArray) : Except Error String :=
  match String.fromUTF8? bytes with
  | some text => .ok text
  | none => .error (.fileAccess "stream did not contain valid UTF-8")

/-- The files of the system. -/
def systemFiles : Files IO where
  read file := do
    let bytes ← attempt (IO.FS.withFile file .read fun handle => handle.readBinToEnd)
    return bytes.bind decodeText
  write file text := attempt (IO.FS.writeFile file text)

end CommandLine

end LayeredShading

/-- Runs the command line and gives the exit code. -/
def main (arguments : List String) : IO UInt32 := do
  let outcome ← LayeredShading.CommandLine.run LayeredShading.CommandLine.systemFiles arguments
  IO.print outcome.output
  IO.eprint outcome.errorOutput
  return outcome.code.toUInt32
