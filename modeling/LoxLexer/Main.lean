/-
The program `lox` on the real system. Arguments and variables come as texts
here; a path that is no text cannot be handed to the system, and counts as one
where nothing stands.
-/
import LoxLexer.Command.Run
import Std.Time

namespace LoxLexer.Command

/-- The present time in UTC, to the microsecond. -/
def timeStamp : IO String := do
  let now ← Std.Time.Timestamp.now
  let time := Std.Time.PlainDateTime.ofWallTime (now.toWallTime .zero)
  return time.format "uuuu-MM-dd'T'HH:mm:ss.SSSSSS'Z'"

/-- The failure that the system reports. -/
def failureOf : IO.Error → ReadFailure
  | .noFileOrDirectory _ _ _ => .notFound
  | .inappropriateType _ 20 _ => .notADirectory
  | .inappropriateType _ 21 _ => .isADirectory
  | .inappropriateType _ code reason | .permissionDenied _ code reason
  | .invalidArgument _ code reason | .resourceExhausted _ code reason
  | .noSuchThing _ code reason | .alreadyExists _ code reason
  | .interrupted _ code reason | .otherError code reason | .resourceBusy code reason
  | .resourceVanished code reason | .unsupportedOperation code reason
  | .hardwareFault code reason | .unsatisfiedConstraints code reason
  | .illegalOperation code reason | .protocolError code reason
  | .timeExpired code reason => .refused reason code.toNat
  | .unexpectedEof => .refused "Unexpected end of file" 0
  | .userError reason => .refused reason 0

/-- What stands at a path. -/
def readContent (path : OsString) : IO Content := do
  if path.bytes.contains 0 then return .error .zeroInPath
  match path.text? with
  | none => return .error .notFound
  | some name =>
    try
      let file ← IO.FS.Handle.mk ⟨name⟩ .read
      return .ok (← file.readBinToEnd)
    catch e =>
      return .error (failureOf e)

/-- The real system. A text is there when the write is over, and a record gets
the present time. -/
def System.real : System IO where
  read := readContent
  write
    | .output, text => do
      let output ← IO.getStdout
      output.putStr text
      output.flush
    | .error, text => do (← IO.getStderr).putStr text
  record render := do (← IO.getStderr).putStr (render (← timeStamp))

end LoxLexer.Command

open LoxLexer LoxLexer.Command in
def main (arguments : List String) : IO UInt32 := do
  let lookUp (name : String) : IO (Option OsString) := do
    return (← IO.getEnv name).map .ofString
  let env : Environment :=
    { verbose := ← lookUp "LOX_VERBOSE"
      noColor := ← lookUp "LOX_NO_COLOR"
      log := ← lookUp "LOX_LOG" }
  return UInt32.ofNat (← program .real builtin env (arguments.map .ofString))
