import Std.Time.DateTime.Timestamp
import Treewalk.CommandLine

namespace Treewalk.Main

def now : IO Float := do
  let time ← Std.Time.Timestamp.now
  return Float.ofInt time.toNanosecondsSinceUnixEpoch.toInt / 1000000000

/-- The system's number for an error, which may come with its sign changed. -/
def systemCode (code : UInt32) : UInt32 := min code (0 - code)

def accessError : IO.Error → AccessError
  | .noFileOrDirectory _ _ _ => .notFound
  | .permissionDenied _ code _ => .other s!"Permission denied (os error {systemCode code})"
  | .inappropriateType file code details =>
    if systemCode code = 20 then .notDirectory
    else if systemCode code = 21 then .isDirectory
    else .other (toString (IO.Error.inappropriateType file code details))
  | e => .other (toString e)

def readScript (path : String) : IO (Except AccessError ByteArray) := do
  try
    return .ok (← IO.FS.readBinFile path)
  catch e =>
    return .error (accessError e)

def write (output : ByteArray) (errors : String) : IO Unit := do
  let stdout ← IO.getStdout
  stdout.write output
  stdout.flush
  IO.eprint errors

/-- A line with its end, and the bytes read after it. The line is empty at the end of the input. -/
partial def readLine (input : IO.FS.Stream) (read : ByteArray) : IO (ByteArray × ByteArray) := do
  match read.data.idxOf? 10 with
  | some i => return (read.extract 0 (i + 1), read.extract (i + 1) read.size)
  | none =>
    let more ← input.read 4096
    if more.isEmpty then return (read, .empty) else readLine input (read ++ more)

partial def converse (options : Options) (session : Session) (read : ByteArray) : IO Unit := do
  write CommandLine.mark.toUTF8 ""
  let (line, read) ← readLine (← IO.getStdin) read
  match CommandLine.lines line.data.toList with
  | [] => return
  | line :: _ =>
    let (output, errors, next) :=
      CommandLine.answer SourceDiagnostic.record options
        (session.withClock (.ticking (← now))) ⟨line.toArray⟩
    write output errors
    match next with
    | none => return
    | some session => converse options session read

def copy (t : Transcript) : IO UInt32 := do
  write t.output t.errors
  return t.status.toUInt32

def command (arguments : List String) : IO UInt32 := do
  let clock := Clock.ticking (← now)
  match Options.parse arguments (← IO.getEnv "LOX_DIAGNOSTICS") with
  | .error e => copy (CommandLine.refuse e)
  | .ok options =>
    match options.input with
    | .script path =>
      copy (CommandLine.script SourceDiagnostic.record options path (← readScript path) clock)
    | .prompt =>
      converse options (.start {} clock) .empty
      return 0

end Treewalk.Main

def main (arguments : List String) : IO UInt32 := Treewalk.Main.command arguments
