import Treewalk.Options
import Treewalk.Session
import Treewalk.Text.Bytes

namespace Treewalk

structure Transcript where
  output : ByteArray := .empty
  errors : String := ""
  status : Nat := 0
deriving Inhabited

def usageStatus : Nat := 64

def noInputStatus : Nat := 66

namespace Session

def perform (s : Session) (action : Action) (source : String) : ByteArray × Report × Session :=
  match action with
  | .run =>
    let (report, s) := s.run plenty source
    let (output, s) := s.drain
    (output, report, s)
  | .tokens =>
    let (text, report) := tokenListing source
    (text.toUTF8, report, s)
  | .tree =>
    let (text, report) := treeListing source
    (text.toUTF8, report, s)

end Session

namespace CommandLine

def script (layout : SourceDiagnostic → String) (options : Options) (path : String)
    (content : Except AccessError ByteArray) (clock : Clock) : Transcript :=
  match content >>= decode with
  | .error e =>
    { errors := "Failed to access " ++ path ++ ": " ++ e.message ++ "\n", status := noInputStatus }
  | .ok source =>
    let (output, report, _) := (Session.start {} clock).perform options.action source
    { output, errors := report.render options.style layout path source,
      status := report.outcome.exitCode }

def mark : String := "> "

/-- What the prompt does with a line: the line's output and errors, and the session that goes on,
`none` when the line is not text. -/
def answer (layout : SourceDiagnostic → String) (options : Options) (session : Session)
    (line : ByteArray) : ByteArray × String × Option Session :=
  match decode line with
  | .error e => (.empty, "Failed to read input: " ++ e.message ++ "\n", none)
  | .ok source =>
    let (output, report, session) := session.perform options.action source
    (output, report.render options.style layout "<prompt>" source, some session)

def converse (layout : SourceDiagnostic → String) (options : Options) :
    Session → List (List UInt8) → Transcript → Transcript
  | _, [], t => { t with output := t.output ++ mark.toUTF8 }
  | session, line :: rest, t =>
    let (output, errors, next) := answer layout options session ⟨line.toArray⟩
    let t := { t with
      output := t.output ++ mark.toUTF8 ++ output
      errors := t.errors ++ errors }
    match next with
    | none => t
    | some session => converse layout options session rest t

def prompt (layout : SourceDiagnostic → String) (options : Options) (input : ByteArray)
    (clock : Clock) : Transcript :=
  converse layout options (.start {} clock) (lines input.data.toList) {}

/-- Arguments that cannot be understood: nothing is read or run. -/
def refuse (e : OptionsError) : Transcript :=
  { errors := e.message ++ "\n", status := usageStatus }

/-- Runs the command: `read` gives the content of a file, `input` is what is typed. -/
def run (arguments : List String) (style : Option String)
    (read : String → Except AccessError ByteArray) (input : ByteArray) (clock : Clock)
    (layout : SourceDiagnostic → String := SourceDiagnostic.record) : Transcript :=
  match Options.parse arguments style with
  | .error e => refuse e
  | .ok options =>
    match options.input with
    | .prompt => prompt layout options input clock
    | .script path => script layout options path (read path) clock

end CommandLine

end Treewalk
