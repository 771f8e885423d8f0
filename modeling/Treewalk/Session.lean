import Treewalk.Diagnostic
import Treewalk.Evaluate
import Treewalk.Parse

namespace Treewalk

/-- How a run ended. `exhausted` means that its allowance was used up first. -/
inductive Outcome
  | success
  | staticError
  | runtimeError
  | exhausted
deriving DecidableEq, Repr, Inhabited

def Outcome.exitCode : Outcome → Nat
  | success => 0
  | staticError => 65
  | runtimeError => 70
  | exhausted => 75

structure Report where
  outcome : Outcome
  diagnostics : List Diagnostic
deriving DecidableEq, Repr, Inhabited

namespace Report

def ofErrors (errors : List SyntaxError) : Report :=
  { outcome := if errors.isEmpty then .success else .staticError
    diagnostics := errors.map .ofSyntaxError }

def ofHalt : Halt → Report
  | .fault f => { outcome := .runtimeError, diagnostics := [.ofFault f] }
  | .exhausted => { outcome := .exhausted, diagnostics := [] }

def render (r : Report) (style : Style) (layout : SourceDiagnostic → String)
    (name source : String) : String :=
  String.join (r.diagnostics.map fun d => d.render style name source layout ++ "\n")

end Report

structure Session where
  machine : Machine
deriving Inhabited

namespace Session

def start (sink : Sink) (clock : Clock) : Session := { machine := .start sink clock }

def run (s : Session) (fuel : Nat) (source : String) : Report × Session :=
  let parsed := parseSource source
  if parsed.errors.isEmpty then
    match interpret fuel parsed.statements s.machine with
    | .ok _ machine => (.ofErrors [], { machine })
    | .error halt machine => (.ofHalt halt, { machine })
  else (.ofErrors parsed.errors, s)

def withClock (s : Session) (clock : Clock) : Session := { machine := { s.machine with clock } }

def drain (s : Session) : ByteArray × Session :=
  let (bytes, sink) := s.machine.sink.drain
  (bytes, { machine := { s.machine with sink } })

end Session

def tokenListing (source : String) : String × Report :=
  let scanned := scan source
  (String.join (scanned.tokens.map fun t => t.text ++ "\n"), .ofErrors scanned.errors)

def treeListing (source : String) : String × Report :=
  let scanned := scan source
  let parsed := parse scanned.tokens
  (String.join (parsed.statements.map fun s => s.text ++ "\n"),
    .ofErrors (scanned.errors ++ parsed.errors))

end Treewalk
