import Treewalk.Fault
import Treewalk.SyntaxError

namespace Treewalk

inductive Style
  | plain
  | fancy
deriving DecidableEq, Repr, Inhabited

inductive Diagnostic.Kind
  | static
  | runtime
deriving DecidableEq, Repr, Inhabited

structure Diagnostic where
  kind : Diagnostic.Kind
  line : Nat
  location : Option String
  message : String
  span : Span
  help : Option String
deriving DecidableEq, Repr, Inhabited

structure SourceDiagnostic where
  name : String
  source : String
  span : Span
  help : Option String
  message : String
  label : String
deriving DecidableEq, Repr, Inhabited

namespace SourceDiagnostic

def escape (c : Char) : List Char :=
  if c = '"' then ['\\', '"']
  else if c = '\\' then ['\\', '\\']
  else if c = '\r' then ['\\', 'r']
  else if c = '\n' then ['\\', 'n']
  else if c = '\t' then ['\\', 't']
  else if c.toNat = 8 then ['\\', 'b']
  else if c.toNat = 12 then ['\\', 'f']
  else [c]

def field (key value : String) : String :=
  "\"" ++ key ++ "\": \"" ++ String.ofList (value.toList.flatMap escape) ++ "\""

/-- One record with the place as offset and length. The source is named only when the place lies
in it. -/
def record (d : SourceDiagnostic) : String :=
  let outside := d.source.utf8ByteSize < d.span.start + d.span.size - 1
  let help := (d.help.map fun h => field "help" h ++ ",").getD ""
  let span := "\"span\": \x7b\"offset\": " ++ toString d.span.start ++ ",\"length\": " ++
    toString d.span.size ++ "\x7d"
  "\x7b" ++ field "message" d.message ++ ",\"severity\": \"error\",\"causes\": []," ++ help ++
    field "filename" (if outside then "" else d.name) ++
    ",\"labels\": [\x7b" ++ field "label" d.label ++ "," ++ span ++ "\x7d],\"related\": []\x7d"

end SourceDiagnostic

namespace Diagnostic

def ofSyntaxError (e : SyntaxError) : Diagnostic :=
  { kind := .static, line := e.line, location := e.location.map Location.text,
    message := e.message, span := e.span, help := e.help }

def ofFault (f : Fault) : Diagnostic :=
  { kind := .runtime, line := f.line, location := none, message := f.message, span := f.span,
    help := none }

def plain (d : Diagnostic) : String :=
  let line := "[line " ++ toString d.line ++ "]"
  match d.kind, d.location with
  | .static, some location => line ++ " Error at " ++ location ++ ": " ++ d.message
  | .static, none => line ++ " Error: " ++ d.message
  | .runtime, _ => d.message ++ "\n" ++ line

def label (d : Diagnostic) : String :=
  match d.kind, d.location with
  | .static, some location => "error at " ++ location
  | .static, none => "here"
  | .runtime, _ => "raised on line " ++ toString d.line

def inSource (d : Diagnostic) (name source : String) : SourceDiagnostic :=
  { name, source, span := d.span, help := d.help, message := d.message, label := d.label }

/-- Fancy reports are laid out by the program that shows them. -/
def render (d : Diagnostic) (style : Style) (name source : String)
    (layout : SourceDiagnostic → String := SourceDiagnostic.record) : String :=
  match style with
  | .plain => d.plain
  | .fancy => layout (d.inSource name source)

end Diagnostic

end Treewalk
