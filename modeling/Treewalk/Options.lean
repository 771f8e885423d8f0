import Treewalk.Diagnostic

namespace Treewalk

inductive Action
  | run
  | tokens
  | tree
deriving DecidableEq, Repr, Inhabited

inductive Input
  | prompt
  | script (path : String)
deriving DecidableEq, Repr, Inhabited

inductive OptionsError
  | usage
  | unknownOption (text : String)
  | unknownStyle (text : String)
deriving DecidableEq, Repr, Inhabited

def OptionsError.message : OptionsError → String
  | usage => "Usage: lox-lang [--tokens | --print-ast] [script]"
  | unknownOption text =>
    "Unknown option `" ++ text ++ "`\nUsage: lox-lang [--tokens | --print-ast] [script]"
  | unknownStyle text =>
    "Unknown diagnostics style `" ++ text ++
      "` in LOX_DIAGNOSTICS (expected `plain` or `fancy`)"

namespace Text

/-- The characters with the property `White_Space`. -/
def isBlank (c : Char) : Bool :=
  let n := c.toNat
  (0x09 ≤ n && n ≤ 0x0d) || n == 0x20 || n == 0x85 || n == 0xa0 || n == 0x1680 ||
    (0x2000 ≤ n && n ≤ 0x200a) || n == 0x2028 || n == 0x2029 || n == 0x202f || n == 0x205f ||
    n == 0x3000

def trim (s : List Char) : List Char :=
  ((s.dropWhile isBlank).reverse.dropWhile isBlank).reverse

end Text

namespace Style

/-- White space around the name and the case of its letters do not matter. -/
def parse (text : String) : Except OptionsError Style :=
  let name := String.ofList ((Text.trim text.toList).map Char.toLower)
  if name = "" ∨ name = "plain" then .ok plain
  else if name = "fancy" then .ok fancy
  else .error (.unknownStyle name)

end Style

structure Arguments where
  action : Action := .run
  script : Option String := none
deriving DecidableEq, Repr, Inhabited

namespace Arguments

def choose (a : Arguments) (action : Action) : Except OptionsError Arguments :=
  if a.action = .run then .ok { a with action } else .error .usage

def add (a : Arguments) (text : String) : Except OptionsError Arguments :=
  if text = "--tokens" then a.choose .tokens
  else if text = "--print-ast" then a.choose .tree
  else if ['-', '-'].isPrefixOf text.toList then .error (.unknownOption text)
  else if a.script.isSome then .error .usage
  else .ok { a with script := some text }

def input (a : Arguments) : Input :=
  match a.script with
  | none => .prompt
  | some path => .script path

end Arguments

structure Options where
  input : Input
  action : Action
  style : Style
deriving DecidableEq, Repr, Inhabited

namespace Options

def parse (arguments : List String) (style : Option String) : Except OptionsError Options := do
  let read ← arguments.foldlM Arguments.add {}
  let style ← match style with
    | none => pure .plain
    | some text => Style.parse text
  return { input := read.input, action := read.action, style }

end Options

end Treewalk
