import Treewalk.Parse.Statement
import Treewalk.Scan

namespace Treewalk

structure Parsed where
  statements : List Stmt
  errors : List SyntaxError
deriving Inhabited

namespace Parse

def body (tokens : List Token) : List Token := tokens.takeWhile (!·.is .eof)

/-- The first end-of-input token; a list without one ends right after its last token. -/
def ending (tokens : List Token) : Token :=
  match tokens.find? (·.is .eof) with
  | some eof => eof
  | none =>
    let (line, offset) := (tokens.getLast?.map fun t => (t.line, t.span.stop)).getD (1, 0)
    { kind := .eof, lexeme := "", line, span := ⟨offset, offset⟩ }

end Parse

/-- Tokens after the first end-of-input token do not matter. -/
def parse (tokens : List Token) : Parsed :=
  let state := ((Parse.body tokens).foldl Parse.State.feed {}).finish (Parse.ending tokens)
  { statements := state.program.done.toList, errors := state.errors.toList }

/-- Errors of the text come before those of the grammar. -/
def parseSource (source : String) : Parsed :=
  let scanned := scan source
  let parsed := parse scanned.tokens
  { parsed with errors := scanned.errors ++ parsed.errors }

end Treewalk
