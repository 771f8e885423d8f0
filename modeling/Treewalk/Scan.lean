import Treewalk.Lexeme
import Treewalk.SyntaxError

namespace Treewalk

structure Cursor where
  offset : Nat := 0
  line : Nat := 1
deriving DecidableEq, Repr, Inhabited

namespace Cursor

def advance (c : Cursor) (text : List Char) : Cursor :=
  { offset := c.offset + text.foldr (fun letter bytes => letter.utf8Size + bytes) 0
    line := c.line + text.count '\n' }

end Cursor

structure Scan where
  cursor : Cursor := {}
  tokens : Array Token := #[]
  errors : Array SyntaxError := #[]
deriving Inhabited

structure Scanned where
  tokens : List Token
  errors : List SyntaxError
deriving DecidableEq, Repr, Inhabited

namespace Scan

/-- A piece that spans lines counts for the line it ends on. -/
def add (s : Scan) (x : Lexeme) : Scan :=
  let cursor := s.cursor.advance x.text
  let span : Span := ⟨s.cursor.offset, cursor.offset⟩
  let error (problem : Problem) : SyntaxError :=
    { problem, line := cursor.line, location := none, span }
  match x.role with
  | .trivia => { s with cursor }
  | .token kind literal =>
    let token : Token := { kind, lexeme := String.ofList x.text, literal, line := cursor.line, span }
    { s with cursor, tokens := s.tokens.push token }
  | .stray => { s with cursor, errors := s.errors.push (error .unexpectedCharacter) }
  | .openString => { s with cursor, errors := s.errors.push (error .unterminatedString) }

def finish (s : Scan) : Scanned :=
  let stop : Token :=
    { kind := .eof, lexeme := "", line := s.cursor.line, span := ⟨s.cursor.offset, s.cursor.offset⟩ }
  { tokens := (s.tokens.push stop).toList, errors := s.errors.toList }

end Scan

def scan (source : String) : Scanned :=
  ((Lexeme.cutAll source.toList).foldl Scan.add {}).finish

end Treewalk
