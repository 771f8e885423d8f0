namespace Treewalk

inductive AccessError
  | notFound
  | notDirectory
  | isDirectory
  | notText
  | other (text : String)
deriving DecidableEq, Repr, Inhabited

def AccessError.message : AccessError → String
  | notFound => "No such file or directory (os error 2)"
  | notDirectory => "Not a directory (os error 20)"
  | isDirectory => "Is a directory (os error 21)"
  | notText => "stream did not contain valid UTF-8"
  | other text => text

namespace CommandLine

def decode (bytes : ByteArray) : Except AccessError String :=
  match String.fromUTF8? bytes with
  | some text => .ok text
  | none => .error .notText

/-- The lines of the input, without their ends: a line feed, or a carriage return and a line feed.
The last line need not have an end. -/
def lines : List UInt8 → List (List UInt8)
  | [] => []
  | b :: bs =>
    if b = 10 then [] :: lines bs
    else
      match b, bs, lines bs with
      | 13, 10 :: _, rest => rest
      | _, _, [] => [[b]]
      | _, _, line :: rest => (b :: line) :: rest

end CommandLine

/-- The text of bytes in UTF-8 of which the last character may have been cut short; what is left of
such a character shows as the replacement character. -/
def Text.ofBytes (bytes : ByteArray) : String :=
  match String.fromUTF8? bytes with
  | some text => text
  | none =>
    let kept := [1, 2, 3].findSome? fun n => String.fromUTF8? (bytes.extract 0 (bytes.size - n))
    kept.getD "" ++ "�"

end Treewalk
