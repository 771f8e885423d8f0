import Treewalk.CommandLine

namespace Treewalk

inductive Entry
  | file (content : ByteArray)
  | directory
deriving Inhabited

/-- Entries by the names on their paths. A directory that an entry lies in need not be listed. -/
structure Directory where
  entries : List (List String × Entry)
deriving Inhabited

namespace Directory

inductive Position
  | inside (path : List String)
  | above
deriving Inhabited

def entry? (d : Directory) (path : List String) : Option Entry :=
  if path.isEmpty then some .directory
  else
    match d.entries.lookup path with
    | some e => some e
    | none =>
      if d.entries.any fun (p, _) => path.isPrefixOf p then some .directory else none

/-- Follows one name of a path. A file has nothing below it, not even itself. -/
def follow (d : Directory) (position : Position) (name : String) : Except AccessError Position :=
  match position with
  | .above => if name = "" ∨ name = "." ∨ name = ".." then .ok .above else .error .notFound
  | .inside path =>
    match d.entry? path with
    | none => .error .notFound
    | some (.file _) => .error .notDirectory
    | some .directory =>
      if name = "" ∨ name = "." then .ok position
      else if name = ".." then .ok (if path.isEmpty then .above else .inside path.dropLast)
      else if (d.entry? (path ++ [name])).isSome then .ok (.inside (path ++ [name]))
      else .error .notFound

def read (d : Directory) (path : String) : Except AccessError ByteArray := do
  if path = "" then throw .notFound
  let names := path.splitOn "/"
  let start := if path.toList.head? = some '/' then Position.above else .inside []
  match ← names.foldlM d.follow start with
  | .above => throw .isDirectory
  | .inside path =>
    match d.entry? path with
    | some (.file content) => return content
    | some .directory => throw .isDirectory
    | none => throw .notFound

end Directory

end Treewalk
