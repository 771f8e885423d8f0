
namespace Treewalk

/-- How a full sink refuses: by an error of its own, or by taking no byte. -/
inductive Refusal
  | full
  | stalled
deriving DecidableEq, Repr, Inhabited

def Refusal.message : Refusal → String
  | full => "sink full"
  | stalled => "failed to write whole buffer"

/-- `room` is the number of bytes it still takes, `none` when there is no limit. -/
structure Sink where
  taken : ByteArray := .empty
  room : Option Nat := none
  refusal : Refusal := .full
deriving Inhabited

namespace Sink

def write (s : Sink) (data : ByteArray) : Option Refusal × Sink :=
  match s.room with
  | none => (none, { s with taken := s.taken ++ data })
  | some n =>
    if data.size ≤ n then (none, { s with taken := s.taken ++ data, room := some (n - data.size) })
    else (some s.refusal, { s with taken := s.taken ++ data.extract 0 n, room := some 0 })

def drain (s : Sink) : ByteArray × Sink := (s.taken, { s with taken := .empty })

end Sink

end Treewalk
