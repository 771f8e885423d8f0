import Treewalk.Fault
import Treewalk.Sink
import Treewalk.Store

namespace Treewalk

/-- The readings of the host's clock: `reading n` answers the question asked after `n` others. -/
structure Clock where
  reading : Nat → Float
  asked : Nat := 0

namespace Clock

def ticking (start : Float) : Clock := { reading := fun n => start + Float.ofNat n / 1000000 }

instance : Inhabited Clock := ⟨ticking 0⟩

end Clock

structure Machine where
  store : Store
  globals : ScopeId
  current : ScopeId
  sink : Sink
  clock : Clock
deriving Inhabited

def Machine.start (sink : Sink) (clock : Clock) : Machine :=
  let (globals, store) := Store.add {} {}
  let (value, store) := store.native .clock
  { store := store.define globals Native.clock.name value, globals, current := globals, sink, clock }

inductive Halt
  | fault (f : Fault)
  | exhausted
deriving DecidableEq, Repr, Inhabited

abbrev Eval := EStateM Halt Machine

namespace Eval

def fault {α : Type} (t : Token) (cause : Cause) : Eval α := throw (.fault (.atToken t cause))

def pin {α : Type} (t : Token) : Except Cause α → Eval α
  | .ok a => pure a
  | .error cause => fault t cause

def lookup (name : Token) : Eval Value := do
  let m ← get
  match m.store.get? m.current name.lexeme with
  | some v => pure v
  | none => fault name (.undefinedVariable name.lexeme)

def assign (name : Token) (v : Value) : Eval Unit := fun m =>
  match m.store.find? m.current name.lexeme with
  | some (holder, _) => .ok () { m with store := m.store.define holder name.lexeme v }
  | none => fault name (.undefinedVariable name.lexeme) m

def define (name : Token) (v : Value) : Eval Unit := fun m =>
  .ok () { m with store := m.store.define m.current name.lexeme v }

def closure (decl : FunDecl) : Eval Value := fun m =>
  let (v, store) := m.store.closure decl m.current
  .ok v { m with store }

/-- Runs an action in a new scope inside `parent`. The scope before it comes back however the
action ends. -/
def inside {α : Type} (parent : ScopeId) (bindings : List (String × Value)) (act : Eval α) :
    Eval α := fun m =>
  let before := m.current
  let (scope, store) := m.store.add { bindings, parent := some parent }
  match act { m with store, current := scope } with
  | .ok a m => .ok a { m with current := before }
  | .error h m => .error h { m with current := before }

def nested {α : Type} (act : Eval α) : Eval α := do
  let m ← get
  inside m.current [] act

def print (keyword : Token) (v : Value) : Eval Unit := fun m =>
  match m.sink.write (v.text ++ "\n").toUTF8 with
  | (none, sink) => .ok () { m with sink }
  | (some refusal, sink) => fault keyword (.output refusal.message) { m with sink }

def readClock : Eval Float := fun m =>
  .ok (m.clock.reading m.clock.asked) { m with clock := { m.clock with asked := m.clock.asked + 1 } }

end Eval

end Treewalk
