import Treewalk.Value

namespace Treewalk

def setBinding (x : String) (v : Value) : List (String × Value) → List (String × Value)
  | [] => [(x, v)]
  | (y, w) :: rest => if y = x then (x, v) :: rest else (y, w) :: setBinding x v rest

structure Scope where
  bindings : List (String × Value) := []
  parent : Option ScopeId := none
deriving Repr, Inhabited

namespace Scope

def get? (s : Scope) (x : String) : Option Value := s.bindings.lookup x

def set (s : Scope) (x : String) (v : Value) : Scope :=
  { s with bindings := setBinding x v s.bindings }

def names (s : Scope) : List String := s.bindings.map Prod.fst

end Scope

structure Store where
  scopes : Array Scope := #[]
  functions : Nat := 0
deriving Repr, Inhabited

namespace Store

def add (s : Store) (scope : Scope) : ScopeId × Store :=
  (s.scopes.size, { s with scopes := s.scopes.push scope })

def parent? (s : Store) (e : ScopeId) : Option ScopeId := s.scopes[e]?.bind Scope.parent

/-- The nearest scope that holds `x`, seen from `e`, and the value it holds. -/
def find? (s : Store) (e : ScopeId) (x : String) : Option (ScopeId × Value) :=
  match s.scopes[e]? with
  | none => none
  | some scope =>
    match scope.get? x with
    | some v => some (e, v)
    | none =>
      match scope.parent with
      | none => none
      | some p => if p < e then s.find? p x else none
termination_by e

def get? (s : Store) (e : ScopeId) (x : String) : Option Value := (s.find? e x).map Prod.snd

def define (s : Store) (e : ScopeId) (x : String) (v : Value) : Store :=
  { s with scopes := s.scopes.modify e (·.set x v) }

/-- Changes the nearest binding of `x`; there is nothing to change when no scope holds it. -/
def assign? (s : Store) (e : ScopeId) (x : String) (v : Value) : Option Store :=
  match s.find? e x with
  | some (holder, _) => some (s.define holder x v)
  | none => none

def depth (s : Store) (e : ScopeId) : Nat :=
  match s.parent? e with
  | none => 0
  | some p => if p < e then s.depth p + 1 else 0
termination_by e

def closure (s : Store) (decl : FunDecl) (scope : ScopeId) : Value × Store :=
  (.function (.closure s.functions decl scope), { s with functions := s.functions + 1 })

def native (s : Store) (n : Native) : Value × Store :=
  (.function (.native s.functions n), { s with functions := s.functions + 1 })

def summary (s : Store) (e : ScopeId) : String :=
  let names := (s.scopes[e]?.map Scope.names).getD []
  let sorted := names.mergeSort fun a b => decide (a ≤ b)
  "Environment \x7b names: [" ++ separated ", " (sorted.map Text.quoted) ++ "], depth: " ++
    toString (s.depth e) ++ " \x7d"

end Store

end Treewalk
