import Treewalk.Tree
import Treewalk.Tree.Text
import Treewalk.Text.Quoted

namespace Treewalk

abbrev ScopeId := Nat

inductive Native.Action
  | clock
  | nothing
deriving DecidableEq, Repr, Inhabited

structure Native where
  name : String
  arity : Nat
  action : Native.Action
deriving DecidableEq, Repr, Inhabited

def Native.clock : Native := { name := "clock", arity := 0, action := .clock }

/-- `id` is the function's identity. A closure runs its declaration inside `scope`. -/
inductive Function
  | native (id : Nat) (native : Native)
  | closure (id : Nat) (decl : FunDecl) (scope : ScopeId)
deriving Repr, Inhabited

namespace Function

def id : Function → Nat
  | native id _ => id
  | closure id _ _ => id

def name : Function → String
  | native _ n => n.name
  | closure _ decl _ => decl.name.lexeme

def arity : Function → Nat
  | native _ n => n.arity
  | closure _ decl _ => decl.arity

def text : Function → String
  | native _ n => "<native fn " ++ n.name ++ ">"
  | closure _ decl _ => "<fn " ++ decl.name.lexeme ++ ">"

end Function

inductive Value
  | nil
  | bool (value : Bool)
  | number (value : Float)
  | string (value : String)
  | function (value : Function)
deriving Repr, Inhabited

def Constant.value : Constant → Value
  | nil => .nil
  | bool b => .bool b
  | number x => .number x
  | string s => .string s

namespace Value

/-- Only `nil` and `false` count as false. -/
def truthy : Value → Bool
  | nil => false
  | bool b => b
  | number _ | string _ | function _ => true

/-- Equality as programs see it: numbers as IEEE 754 compares them, functions by identity. -/
def equal : Value → Value → Bool
  | nil, nil => true
  | bool a, bool b => a == b
  | number a, number b => a == b
  | string a, string b => a == b
  | function f, function g => f.id == g.id
  | _, _ => false

def text : Value → String
  | nil => "nil"
  | bool true => "true"
  | bool false => "false"
  | number x => Decimal.text x
  | string s => s
  | function f => f.text

def inspected : Value → String
  | string s => Text.quoted s
  | v => v.text

end Value

end Treewalk
