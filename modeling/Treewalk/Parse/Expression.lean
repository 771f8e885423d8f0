import Treewalk.SyntaxError
import Treewalk.Tree

namespace Treewalk.Parse

open Token (Kind)

inductive Level
  | disjunction
  | conjunction
  | equality
  | comparison
  | term
  | factor
deriving DecidableEq, Repr, Inhabited

namespace Level

def rank : Level → Nat
  | disjunction => 1
  | conjunction => 2
  | equality => 3
  | comparison => 4
  | term => 5
  | factor => 6

def ofKind? : Kind → Option Level
  | .kwOr => some disjunction
  | .kwAnd => some conjunction
  | .bangEqual | .equalEqual => some equality
  | .greater | .greaterEqual | .less | .lessEqual => some comparison
  | .minus | .plus => some term
  | .slash | .star => some factor
  | _ => none

/-- Whether an operator waiting for its right side takes what has been read when an operator of
level `next` follows. Comparisons group to the right, the other levels to the left. -/
def closesBefore (level next : Level) : Bool :=
  next.rank < level.rank || (level == next && level != comparison)

def node (level : Level) (left : Expr) (op : Token) (right : Expr) : Expr :=
  match level with
  | disjunction | conjunction => .logical left op right
  | equality | comparison | term | factor => .binary left op right

end Level

inductive Pending
  | assign (target : Expr) (equals : Token)
  | operator (level : Level) (left : Expr) (op : Token)
  | unary (op : Token)
  | group
  | call (callee : Expr) (args : Array Expr)
deriving Inhabited

/-- An expression being read: `operand` is the last complete part, `none` where one must follow. -/
structure OpenExpr where
  pending : List Pending := []
  operand : Option Expr := none
deriving Inhabited

/-- What a token does to an expression being read. A completed expression leaves the token to
whoever asked for the expression. -/
inductive Progress
  | more (next : OpenExpr)
  | complete (value : Expr)
  | stuck (problem : Problem)
deriving Inhabited

def maxArguments : Nat := 255

def primary? (t : Token) : Option Expr :=
  match t.kind, t.literal with
  | .kwFalse, _ => some (.constant (.bool false))
  | .kwTrue, _ => some (.constant (.bool true))
  | .kwNil, _ => some (.constant .nil)
  | .number, some (.number x) | .string, some (.number x) => some (.constant (.number x))
  | .number, some (.string s) | .string, some (.string s) => some (.constant (.string s))
  | .identifier, _ => some (.var t)
  | _, _ => none

/-- Gives `value` to the unary operators in front of it and to the operators that `closes` names. -/
def close (closes : Level → Bool) : List Pending → Expr → List Pending × Expr
  | .unary op :: pending, value => close closes pending (.unary op value)
  | .operator level left op :: pending, value =>
    if closes level then close closes pending (level.node left op value)
    else (.operator level left op :: pending, value)
  | pending, value => (pending, value)

structure Settled where
  pending : List Pending
  value : Expr
  errors : List SyntaxError

/-- Closes everything up to the nearest bracket. Only a variable can be assigned to; any other
target is refused and stands in place of the assignment. -/
def settle : List Pending → Expr → List SyntaxError → Settled
  | .unary op :: pending, value, errors => settle pending (.unary op value) errors
  | .operator level left op :: pending, value, errors =>
    settle pending (level.node left op value) errors
  | .assign (.var name) _ :: pending, value, errors => settle pending (.assign name value) errors
  | .assign target equals :: pending, _, errors =>
    settle pending target (errors ++ [.atToken equals .assignmentTarget])
  | pending, value, errors => { pending, value, errors }

def startOperand (pending : List Pending) (t : Token) : Progress :=
  match t.kind with
  | .bang | .minus => .more { pending := .unary t :: pending }
  | .leftParen => .more { pending := .group :: pending }
  | _ =>
    match primary? t with
    | some value => .more { pending, operand := some value }
    | none => .stuck .expression

def feedOperand (pending : List Pending) (t : Token) : List SyntaxError × Progress :=
  match pending with
  | .call callee args :: outer =>
    if args.isEmpty && t.is .rightParen then
      ([], .more { pending := outer, operand := some (.call callee t []) })
    else if maxArguments ≤ args.size then
      ([.atToken t .tooManyArguments], startOperand pending t)
    else ([], startOperand pending t)
  | _ => ([], startOperand pending t)

def endInner (s : Settled) (t : Token) : Progress :=
  match s.pending with
  | .group :: outer =>
    if t.is .rightParen then .more { pending := outer, operand := some (.group s.value) }
    else .stuck .groupEnd
  | .call callee args :: outer =>
    let args := args.push s.value
    if t.is .comma then .more { pending := .call callee args :: outer }
    else if t.is .rightParen then
      .more { pending := outer, operand := some (.call callee t args.toList) }
    else .stuck .argumentsEnd
  | _ => .complete s.value

def feedOperator (pending : List Pending) (value : Expr) (t : Token) :
    List SyntaxError × Progress :=
  match t.kind, Level.ofKind? t.kind with
  | .leftParen, _ => ([], .more { pending := .call value #[] :: pending })
  | .equal, _ =>
    let (pending, target) := close (fun _ => true) pending value
    ([], .more { pending := .assign target t :: pending })
  | _, some level =>
    let (pending, left) := close (·.closesBefore level) pending value
    ([], .more { pending := .operator level left t :: pending })
  | _, none =>
    let settled := settle pending value []
    (settled.errors, endInner settled t)

namespace OpenExpr

def feed (e : OpenExpr) (t : Token) : List SyntaxError × Progress :=
  match e.operand with
  | none => feedOperand e.pending t
  | some value => feedOperator e.pending value t

end OpenExpr

end Treewalk.Parse
