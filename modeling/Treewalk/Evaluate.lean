import Treewalk.Machine

namespace Treewalk

open Token (Kind)

namespace Value

def unary (op : Kind) (v : Value) : Except Cause Value :=
  match op, v with
  | .minus, number x => .ok (number (-x))
  | .minus, _ => .error .operandNotNumber
  | _, v => .ok (bool (!v.truthy))

def arithmetic (op : Kind) (x y : Float) : Except Cause Value :=
  match op with
  | .minus => .ok (number (x - y))
  | .star => .ok (number (x * y))
  | .slash => .ok (number (x / y))
  | .greater => .ok (bool (decide (y < x)))
  | .greaterEqual => .ok (bool (decide (y ≤ x)))
  | .less => .ok (bool (decide (x < y)))
  | .lessEqual => .ok (bool (decide (x ≤ y)))
  | _ => .error .operandNotNumber

def add : Value → Value → Except Cause Value
  | number x, number y => .ok (number (x + y))
  | string s, string t => .ok (string (s ++ t))
  | _, _ => .error .operandsDiffer

def binary (op : Kind) (v w : Value) : Except Cause Value :=
  match op with
  | .plus => add v w
  | .equalEqual => .ok (bool (v.equal w))
  | .bangEqual => .ok (bool (!v.equal w))
  | _ =>
    match v, w with
    | number x, number y => arithmetic op x y
    | _, _ => .error .operandNotNumber

end Value

abbrev Caller := Function → List Value → Eval Value

def invoke (call : Caller) (paren : Token) (callee : Value) (args : List Value) : Eval Value :=
  match callee with
  | .function f =>
    if args.length = f.arity then call f args
    else .fault paren (.arityMismatch f.arity args.length)
  | _ => .fault paren .notCallable

mutual

def Expr.eval (call : Caller) : Expr → Eval Value
  | .constant c => pure c.value
  | .group e => e.eval call
  | .var name => .lookup name
  | .assign name e => do
    let v ← e.eval call
    .assign name v
    pure v
  | .logical left op right => do
    let v ← left.eval call
    if op.is .kwOr == v.truthy then pure v else right.eval call
  | .unary op e => do
    let v ← e.eval call
    .pin op (v.unary op.kind)
  | .binary left op right => do
    let v ← left.eval call
    let w ← right.eval call
    .pin op (v.binary op.kind w)
  | .call callee paren args => do
    let f ← callee.eval call
    let vs ← Expr.evalAll call args
    invoke call paren f vs

def Expr.evalAll (call : Caller) : List Expr → Eval (List Value)
  | [] => pure []
  | e :: es => do
    let v ← e.eval call
    let vs ← Expr.evalAll call es
    pure (v :: vs)

end

inductive Flow
  | next
  | returned (value : Value)
deriving Inhabited

def repeatWhile (condition : Eval Bool) (body : Eval Flow) : Nat → Eval Flow
  | 0 => fun m => .error .exhausted m
  | turns + 1 => fun m =>
    match condition m with
    | .error h m => .error h m
    | .ok false m => .ok .next m
    | .ok true m =>
      match body m with
      | .ok .next m => repeatWhile condition body turns m
      | .ok (.returned v) m => .ok (.returned v) m
      | .error h m => .error h m

mutual

def Stmt.exec (call : Caller) (turns : Nat) : Stmt → Eval Flow
  | .expression e => do
    let _ ← e.eval call
    pure .next
  | .print keyword e => do
    let v ← e.eval call
    .print keyword v
    pure .next
  | .varDecl name none => do
    .define name .nil
    pure .next
  | .varDecl name (some e) => do
    let v ← e.eval call
    .define name v
    pure .next
  | .block body => .nested (Stmt.execAll call turns body)
  | .ifElse condition thenBranch none => do
    let v ← condition.eval call
    if v.truthy then thenBranch.exec call turns else pure .next
  | .ifElse condition thenBranch (some elseBranch) => do
    let v ← condition.eval call
    if v.truthy then thenBranch.exec call turns else elseBranch.exec call turns
  | .whileLoop condition body =>
    repeatWhile (Value.truthy <$> condition.eval call) (body.exec call turns) turns
  | .funDecl name params body => do
    let f ← .closure { name, params, body }
    .define name f
    pure .next
  | .ret _ none => pure (.returned .nil)
  | .ret _ (some e) => do
    let v ← e.eval call
    pure (.returned v)

def Stmt.execAll (call : Caller) (turns : Nat) : List Stmt → Eval Flow
  | [] => pure .next
  | s :: ss => do
    match ← s.exec call turns with
    | .next => Stmt.execAll call turns ss
    | .returned v => pure (.returned v)

end

def Flow.result : Flow → Value
  | next => .nil
  | returned v => v

/-- The parameters bound to the arguments; of two equal names the later wins. -/
def FunDecl.bind (f : FunDecl) (args : List Value) : List (String × Value) :=
  (f.params.zip args).foldl (fun bindings (p, v) => setBinding p.lexeme v bindings) []

def Native.run (n : Native) : Eval Value :=
  match n.action with
  | .clock => .number <$> Eval.readClock
  | .nothing => pure .nil

def Function.apply : Nat → Function → List Value → Eval Value
  | _, .native _ n, _ => n.run
  | 0, .closure _ _ _, _ => throw .exhausted
  | fuel + 1, .closure _ decl scope, args =>
    Flow.result <$> .inside scope (decl.bind args)
      (Stmt.execAll (Function.apply fuel) fuel decl.body)

/-- Runs a program. A `return` outside functions ends only the statement it is in. -/
def interpret (fuel : Nat) : List Stmt → Eval Unit
  | [] => pure ()
  | s :: ss => do
    let _ ← s.exec (Function.apply fuel) fuel
    interpret fuel ss

/-- More nested calls and loop turns than can be carried out. -/
def plenty : Nat := Nat.pow 2 62

end Treewalk
