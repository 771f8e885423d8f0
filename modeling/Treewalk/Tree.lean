import Treewalk.Token

namespace Treewalk

inductive Constant
  | nil
  | bool (value : Bool)
  | number (value : Float)
  | string (value : String)
deriving DecidableEq, Repr, Inhabited

inductive Expr
  | constant (value : Constant)
  | group (inner : Expr)
  | unary (op : Token) (operand : Expr)
  | binary (left : Expr) (op : Token) (right : Expr)
  | logical (left : Expr) (op : Token) (right : Expr)
  | var (name : Token)
  | assign (name : Token) (value : Expr)
  | call (callee : Expr) (paren : Token) (args : List Expr)
deriving Repr, Inhabited

inductive Stmt
  | expression (value : Expr)
  | print (keyword : Token) (value : Expr)
  | varDecl (name : Token) (initial : Option Expr)
  | block (body : List Stmt)
  | ifElse (condition : Expr) (thenBranch : Stmt) (elseBranch : Option Stmt)
  | whileLoop (condition : Expr) (body : Stmt)
  | funDecl (name : Token) (params : List Token) (body : List Stmt)
  | ret (keyword : Token) (value : Option Expr)
deriving Repr, Inhabited

structure FunDecl where
  name : Token
  params : List Token
  body : List Stmt
deriving Repr, Inhabited

namespace FunDecl

def arity (f : FunDecl) : Nat := f.params.length

end FunDecl

end Treewalk
