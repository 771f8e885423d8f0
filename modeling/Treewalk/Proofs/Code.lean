import Treewalk.Tree

namespace Treewalk

inductive Code
  | expr (e : Expr)
  | exprs (es : List Expr)
  | stmt (s : Stmt)
  | stmts (ss : List Stmt)

/-- A part that runs, if it runs, in the scope of the whole. The statements of a block and of a
function have scopes of their own. -/
inductive Code.Part : Code → Code → Prop
  | group {e : Expr} : Part (.expr (.group e)) (.expr e)
  | operand {op : Token} {e : Expr} : Part (.expr (.unary op e)) (.expr e)
  | left {a b : Expr} {op : Token} : Part (.expr (.binary a op b)) (.expr a)
  | right {a b : Expr} {op : Token} : Part (.expr (.binary a op b)) (.expr b)
  | first {a b : Expr} {op : Token} : Part (.expr (.logical a op b)) (.expr a)
  | second {a b : Expr} {op : Token} : Part (.expr (.logical a op b)) (.expr b)
  | assigned {name : Token} {e : Expr} : Part (.expr (.assign name e)) (.expr e)
  | callee {f : Expr} {paren : Token} {es : List Expr} : Part (.expr (.call f paren es)) (.expr f)
  | args {f : Expr} {paren : Token} {es : List Expr} : Part (.expr (.call f paren es)) (.exprs es)
  | firstExpr {e : Expr} {es : List Expr} : Part (.exprs (e :: es)) (.expr e)
  | restExprs {e : Expr} {es : List Expr} : Part (.exprs (e :: es)) (.exprs es)
  | evaluated {e : Expr} : Part (.stmt (.expression e)) (.expr e)
  | printed {keyword : Token} {e : Expr} : Part (.stmt (.print keyword e)) (.expr e)
  | initial {name : Token} {e : Expr} : Part (.stmt (.varDecl name (some e))) (.expr e)
  | condition {c : Expr} {s : Stmt} {r : Option Stmt} : Part (.stmt (.ifElse c s r)) (.expr c)
  | thenBranch {c : Expr} {s : Stmt} {r : Option Stmt} : Part (.stmt (.ifElse c s r)) (.stmt s)
  | elseBranch {c : Expr} {s r : Stmt} : Part (.stmt (.ifElse c s (some r))) (.stmt r)
  | test {c : Expr} {s : Stmt} : Part (.stmt (.whileLoop c s)) (.expr c)
  | body {c : Expr} {s : Stmt} : Part (.stmt (.whileLoop c s)) (.stmt s)
  | returned {keyword : Token} {e : Expr} : Part (.stmt (.ret keyword (some e))) (.expr e)
  | firstStmt {s : Stmt} {ss : List Stmt} : Part (.stmts (s :: ss)) (.stmt s)
  | restStmts {s : Stmt} {ss : List Stmt} : Part (.stmts (s :: ss)) (.stmts ss)

/-- The names that a statement binds in the scope where it runs. What stands in a block or in a
function body is bound elsewhere. -/
def Stmt.declared : Stmt → List String
  | .varDecl name _ | .funDecl name _ _ => [name.lexeme]
  | .ifElse _ s none => s.declared
  | .ifElse _ s (some r) => s.declared ++ r.declared
  | .whileLoop _ s => s.declared
  | .expression _ | .print _ _ | .block _ | .ret _ _ => []

def Code.declared : Code → List String
  | .stmt s => s.declared
  | .stmts ss => ss.flatMap Stmt.declared
  | .expr _ | .exprs _ => []

theorem Code.Part.declared_subset {c c' : Code} (part : c.Part c') : c'.declared ⊆ c.declared := by
  cases part with
  | @thenBranch _ s r => cases r <;> simp [Code.declared, Stmt.declared]
  | elseBranch => simp [Code.declared, Stmt.declared]
  | body => simp [Code.declared, Stmt.declared]
  | firstStmt => simp [Code.declared]
  | restStmts => simp [Code.declared]
  | _ => exact List.nil_subset _

mutual

/-- The keywords of the returns in a statement, each with whether a function body is around it. -/
def Stmt.returns (inside : Bool) : Stmt → List (Token × Bool)
  | .ret keyword _ => [(keyword, inside)]
  | .block ss => Stmt.returnsAll inside ss
  | .ifElse _ s none => s.returns inside
  | .ifElse _ s (some r) => s.returns inside ++ r.returns inside
  | .whileLoop _ s => s.returns inside
  | .funDecl _ _ ss => Stmt.returnsAll true ss
  | .expression _ | .print _ _ | .varDecl _ _ => []

def Stmt.returnsAll (inside : Bool) : List Stmt → List (Token × Bool)
  | [] => []
  | s :: ss => s.returns inside ++ Stmt.returnsAll inside ss

end

theorem Stmt.returnsAll_append (inside : Bool) (ss rs : List Stmt) :
    Stmt.returnsAll inside (ss ++ rs) = Stmt.returnsAll inside ss ++ Stmt.returnsAll inside rs := by
  induction ss with
  | nil => rfl
  | cons s ss ih => rw [List.cons_append, returnsAll, returnsAll, ih, List.append_assoc]

/-- `s` stands in the program `p` with `d` blocks and function bodies around it. -/
inductive AtDepth (p : List Stmt) : Nat → Stmt → Prop
  | top {s : Stmt} : s ∈ p → AtDepth p 0 s
  | thenBranch {d : Nat} {c : Expr} {s : Stmt} {r : Option Stmt} :
    AtDepth p d (.ifElse c s r) → AtDepth p d s
  | elseBranch {d : Nat} {c : Expr} {s r : Stmt} :
    AtDepth p d (.ifElse c s (some r)) → AtDepth p d r
  | loopBody {d : Nat} {c : Expr} {s : Stmt} : AtDepth p d (.whileLoop c s) → AtDepth p d s
  | block {d : Nat} {ss : List Stmt} {s : Stmt} :
    AtDepth p d (.block ss) → s ∈ ss → AtDepth p (d + 1) s
  | function {d : Nat} {name : Token} {params : List Token} {ss : List Stmt} {s : Stmt} :
    AtDepth p d (.funDecl name params ss) → s ∈ ss → AtDepth p (d + 1) s

end Treewalk
