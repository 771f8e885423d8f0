import Treewalk.Proofs.Actions
import Treewalk.Proofs.Code

namespace Treewalk

inductive Task
  | code (c : Code)
  | loop (condition : Expr) (body : Stmt) (turns : Nat)
  | call (f : Function) (args : List Value)
  | program (ss : List Stmt)

def Task.run (fuel : Nat) : Task → Eval (List Value)
  | code (.expr e) => (fun v => [v]) <$> e.eval (Function.apply fuel)
  | code (.exprs es) => Expr.evalAll (Function.apply fuel) es
  | code (.stmt s) => (fun flow => [flow.result]) <$> s.exec (Function.apply fuel) fuel
  | code (.stmts ss) => (fun flow => [flow.result]) <$> Stmt.execAll (Function.apply fuel) fuel ss
  | loop condition body turns => (fun flow => [flow.result]) <$>
    repeatWhile (Value.truthy <$> condition.eval (Function.apply fuel))
      (body.exec (Function.apply fuel) fuel) turns
  | call f args => (fun v => [v]) <$> f.apply fuel args
  | program ss => (fun _ => []) <$> interpret fuel ss

/-- A task and the machine on which it starts. `depth` counts the blocks and function bodies around
the code that runs: a function is as deep as the scope it was declared in. -/
structure Moment where
  fuel : Nat
  depth : Nat
  task : Task
  machine : Machine

namespace Moment

/-- The start of the body when a function is called: in a new scope inside that of the function. -/
def ofCall (k : Nat) (decl : FunDecl) (scope : ScopeId) (args : List Value) (m : Machine) : Moment :=
  ⟨k, m.store.depth scope + 1, .code (.stmts decl.body), m.enter scope (decl.bind args)⟩

inductive Next : Moment → Moment → Prop
  | group {k d m e} : Next ⟨k, d, .code (.expr (.group e)), m⟩ ⟨k, d, .code (.expr e), m⟩
  | assigned {k d m name e} :
    Next ⟨k, d, .code (.expr (.assign name e)), m⟩ ⟨k, d, .code (.expr e), m⟩
  | operand {k d m op e} :
    Next ⟨k, d, .code (.expr (.unary op e)), m⟩ ⟨k, d, .code (.expr e), m⟩
  | left {k d m a op b} :
    Next ⟨k, d, .code (.expr (.binary a op b)), m⟩ ⟨k, d, .code (.expr a), m⟩
  | right {k d m a op b v n} : a.eval (Function.apply k) m = .ok v n →
    Next ⟨k, d, .code (.expr (.binary a op b)), m⟩ ⟨k, d, .code (.expr b), n⟩
  | first {k d m a op b} :
    Next ⟨k, d, .code (.expr (.logical a op b)), m⟩ ⟨k, d, .code (.expr a), m⟩
  | second {k d m a op b v n} : a.eval (Function.apply k) m = .ok v n →
    (op.is .kwOr == v.truthy) = false →
    Next ⟨k, d, .code (.expr (.logical a op b)), m⟩ ⟨k, d, .code (.expr b), n⟩
  | callee {k d m f paren es} :
    Next ⟨k, d, .code (.expr (.call f paren es)), m⟩ ⟨k, d, .code (.expr f), m⟩
  | args {k d m f paren es v n} : f.eval (Function.apply k) m = .ok v n →
    Next ⟨k, d, .code (.expr (.call f paren es)), m⟩ ⟨k, d, .code (.exprs es), n⟩
  | call {k d m f paren es g vs n o} : f.eval (Function.apply k) m = .ok (.function g) n →
    Expr.evalAll (Function.apply k) es n = .ok vs o → vs.length = g.arity →
    Next ⟨k, d, .code (.expr (.call f paren es)), m⟩ ⟨k, d, .call g vs, o⟩
  | firstExpr {k d m e es} :
    Next ⟨k, d, .code (.exprs (e :: es)), m⟩ ⟨k, d, .code (.expr e), m⟩
  | restExprs {k d m e es v n} : e.eval (Function.apply k) m = .ok v n →
    Next ⟨k, d, .code (.exprs (e :: es)), m⟩ ⟨k, d, .code (.exprs es), n⟩
  | evaluated {k d m e} :
    Next ⟨k, d, .code (.stmt (.expression e)), m⟩ ⟨k, d, .code (.expr e), m⟩
  | printed {k d m keyword e} :
    Next ⟨k, d, .code (.stmt (.print keyword e)), m⟩ ⟨k, d, .code (.expr e), m⟩
  | initial {k d m name e} :
    Next ⟨k, d, .code (.stmt (.varDecl name (some e))), m⟩ ⟨k, d, .code (.expr e), m⟩
  | block {k d m ss} :
    Next ⟨k, d, .code (.stmt (.block ss)), m⟩ ⟨k, d + 1, .code (.stmts ss), m.enter m.current []⟩
  | condition {k d m c s r} :
    Next ⟨k, d, .code (.stmt (.ifElse c s r)), m⟩ ⟨k, d, .code (.expr c), m⟩
  | thenBranch {k d m c s r v n} : c.eval (Function.apply k) m = .ok v n → v.truthy = true →
    Next ⟨k, d, .code (.stmt (.ifElse c s r)), m⟩ ⟨k, d, .code (.stmt s), n⟩
  | elseBranch {k d m c s r v n} : c.eval (Function.apply k) m = .ok v n → v.truthy = false →
    Next ⟨k, d, .code (.stmt (.ifElse c s (some r))), m⟩ ⟨k, d, .code (.stmt r), n⟩
  | loop {k d m c s} :
    Next ⟨k, d, .code (.stmt (.whileLoop c s)), m⟩ ⟨k, d, .loop c s k, m⟩
  | returned {k d m keyword e} :
    Next ⟨k, d, .code (.stmt (.ret keyword (some e))), m⟩ ⟨k, d, .code (.expr e), m⟩
  | firstStmt {k d m s ss} :
    Next ⟨k, d, .code (.stmts (s :: ss)), m⟩ ⟨k, d, .code (.stmt s), m⟩
  | restStmts {k d m s ss n} : s.exec (Function.apply k) k m = .ok .next n →
    Next ⟨k, d, .code (.stmts (s :: ss)), m⟩ ⟨k, d, .code (.stmts ss), n⟩
  | test {k d m c s turns} : Next ⟨k, d, .loop c s (turns + 1), m⟩ ⟨k, d, .code (.expr c), m⟩
  | turn {k d m c s turns v n} : c.eval (Function.apply k) m = .ok v n → v.truthy = true →
    Next ⟨k, d, .loop c s (turns + 1), m⟩ ⟨k, d, .code (.stmt s), n⟩
  | again {k d m c s turns v n o} : c.eval (Function.apply k) m = .ok v n → v.truthy = true →
    s.exec (Function.apply k) k n = .ok .next o →
    Next ⟨k, d, .loop c s (turns + 1), m⟩ ⟨k, d, .loop c s turns, o⟩
  | body {k d m id decl scope args} :
    Next ⟨k + 1, d, .call (.closure id decl scope) args, m⟩ (ofCall k decl scope args m)
  | firstOfProgram {k d m s ss} :
    Next ⟨k, d, .program (s :: ss), m⟩ ⟨k, d, .code (.stmt s), m⟩
  | restOfProgram {k d m s ss flow n} : s.exec (Function.apply k) k m = .ok flow n →
    Next ⟨k, d, .program (s :: ss), m⟩ ⟨k, d, .program ss, n⟩

inductive During (start : Moment) : Moment → Prop
  | start : During start start
  | next {q q' : Moment} : During start q → Next q q' → During start q'

theorem run_call (k id : Nat) (decl : FunDecl) (scope : ScopeId) (args : List Value)
    (m : Machine) :
    (Task.call (.closure id decl scope) args).run (k + 1) m =
      onFinal (fun n => { n with current := m.current })
        ((ofCall k decl scope args m).task.run k (ofCall k decl scope args m).machine) := by
  simp only [Task.run, ofCall, Function.apply]
  cases ended : Stmt.execAll (Function.apply k) k decl.body (m.enter scope (decl.bind args)) with
  | ok flow n =>
    rw [Eval.map_ok _ (Eval.map_ok _ (Eval.inside_ok ended)), Eval.map_ok _ ended]
    rfl
  | error h n =>
    rw [Eval.map_error _ (Eval.map_error _ (Eval.inside_error ended)), Eval.map_error _ ended]
    rfl

def Makes (q : Moment) (v : Value) : Prop :=
  ∃ name params body, q.task = .code (.stmt (.funDecl name params body)) ∧
    v = (q.machine.store.closure ⟨name, params, body⟩ q.machine.current).1

end Moment

end Treewalk
