import Treewalk.Proofs.LexicalDepth

namespace Treewalk

def Moment.final (q : Moment) : Machine := (q.task.run q.fuel).final q.machine

/-- `n` is a machine that a session passes through not before `m`. Of the tasks below a task, one
starts on the machine on which the one before it ended. -/
inductive Later (m : Machine) : Machine → Prop
  | same : Later m m
  | begun {q q' : Moment} : Later m q.machine → q.Next q' → Later m q'.machine
  | ended {q : Moment} : Later m q.machine → Later m q.final
  | left {q q' : Moment} : q.Next q' → Later m q'.final → Later m q.final
  | ran {x : Session} (fuel : Nat) (source : String) :
    Later m x.machine → Later m (x.run fuel source).2.machine
  | drained {x : Session} : Later m x.machine → Later m x.drain.2.machine
  | withClock {x : Session} (clock : Clock) : Later m x.machine → Later m (x.withClock clock).machine

/-- A property that no single action undoes. -/
structure Lasting (P : Machine → Prop) : Prop where
  defined : ∀ {m : Machine} (e : ScopeId) (x : String) (v : Value), P m →
    P { m with store := m.store.define e x v }
  closed : ∀ {m : Machine} (decl : FunDecl) (e : ScopeId), P m →
    P { m with store := (m.store.closure decl e).2 }
  entered : ∀ {m : Machine} (parent : ScopeId) (bindings : List (String × Value)), P m →
    P (m.enter parent bindings)
  moved : ∀ {m : Machine} (e : ScopeId), P m → P { m with current := e }
  printed : ∀ {m : Machine} (sink : Sink), P m → P { m with sink }
  asked : ∀ {m : Machine} (clock : Clock), P m → P { m with clock }

namespace Lasting

variable {P : Machine → Prop} {m : Machine} {k : Nat}

def discipline (lasting : Lasting P) : Discipline where
  machine := P
  after _ _ := True
  value _ _ := True
  code _ _ _ := True
  after_refl _ := trivial
  after_trans _ _ := trivial
  value_after _ _ _ := trivial
  code_after _ _ _ := trivial
  part _ _ := trivial
  plain _ := trivial
  found _ _ := trivial
  assigned ready _ _ := ⟨lasting.defined _ _ _ ready, trivial⟩
  defined ready _ _ _ := ⟨lasting.defined _ _ _ ready, trivial⟩
  closed ready _ := ⟨lasting.closed _ _ ready, trivial, trivial⟩
  block ready _ := ⟨lasting.entered _ _ ready, trivial⟩
  body ready _ _ := ⟨lasting.entered _ _ ready, trivial⟩
  left _ ready _ := ⟨lasting.moved _ ready, trivial⟩
  value_left _ := trivial
  printed sink ready := ⟨lasting.printed sink ready, trivial⟩
  asked clock ready := ⟨lasting.asked clock ready, trivial⟩

theorem task (lasting : Lasting P) (d : Nat) (m : Machine) (t : Task) :
    lasting.discipline.task d m t := by
  cases t with
  | code c => trivial
  | loop c s turns => exact ⟨trivial, trivial⟩
  | call f args => exact ⟨trivial, fun _ _ => trivial⟩
  | program ss => trivial

theorem run (lasting : Lasting P) (t : Task) (holds : P m) : P ((t.run k).final m) := by
  have obeys := Discipline.run_obeys k t (D := lasting.discipline) holds (lasting.task 0 m t)
  exact obeys.final.1

theorem begun (lasting : Lasting P) {q q' : Moment} (step : q.Next q') (holds : P q.machine) :
    P q'.machine :=
  (lasting.discipline.next holds (lasting.task q.depth q.machine q.task) step).1

section Resuming

theorem resume {α β : Type} {x : Eval α} {f : α → Eval β} (ended : P (x.final m))
    (rest : ∀ a n, P n → P ((f a).final n)) : P (Eval.final (x >>= f) m) := by
  cases result : x m with
  | ok a n =>
    rw [Eval.final_ok result] at ended
    rw [Eval.final_bind_ok result]
    exact rest a n ended
  | error h n =>
    rw [Eval.final_error result] at ended
    rw [Eval.final_bind_error result]
    exact ended

theorem eval (lasting : Lasting P) (e : Expr) (holds : P m) :
    P ((e.eval (Function.apply k)).final m) := by
  have ended := lasting.run (k := k) (.code (.expr e)) holds
  simpa only [Task.run, Eval.final_map] using ended

theorem evalAll (lasting : Lasting P) (es : List Expr) (holds : P m) :
    P (Eval.final (Expr.evalAll (Function.apply k) es) m) :=
  lasting.run (k := k) (.code (.exprs es)) holds

theorem exec (lasting : Lasting P) (s : Stmt) (holds : P m) :
    P ((s.exec (Function.apply k) k).final m) := by
  have ended := lasting.run (k := k) (.code (.stmt s)) holds
  simpa only [Task.run, Eval.final_map] using ended

theorem execAll (lasting : Lasting P) (ss : List Stmt) (holds : P m) :
    P (Eval.final (Stmt.execAll (Function.apply k) k ss) m) := by
  have ended := lasting.run (k := k) (.code (.stmts ss)) holds
  simpa only [Task.run, Eval.final_map] using ended

theorem loop (lasting : Lasting P) (c : Expr) (s : Stmt) (turns : Nat) (holds : P m) :
    P (Eval.final (repeatWhile (Value.truthy <$> c.eval (Function.apply k))
      (s.exec (Function.apply k) k) turns) m) := by
  have ended := lasting.run (k := k) (.loop c s turns) holds
  simpa only [Task.run, Eval.final_map] using ended

theorem interpret (lasting : Lasting P) (ss : List Stmt) (holds : P m) :
    P ((Treewalk.interpret k ss).final m) := by
  have ended := lasting.run (k := k) (.program ss) holds
  simpa only [Task.run, Eval.final_map] using ended

theorem assign (lasting : Lasting P) (name : Token) (v : Value) (holds : P m) :
    P ((Eval.assign name v).final m) :=
  (Discipline.Obeys.assign (D := lasting.discipline) holds trivial).final.1

theorem define (lasting : Lasting P) (name : Token) (v : Value) (holds : P m) :
    P ((Eval.define name v).final m) :=
  lasting.defined m.current name.lexeme v holds

theorem print (lasting : Lasting P) (keyword : Token) (v : Value) (holds : P m) :
    P ((Eval.print keyword v).final m) :=
  (Discipline.Obeys.print (D := lasting.discipline) holds).final.1

theorem pin {t : Token} {r : Except Cause Value} (holds : P m) : P ((Eval.pin t r).final m) := by
  cases r <;> exact holds

theorem invoke (lasting : Lasting P) (paren : Token) (f : Value) (args : List Value)
    (holds : P m) : P ((Treewalk.invoke (Function.apply k) paren f args).final m) := by
  have calls := lasting.discipline.apply_obeys k
  exact (Discipline.Obeys.invoke calls holds trivial fun _ _ => trivial).final.1

theorem turn (lasting : Lasting P) (c : Expr) (s : Stmt) (turns : Nat) (flow : Flow)
    (holds : P m) :
    P (Eval.final (match flow with
      | .next => repeatWhile (Value.truthy <$> c.eval (Function.apply k))
        (s.exec (Function.apply k) k) turns
      | .returned v => pure (.returned v)) m) := by
  cases flow with
  | next => exact lasting.loop c s turns holds
  | returned v => exact holds

theorem inside (lasting : Lasting P) {α : Type} {x : Eval α} {parent : ScopeId}
    {bindings : List (String × Value)} (ended : P (x.final (m.enter parent bindings))) :
    P ((Eval.inside parent bindings x).final m) := by
  cases result : x (m.enter parent bindings) with
  | ok a n =>
    rw [Eval.final_ok result] at ended
    rw [Eval.final_ok (Eval.inside_ok result)]
    exact lasting.moved m.current ended
  | error h n =>
    rw [Eval.final_error result] at ended
    rw [Eval.final_error (Eval.inside_error result)]
    exact lasting.moved m.current ended

theorem test_ok {c : Expr} {v : Value} {n : Machine} (result : c.eval (Function.apply k) m = .ok v n)
    (goes : v.truthy = true) : (Value.truthy <$> c.eval (Function.apply k)) m = .ok true n := by
  change EStateM.map _ _ m = _
  rw [EStateM.map, result, ← goes]

end Resuming

theorem left (lasting : Lasting P) {q q' : Moment} (step : q.Next q') (ended : P q'.final) :
    P q.final := by
  cases step <;> simp only [Moment.final, Moment.ofCall, Task.run, Eval.final_map] at ended ⊢
  case group => simpa only [Expr.eval] using ended
  case assigned name e =>
    rw [Expr.eval]
    exact resume ended fun v n holds => resume (lasting.assign name v holds) fun _ _ holds => holds
  case operand op e =>
    rw [Expr.eval]
    exact resume ended fun v n holds => pin holds
  case left a op b =>
    rw [Expr.eval]
    exact resume ended fun v n holds => resume (lasting.eval b holds) fun w o holds => pin holds
  case right a op b v n result =>
    rw [Expr.eval, Eval.final_bind_ok result]
    exact resume ended fun w o holds => pin holds
  case first a op b =>
    rw [Expr.eval]
    refine resume ended fun v n holds => ?_
    split
    · exact holds
    · exact lasting.eval b holds
  case second a op b v n result goes =>
    rw [Expr.eval, Eval.final_bind_ok result, goes]
    exact ended
  case callee f paren es =>
    rw [Expr.eval]
    exact resume ended fun v n holds => resume (lasting.evalAll es holds) fun vs o holds =>
      lasting.invoke paren v vs holds
  case args f paren es v n result =>
    rw [Expr.eval, Eval.final_bind_ok result]
    exact resume ended fun vs o holds => lasting.invoke paren v vs holds
  case call f paren es g vs n o result results arity =>
    rw [Expr.eval, Eval.final_bind_ok result, Eval.final_bind_ok results, Treewalk.invoke,
      if_pos arity]
    exact ended
  case firstExpr e es =>
    rw [Expr.evalAll]
    exact resume ended fun v n holds => resume (lasting.evalAll es holds) fun _ _ holds => holds
  case restExprs e es v n result =>
    rw [Expr.evalAll, Eval.final_bind_ok result]
    exact resume ended fun _ _ holds => holds
  case evaluated e =>
    rw [Stmt.exec]
    exact resume ended fun _ _ holds => holds
  case printed keyword e =>
    rw [Stmt.exec]
    exact resume ended fun v n holds => resume (lasting.print keyword v holds) fun _ _ holds => holds
  case initial name e =>
    rw [Stmt.exec]
    exact resume ended fun v n holds => resume (lasting.define name v holds) fun _ _ holds => holds
  case block ss =>
    rw [Stmt.exec]
    exact lasting.inside ended
  case condition c s r =>
    cases r with
    | none =>
      rw [Stmt.exec]
      refine resume ended fun v n holds => ?_
      split
      · exact lasting.exec s holds
      · exact holds
    | some r =>
      rw [Stmt.exec]
      refine resume ended fun v n holds => ?_
      split
      · exact lasting.exec s holds
      · exact lasting.exec r holds
  case thenBranch c s r v n result goes =>
    cases r <;> rw [Stmt.exec, Eval.final_bind_ok result, if_pos goes] <;> exact ended
  case elseBranch c s r v n result goes =>
    rw [Stmt.exec, Eval.final_bind_ok result, goes]
    exact ended
  case loop => simpa only [Stmt.exec] using ended
  case returned keyword e =>
    rw [Stmt.exec]
    exact resume ended fun _ _ holds => holds
  case firstStmt s ss =>
    rw [Stmt.execAll]
    refine resume ended fun flow n holds => ?_
    cases flow with
    | next => exact lasting.execAll ss holds
    | returned v => exact holds
  case restStmts s ss n result =>
    rw [Stmt.execAll, Eval.final_bind_ok result]
    exact ended
  case test c s turns =>
    rw [repeatWhile_succ]
    rw [← Eval.final_map _ Value.truthy] at ended
    refine resume ended fun go n holds => ?_
    cases go with
    | false => exact holds
    | true => exact resume (lasting.exec s holds) fun flow o holds => lasting.turn c s turns flow holds
  case turn c s turns v n result goes =>
    rw [repeatWhile_succ, Eval.final_bind_ok (test_ok result goes)]
    exact resume ended fun flow o holds => lasting.turn c s turns flow holds
  case again c s turns v n o result goes turned =>
    rw [repeatWhile_succ, Eval.final_bind_ok (test_ok result goes)]
    change P (Eval.final (_ >>= _) n)
    rw [Eval.final_bind_ok turned]
    exact ended
  case body id decl scope args =>
    rw [Function.apply, Eval.final_map]
    exact lasting.inside ended
  case firstOfProgram s ss =>
    rw [Treewalk.interpret]
    exact resume ended fun _ _ holds => lasting.interpret ss holds
  case restOfProgram s ss flow n result =>
    rw [Treewalk.interpret, Eval.final_bind_ok result]
    exact ended

end Lasting

theorem Later.lasts {P : Machine → Prop} (lasting : Lasting P) {m n : Machine} (later : Later m n)
    (holds : P m) : P n := by
  induction later with
  | same => exact holds
  | begun _ step ih => exact lasting.begun step ih
  | @ended q _ ih => exact lasting.run q.task ih
  | left step _ ih => exact lasting.left step ih
  | @ran x fuel source _ ih =>
    by_cases clean : (parseSource source).errors = []
    · rw [Session.run_clean clean]
      exact lasting.interpret (parseSource source).statements ih
    · rw [Session.run_refused clean]
      exact ih
  | drained _ ih => exact lasting.printed _ ih
  | withClock clock _ ih => exact lasting.asked clock ih

end Treewalk
