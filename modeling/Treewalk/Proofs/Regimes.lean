import Treewalk.Proofs.Moments
import Treewalk.Proofs.Scopes

namespace Treewalk

/-- What the actions of a machine keep, with a record `W` of the functions made so far. A part of a
program is allowed on a machine at a depth; a machine comes after another when an action led from it
there. -/
structure Regime (W : Type) where
  machine : W → Machine → Prop
  after : W → Machine → W → Machine → Prop
  value : W → Machine → Value → Prop
  code : W → Nat → Machine → Code → Prop
  after_refl : ∀ w m, after w m w m
  after_trans : ∀ {w w' w'' m n o}, after w m w' n → after w' n w'' o → after w m w'' o
  value_after : ∀ {w w' m n v}, machine w m → after w m w' n → value w m v → value w' n v
  code_after : ∀ {w w' d m n c}, machine w m → after w m w' n → code w d m c → code w' d n c
  part : ∀ {w d m c c'}, code w d m c → c.Part c' → code w d m c'
  plain : ∀ {w m v}, v.Plain → value w m v
  found : ∀ {w m x h v}, machine w m → m.store.find? m.current x = some (h, v) → value w m v
  assigned : ∀ {w m x h u v}, machine w m → m.store.find? m.current x = some (h, u) →
    value w m v → machine w { m with store := m.store.define h x v } ∧
    after w m w { m with store := m.store.define h x v }
  defined : ∀ {w d m c x v}, machine w m → code w d m c → x ∈ c.declared → value w m v →
    machine w { m with store := m.store.define m.current x v } ∧
    after w m w { m with store := m.store.define m.current x v }
  closed : ∀ {w d m name params ss}, machine w m → code w d m (.stmt (.funDecl name params ss)) →
    let made := m.store.closure ⟨name, params, ss⟩ m.current
    ∃ w', machine w' { m with store := made.2 } ∧ after w m w' { m with store := made.2 } ∧
      value w' { m with store := made.2 } made.1
  block : ∀ {w d m ss}, machine w m → code w d m (.stmt (.block ss)) →
    machine w (m.enter m.current []) ∧ code w (d + 1) (m.enter m.current []) (.stmts ss)
  body : ∀ {w m id decl scope args}, machine w m →
    value w m (.function (.closure id decl scope)) → (∀ v ∈ args, value w m v) →
    machine w (m.enter scope (decl.bind args)) ∧
    code w (m.store.depth scope + 1) (m.enter scope (decl.bind args)) (.stmts decl.body)
  left : ∀ {w w' m n p bs}, machine w m → machine w' n → after w (m.enter p bs) w' n →
    machine w' { n with current := m.current } ∧ after w m w' { n with current := m.current }
  value_left : ∀ {w m n v}, value w n v → value w { n with current := m } v
  printed : ∀ {w m} sink, machine w m → machine w { m with sink } ∧ after w m w { m with sink }
  asked : ∀ {w m} clock, machine w m → machine w { m with clock } ∧ after w m w { m with clock }

namespace Regime

variable {W : Type} {R : Regime W} {α β : Type}

theorem value_nil (R : Regime W) {w : W} {m : Machine} : R.value w m .nil :=
  R.plain Value.plain_nil

def Kept (R : Regime W) (post : W → Machine → α → Prop) (w : W) (m : Machine) :
    EStateM.Result Halt Machine α → Prop
  | .ok a n => ∃ w', R.machine w' n ∧ R.after w m w' n ∧ post w' n a
  | .error _ n => ∃ w', R.machine w' n ∧ R.after w m w' n

/-- The action `x` on `m` is made of actions that the regime knows. -/
def Obeys (R : Regime W) (post : W → Machine → α → Prop) (x : Eval α) (w : W) (m : Machine) :
    Prop :=
  R.Kept post w m (x m)

def flow (R : Regime W) (w : W) (n : Machine) (f : Flow) : Prop := R.value w n f.result

namespace Obeys

variable {post : W → Machine → α → Prop} {post' : W → Machine → β → Prop} {w : W} {m : Machine}

theorem pure {a : α} (ready : R.machine w m) (holds : post w m a) :
    R.Obeys post (Pure.pure a) w m :=
  ⟨w, ready, R.after_refl w m, holds⟩

theorem throw {h : Halt} (ready : R.machine w m) : R.Obeys post (MonadExcept.throw h) w m :=
  ⟨w, ready, R.after_refl w m⟩

theorem fault {t : Token} {cause : Cause} (ready : R.machine w m) :
    R.Obeys post (Eval.fault t cause) w m :=
  ⟨w, ready, R.after_refl w m⟩

theorem bind {x : Eval α} {f : α → Eval β} (first : R.Obeys post x w m)
    (next : ∀ a w' n, x m = .ok a n → R.machine w' n → R.after w m w' n → post w' n a →
      R.Obeys post' (f a) w' n) : R.Obeys post' (x >>= f) w m := by
  unfold Obeys at first ⊢
  cases result : x m with
  | error h n =>
    rw [result] at first
    rw [Eval.bind_error result]
    exact first
  | ok a n =>
    rw [result] at first
    obtain ⟨w', ready, after, holds⟩ := first
    have rest := next a w' n result ready after holds
    unfold Obeys at rest
    rw [Eval.bind_ok result]
    cases ended : f a n with
    | ok b o =>
      rw [ended] at rest
      obtain ⟨w'', ready', after', holds'⟩ := rest
      exact ⟨w'', ready', R.after_trans after after', holds'⟩
    | error h o =>
      rw [ended] at rest
      obtain ⟨w'', ready', after'⟩ := rest
      exact ⟨w'', ready', R.after_trans after after'⟩

theorem map {x : Eval α} {f : α → β} (first : R.Obeys post x w m)
    (next : ∀ a w' n, post w' n a → post' w' n (f a)) : R.Obeys post' (f <$> x) w m := by
  rw [map_eq_pure_bind]
  exact first.bind fun a w' n _ ready _ holds => pure ready (next a w' n holds)

theorem lookup {name : Token} (ready : R.machine w m) :
    R.Obeys R.value (Eval.lookup name) w m := by
  unfold Obeys
  rw [Eval.lookup_apply]
  unfold Store.get?
  cases result : m.store.find? m.current name.lexeme with
  | none => exact fault ready
  | some holder => exact ⟨w, ready, R.after_refl w m, R.found ready result⟩

theorem assign {name : Token} {v : Value} (ready : R.machine w m) (value : R.value w m v) :
    R.Obeys (fun w' n _ => R.value w' n v) (Eval.assign name v) w m := by
  unfold Obeys Eval.assign
  cases result : m.store.find? m.current name.lexeme with
  | none => exact fault ready
  | some holder =>
    obtain ⟨ready', after⟩ := R.assigned ready result value
    exact ⟨w, ready', after, R.value_after ready after value⟩

theorem define {d : Nat} {c : Code} {name : Token} {v : Value} (ready : R.machine w m)
    (code : R.code w d m c) (declared : name.lexeme ∈ c.declared) (value : R.value w m v) :
    R.Obeys (fun _ _ _ => True) (Eval.define name v) w m := by
  obtain ⟨ready', after⟩ := R.defined ready code declared value
  exact ⟨w, ready', after, trivial⟩

theorem closure {d : Nat} {name : Token} {params : List Token} {ss : List Stmt}
    (ready : R.machine w m) (code : R.code w d m (.stmt (.funDecl name params ss))) :
    R.Obeys R.value (Eval.closure ⟨name, params, ss⟩) w m :=
  R.closed ready code

theorem print {keyword : Token} {v : Value} (ready : R.machine w m) :
    R.Obeys (fun _ _ _ => True) (Eval.print keyword v) w m := by
  unfold Obeys Eval.print
  rcases m.sink.write (v.text ++ "\n").toUTF8 with ⟨_ | refusal, sink⟩
  · obtain ⟨ready', after⟩ := R.printed sink ready
    exact ⟨w, ready', after, trivial⟩
  · exact ⟨w, R.printed sink ready⟩

theorem pin {t : Token} {r : Except Cause Value} (ready : R.machine w m)
    (plain : ∀ v, r = .ok v → v.Plain) : R.Obeys R.value (Eval.pin t r) w m := by
  cases r with
  | ok v => exact pure ready (R.plain (plain v rfl))
  | error cause => exact fault ready

theorem inside {p : ScopeId} {bs : List (String × Value)} {x : Eval Flow} (ready : R.machine w m)
    (act : R.Obeys R.flow x w (m.enter p bs)) : R.Obeys R.flow (Eval.inside p bs x) w m := by
  unfold Obeys at act ⊢
  rw [Eval.inside_apply]
  cases ended : x (m.enter p bs) with
  | error h n =>
    rw [ended] at act
    obtain ⟨w', ready', after⟩ := act
    exact ⟨w', R.left ready ready' after⟩
  | ok flow n =>
    rw [ended] at act
    obtain ⟨w', ready', after, value⟩ := act
    obtain ⟨ready'', after'⟩ := R.left ready ready' after
    exact ⟨w', ready'', after', R.value_left value⟩

end Obeys

def CallsObey (R : Regime W) (call : Caller) : Prop :=
  ∀ w m f args, R.machine w m → R.value w m (.function f) → (∀ v ∈ args, R.value w m v) →
    R.Obeys R.value (call f args) w m

theorem Obeys.invoke {call : Caller} {w : W} {m : Machine} {paren : Token} {f : Value}
    {args : List Value} (calls : R.CallsObey call) (ready : R.machine w m)
    (callee : R.value w m f) (given : ∀ v ∈ args, R.value w m v) :
    R.Obeys R.value (Treewalk.invoke call paren f args) w m := by
  cases f with
  | function f =>
    simp only [Treewalk.invoke]
    split
    · exact calls w m f args ready callee given
    · exact .fault ready
  | _ => exact .fault ready

section Evaluation

variable {call : Caller} {d : Nat} {w : W} {m : Machine}

mutual

theorem eval_obeys (calls : R.CallsObey call) :
    ∀ {w m} (e : Expr), R.machine w m → R.code w d m (.expr e) →
      R.Obeys R.value (e.eval call) w m
  | w, m, .constant c, ready, _ => by
    simp only [Expr.eval]
    exact .pure ready (R.plain (Value.plain_constant c))
  | w, m, .group e, ready, code => by
    simp only [Expr.eval]
    exact eval_obeys calls e ready (R.part code .group)
  | w, m, .var name, ready, _ => by
    simp only [Expr.eval]
    exact .lookup ready
  | w, m, .assign name e, ready, code => by
    simp only [Expr.eval]
    refine (eval_obeys calls e ready (R.part code .assigned)).bind fun v _ n _ ready _ value => ?_
    exact (Obeys.assign ready value).bind fun _ _ o _ ready _ value => .pure ready value
  | w, m, .logical a op b, ready, code => by
    simp only [Expr.eval]
    refine (eval_obeys calls a ready (R.part code .first)).bind fun v _ n _ ready' after value => ?_
    split
    · exact .pure ready' value
    · exact eval_obeys calls b ready' (R.code_after ready after (R.part code .second))
  | w, m, .unary op e, ready, code => by
    simp only [Expr.eval]
    refine (eval_obeys calls e ready (R.part code .operand)).bind fun v _ n _ ready _ _ => ?_
    exact .pin ready fun _ => Value.unary_plain
  | w, m, .binary a op b, ready, code => by
    simp only [Expr.eval]
    refine (eval_obeys calls a ready (R.part code .left)).bind fun v _ n _ ready' after _ => ?_
    have right := R.code_after ready after (R.part code .right)
    refine (eval_obeys calls b ready' right).bind fun u _ o _ ready'' _ _ => ?_
    exact .pin ready'' fun _ => Value.binary_plain
  | w, m, .call f paren es, ready, code => by
    simp only [Expr.eval]
    refine (eval_obeys calls f ready (R.part code .callee)).bind
      fun v _ n _ ready' after value => ?_
    have args := R.code_after ready after (R.part code .args)
    refine (evalAll_obeys calls es ready' args).bind fun vs _ o _ ready'' after' values => ?_
    exact .invoke calls ready'' (R.value_after ready' after' value) values

theorem evalAll_obeys (calls : R.CallsObey call) :
    ∀ {w m} (es : List Expr), R.machine w m → R.code w d m (.exprs es) →
      R.Obeys (fun w' n vs => ∀ v ∈ vs, R.value w' n v) (Expr.evalAll call es) w m
  | w, m, [], ready, _ => by
    simp only [Expr.evalAll]
    exact .pure ready fun v member => absurd member List.not_mem_nil
  | w, m, e :: es, ready, code => by
    simp only [Expr.evalAll]
    refine (eval_obeys calls e ready (R.part code .firstExpr)).bind ?_
    intro v w' n _ ready' after value
    have rest := R.code_after ready after (R.part code .restExprs)
    refine (evalAll_obeys calls es ready' rest).bind fun vs w'' o _ ready'' after' values => ?_
    refine .pure ready'' fun u member => ?_
    rcases List.mem_cons.mp member with rfl | member
    · exact R.value_after ready' after' value
    · exact values u member

end

theorem repeat_obeys {condition : Eval Bool} {body : Eval Flow} {c : Expr} {s : Stmt}
    (test : ∀ {w m}, R.machine w m → R.code w d m (.expr c) →
      R.Obeys (fun _ _ _ => True) condition w m)
    (turn : ∀ {w m}, R.machine w m → R.code w d m (.stmt s) → R.Obeys R.flow body w m)
    (turns : Nat) (ready : R.machine w m) (first : R.code w d m (.expr c))
    (second : R.code w d m (.stmt s)) :
    R.Obeys R.flow (repeatWhile condition body turns) w m := by
  induction turns generalizing w m with
  | zero => exact ⟨w, ready, R.after_refl w m⟩
  | succ turns ih =>
    rw [repeatWhile_succ]
    refine (test ready first).bind fun go _ n _ ready' after _ => ?_
    cases go with
    | false => exact .pure ready' R.value_nil
    | true =>
      have again := R.code_after ready after second
      refine (turn ready' again).bind fun flow _ o _ ready'' after' value => ?_
      cases flow with
      | next =>
        have whole := R.after_trans after after'
        exact ih ready'' (R.code_after ready whole first) (R.code_after ready whole second)
      | returned v => exact .pure ready'' value

mutual

theorem exec_obeys (calls : R.CallsObey call) (turns : Nat) :
    ∀ {d w m} (s : Stmt), R.machine w m → R.code w d m (.stmt s) →
      R.Obeys R.flow (s.exec call turns) w m
  | d, w, m, .expression e, ready, code => by
    simp only [Stmt.exec]
    exact (eval_obeys calls e ready (R.part code .evaluated)).bind fun _ _ _ _ ready _ _ =>
      .pure ready R.value_nil
  | d, w, m, .print keyword e, ready, code => by
    simp only [Stmt.exec]
    refine (eval_obeys calls e ready (R.part code .printed)).bind fun v _ n _ ready _ _ => ?_
    exact (Obeys.print ready).bind fun _ _ _ _ ready _ _ => .pure ready R.value_nil
  | d, w, m, .varDecl name none, ready, code => by
    simp only [Stmt.exec]
    refine (Obeys.define ready code ?_ R.value_nil).bind fun _ _ _ _ ready _ _ =>
      .pure ready R.value_nil
    exact List.mem_singleton_self _
  | d, w, m, .varDecl name (some e), ready, code => by
    simp only [Stmt.exec]
    refine (eval_obeys calls e ready (R.part code .initial)).bind
      fun v _ n _ ready' after value => ?_
    refine (Obeys.define ready' (R.code_after ready after code) ?_ value).bind
      fun _ _ _ _ ready _ _ => .pure ready R.value_nil
    exact List.mem_singleton_self _
  | d, w, m, .block ss, ready, code => by
    simp only [Stmt.exec]
    obtain ⟨entered, inner⟩ := R.block ready code
    exact .inside ready (execAll_obeys calls turns ss entered inner)
  | d, w, m, .ifElse c s none, ready, code => by
    simp only [Stmt.exec]
    refine (eval_obeys calls c ready (R.part code .condition)).bind fun v _ n _ ready' after _ => ?_
    split
    · exact exec_obeys calls turns s ready' (R.code_after ready after (R.part code .thenBranch))
    · exact .pure ready' R.value_nil
  | d, w, m, .ifElse c s (some r), ready, code => by
    simp only [Stmt.exec]
    refine (eval_obeys calls c ready (R.part code .condition)).bind fun v _ n _ ready' after _ => ?_
    split
    · exact exec_obeys calls turns s ready' (R.code_after ready after (R.part code .thenBranch))
    · exact exec_obeys calls turns r ready' (R.code_after ready after (R.part code .elseBranch))
  | d, w, m, .whileLoop c s, ready, code => by
    simp only [Stmt.exec]
    refine repeat_obeys (fun ready code => ?_)
      (fun ready code => exec_obeys calls turns s ready code)
      turns ready (R.part code .test) (R.part code .body)
    exact (eval_obeys calls c ready code).map fun _ _ _ _ => trivial
  | d, w, m, .funDecl name params ss, ready, code => by
    simp only [Stmt.exec]
    refine (Obeys.closure ready code).bind fun v _ n _ ready' after value => ?_
    refine (Obeys.define ready' (R.code_after ready after code) ?_ value).bind
      fun _ _ _ _ ready _ _ => .pure ready R.value_nil
    exact List.mem_singleton_self _
  | d, w, m, .ret keyword none, ready, _ => by
    simp only [Stmt.exec]
    exact .pure ready R.value_nil
  | d, w, m, .ret keyword (some e), ready, code => by
    simp only [Stmt.exec]
    exact (eval_obeys calls e ready (R.part code .returned)).bind fun v _ n _ ready _ value =>
      .pure ready value

theorem execAll_obeys (calls : R.CallsObey call) (turns : Nat) :
    ∀ {d w m} (ss : List Stmt), R.machine w m → R.code w d m (.stmts ss) →
      R.Obeys R.flow (Stmt.execAll call turns ss) w m
  | d, w, m, [], ready, _ => by
    simp only [Stmt.execAll]
    exact .pure ready R.value_nil
  | d, w, m, s :: ss, ready, code => by
    simp only [Stmt.execAll]
    refine (exec_obeys calls turns s ready (R.part code .firstStmt)).bind
      fun flow _ n _ ready' after value => ?_
    cases flow with
    | next =>
      exact execAll_obeys calls turns ss ready' (R.code_after ready after (R.part code .restStmts))
    | returned v => exact .pure ready' value

end

end Evaluation

theorem Obeys.native {w : W} {m : Machine} (n : Native) (ready : R.machine w m) :
    R.Obeys R.value n.run w m := by
  unfold Native.run
  cases n.action with
  | clock =>
    have asked : R.Obeys (fun _ _ _ => True) Eval.readClock w m := by
      obtain ⟨ready', after⟩ := R.asked { m.clock with asked := m.clock.asked + 1 } ready
      exact ⟨w, ready', after, trivial⟩
    exact asked.map fun x _ _ _ => R.plain (Value.plain_number x)
  | nothing => exact .pure ready R.value_nil

theorem apply_obeys (R : Regime W) (fuel : Nat) : R.CallsObey (Function.apply fuel) := by
  induction fuel with
  | zero =>
    intro w m f args ready function given
    cases f with
    | native id n =>
      simp only [Function.apply]
      exact .native n ready
    | closure id decl scope =>
      simp only [Function.apply]
      exact .throw ready
  | succ fuel ih =>
    intro w m f args ready function given
    cases f with
    | native id n =>
      simp only [Function.apply]
      exact .native n ready
    | closure id decl scope =>
      simp only [Function.apply]
      obtain ⟨entered, inner⟩ := R.body ready function given
      have body := Obeys.inside ready (execAll_obeys ih fuel decl.body entered inner)
      exact body.map fun _ _ _ value => value

theorem interpret_obeys {d : Nat} {w : W} {m : Machine} (fuel : Nat) (ss : List Stmt)
    (ready : R.machine w m) (code : R.code w d m (.stmts ss)) :
    R.Obeys (fun _ _ _ => True) (interpret fuel ss) w m := by
  induction ss generalizing w m with
  | nil => exact .pure ready trivial
  | cons s ss ih =>
    rw [interpret]
    have first := exec_obeys (R.apply_obeys fuel) fuel s ready (R.part code .firstStmt)
    exact first.bind fun _ _ n _ ready' after _ =>
      ih ready' (R.code_after ready after (R.part code .restStmts))

def task (R : Regime W) (w : W) (d : Nat) (m : Machine) : Task → Prop
  | .code c => R.code w d m c
  | .loop c s _ => R.code w d m (.expr c) ∧ R.code w d m (.stmt s)
  | .call f args => R.value w m (.function f) ∧ ∀ v ∈ args, R.value w m v
  | .program ss => R.code w d m (.stmts ss)

theorem run_obeys {d : Nat} {w : W} {m : Machine} (fuel : Nat) (t : Task) (ready : R.machine w m)
    (task : R.task w d m t) :
    R.Obeys (fun w' n vs => ∀ v ∈ vs, R.value w' n v) (t.run fuel) w m := by
  have calls := R.apply_obeys fuel
  have single {w' : W} {n : Machine} {v : Value} (value : R.value w' n v) :
      ∀ u ∈ [v], R.value w' n u := by
    intro u member
    rw [List.mem_singleton.mp member]
    exact value
  cases t with
  | code c =>
    cases c with
    | expr e => exact (eval_obeys calls e ready task).map fun _ _ _ => single
    | exprs es => exact evalAll_obeys calls es ready task
    | stmt s => exact (exec_obeys calls fuel s ready task).map fun _ _ _ => single
    | stmts ss => exact (execAll_obeys calls fuel ss ready task).map fun _ _ _ => single
  | loop c s turns =>
    have test {w m} (ready : R.machine w m) (code : R.code w d m (.expr c)) :
        R.Obeys (fun _ _ _ => True) (Value.truthy <$> c.eval (Function.apply fuel)) w m :=
      (eval_obeys calls c ready code).map fun _ _ _ _ => trivial
    exact (repeat_obeys test (exec_obeys calls fuel s) turns ready task.1 task.2).map
      fun _ _ _ => single
  | call f args => exact (calls w m f args ready task.1 task.2).map fun _ _ _ => single
  | program ss =>
    exact (interpret_obeys fuel ss ready task).map fun _ _ _ _ v member =>
      absurd member List.not_mem_nil

theorem Obeys.of_ok {post : W → Machine → α → Prop} {x : Eval α} {w : W} {m n : Machine} {a : α}
    (obeys : R.Obeys post x w m) (result : x m = .ok a n) :
    ∃ w', R.machine w' n ∧ R.after w m w' n ∧ post w' n a := by
  unfold Obeys at obeys
  rw [result] at obeys
  exact obeys

theorem Obeys.final {post : W → Machine → α → Prop} {x : Eval α} {w : W} {m : Machine}
    (obeys : R.Obeys post x w m) :
    ∃ w', R.machine w' (x.final m) ∧ R.after w m w' (x.final m) ∧
      ∀ a n, x m = .ok a n → post w' n a := by
  cases result : x m with
  | ok a n =>
    obtain ⟨w', ready, after, holds⟩ := obeys.of_ok result
    rw [Eval.final_ok result]
    refine ⟨w', ready, after, fun b o same => ?_⟩
    cases same
    exact holds
  | error h n =>
    unfold Obeys at obeys
    rw [result] at obeys
    obtain ⟨w', ready, after⟩ := obeys
    rw [Eval.final_error result]
    exact ⟨w', ready, after, fun b o same => by cases same⟩

theorem next {w : W} {q q' : Moment} (ready : R.machine w q.machine)
    (task : R.task w q.depth q.machine q.task) (step : q.Next q') :
    ∃ w', R.machine w' q'.machine ∧ R.task w' q'.depth q'.machine q'.task := by
  have calls (k : Nat) := R.apply_obeys k
  cases step with
  | group => exact ⟨w, ready, R.part task .group⟩
  | assigned => exact ⟨w, ready, R.part task .assigned⟩
  | operand => exact ⟨w, ready, R.part task .operand⟩
  | left => exact ⟨w, ready, R.part task .left⟩
  | right result =>
    obtain ⟨w', ready', after, -⟩ :=
      (eval_obeys (calls _) _ ready (R.part task .left)).of_ok result
    exact ⟨w', ready', R.code_after ready after (R.part task .right)⟩
  | first => exact ⟨w, ready, R.part task .first⟩
  | second result _ =>
    obtain ⟨w', ready', after, -⟩ :=
      (eval_obeys (calls _) _ ready (R.part task .first)).of_ok result
    exact ⟨w', ready', R.code_after ready after (R.part task .second)⟩
  | callee => exact ⟨w, ready, R.part task .callee⟩
  | args result =>
    obtain ⟨w', ready', after, -⟩ :=
      (eval_obeys (calls _) _ ready (R.part task .callee)).of_ok result
    exact ⟨w', ready', R.code_after ready after (R.part task .args)⟩
  | call result results _ =>
    obtain ⟨w', ready', after, function⟩ :=
      (eval_obeys (calls _) _ ready (R.part task .callee)).of_ok result
    have args := R.code_after ready after (R.part task .args)
    obtain ⟨w'', ready'', after', values⟩ := (evalAll_obeys (calls _) _ ready' args).of_ok results
    exact ⟨w'', ready'', R.value_after ready' after' function, values⟩
  | firstExpr => exact ⟨w, ready, R.part task .firstExpr⟩
  | restExprs result =>
    obtain ⟨w', ready', after, -⟩ :=
      (eval_obeys (calls _) _ ready (R.part task .firstExpr)).of_ok result
    exact ⟨w', ready', R.code_after ready after (R.part task .restExprs)⟩
  | evaluated => exact ⟨w, ready, R.part task .evaluated⟩
  | printed => exact ⟨w, ready, R.part task .printed⟩
  | initial => exact ⟨w, ready, R.part task .initial⟩
  | block => exact ⟨w, R.block ready task⟩
  | condition => exact ⟨w, ready, R.part task .condition⟩
  | thenBranch result _ =>
    obtain ⟨w', ready', after, -⟩ :=
      (eval_obeys (calls _) _ ready (R.part task .condition)).of_ok result
    exact ⟨w', ready', R.code_after ready after (R.part task .thenBranch)⟩
  | elseBranch result _ =>
    obtain ⟨w', ready', after, -⟩ :=
      (eval_obeys (calls _) _ ready (R.part task .condition)).of_ok result
    exact ⟨w', ready', R.code_after ready after (R.part task .elseBranch)⟩
  | loop => exact ⟨w, ready, R.part task .test, R.part task .body⟩
  | returned => exact ⟨w, ready, R.part task .returned⟩
  | firstStmt => exact ⟨w, ready, R.part task .firstStmt⟩
  | @restStmts k _ _ _ _ _ result =>
    obtain ⟨w', ready', after, -⟩ :=
      (exec_obeys (calls _) k _ ready (R.part task .firstStmt)).of_ok result
    exact ⟨w', ready', R.code_after ready after (R.part task .restStmts)⟩
  | test => exact ⟨w, ready, task.1⟩
  | turn result _ =>
    obtain ⟨w', ready', after, -⟩ := (eval_obeys (calls _) _ ready task.1).of_ok result
    exact ⟨w', ready', R.code_after ready after task.2⟩
  | @again k _ _ _ _ _ _ _ _ result _ turned =>
    obtain ⟨w', ready', after, -⟩ := (eval_obeys (calls _) _ ready task.1).of_ok result
    have body := R.code_after ready after task.2
    obtain ⟨w'', ready'', after', -⟩ := (exec_obeys (calls _) k _ ready' body).of_ok turned
    have whole := R.after_trans after after'
    exact ⟨w'', ready'', R.code_after ready whole task.1, R.code_after ready whole task.2⟩
  | body => exact ⟨w, R.body ready task.1 task.2⟩
  | firstOfProgram => exact ⟨w, ready, R.part task .firstStmt⟩
  | @restOfProgram k _ _ _ _ _ _ result =>
    obtain ⟨w', ready', after, -⟩ :=
      (exec_obeys (calls _) k _ ready (R.part task .firstStmt)).of_ok result
    exact ⟨w', ready', R.code_after ready after (R.part task .restStmts)⟩

end Regime

end Treewalk
