import Treewalk.Proofs.Moments

namespace Treewalk

/-- What is said of the actions of the run that starts with a moment. -/
structure Account (start : Moment) where
  holds : {α : Type} → Eval α → Machine → Prop
  pure : ∀ {α : Type} {m : Machine} (a : α), holds (Pure.pure a) m
  bind : ∀ {α β : Type} {x : Eval α} {f : α → Eval β} {m : Machine}, holds x m →
    (∀ a n, x m = .ok a n → holds (f a) n) → holds (x >>= f) m
  exhausted : ∀ {α : Type} {m : Machine}, holds (throw .exhausted : Eval α) m
  inside : ∀ {x : Eval Flow} {m : Machine} {p : ScopeId} {bs : List (String × Value)},
    holds x (m.enter p bs) → holds (Eval.inside p bs x) m
  nested : ∀ {x : Eval Flow} {m : Machine},
    holds (Eval.inside m.current [] x) m → holds (Eval.nested x) m
  define : ∀ {m : Machine} (name : Token) (v : Value), holds (Eval.define name v) m
  closure : ∀ {k d m name params ss}, start.During ⟨k, d, .code (.stmt (.funDecl name params ss)), m⟩ →
    holds (Eval.closure ⟨name, params, ss⟩) m
  clock : ∀ {m : Machine}, holds Eval.readClock m
  lookup : ∀ {k d m name}, start.During ⟨k, d, .code (.expr (.var name)), m⟩ →
    holds (Eval.lookup name) m
  assign : ∀ {k d m name e v n}, start.During ⟨k, d, .code (.expr (.assign name e)), m⟩ →
    e.eval (Function.apply k) m = .ok v n → holds (Eval.assign name v) n
  unary : ∀ {k d m op e v n}, start.During ⟨k, d, .code (.expr (.unary op e)), m⟩ →
    e.eval (Function.apply k) m = .ok v n → holds (Eval.pin op (v.unary op.kind)) n
  binary : ∀ {k d m a op b v n w o}, start.During ⟨k, d, .code (.expr (.binary a op b)), m⟩ →
    a.eval (Function.apply k) m = .ok v n → b.eval (Function.apply k) n = .ok w o →
    holds (Eval.pin op (v.binary op.kind w)) o
  notCallable : ∀ {k d m f paren es v n vs o},
    start.During ⟨k, d, .code (.expr (.call f paren es)), m⟩ →
    f.eval (Function.apply k) m = .ok v n → Expr.evalAll (Function.apply k) es n = .ok vs o →
    v.Plain → holds (Eval.fault paren .notCallable : Eval Value) o
  arity : ∀ {k d m f paren es g n vs o},
    start.During ⟨k, d, .code (.expr (.call f paren es)), m⟩ →
    f.eval (Function.apply k) m = .ok (.function g) n →
    Expr.evalAll (Function.apply k) es n = .ok vs o → vs.length ≠ g.arity →
    holds (Eval.fault paren (.arityMismatch g.arity vs.length) : Eval Value) o
  print : ∀ {k d m keyword e v n}, start.During ⟨k, d, .code (.stmt (.print keyword e)), m⟩ →
    e.eval (Function.apply k) m = .ok v n → holds (Eval.print keyword v) n

namespace Account

variable {start : Moment} {k : Nat} {α β : Type}

theorem map (A : Account start) {x : Eval α} {m : Machine} (f : α → β) (said : A.holds x m) :
    A.holds (f <$> x) m := by
  rw [map_eq_pure_bind]
  exact A.bind said fun a n _ => A.pure (f a)

def Calls (A : Account start) (k : Nat) : Prop :=
  ∀ d m f vs, start.During ⟨k, d, .call f vs, m⟩ → A.holds (Function.apply k f vs) m

theorem invoke (A : Account start) {d : Nat} {m n o : Machine} {f : Expr} {paren : Token}
    {es : List Expr} {v : Value} {vs : List Value} (calls : A.Calls k)
    (now : start.During ⟨k, d, .code (.expr (.call f paren es)), m⟩)
    (callee : f.eval (Function.apply k) m = .ok v n)
    (args : Expr.evalAll (Function.apply k) es n = .ok vs o) :
    A.holds (Treewalk.invoke (Function.apply k) paren v vs) o := by
  cases v with
  | function g =>
    rw [Treewalk.invoke]
    split
    · exact calls d o g vs (now.next (.call callee args ‹_›))
    · exact A.arity now callee args ‹_›
  | nil => exact A.notCallable now callee args Value.plain_nil
  | bool b => exact A.notCallable now callee args (Value.plain_bool b)
  | number x => exact A.notCallable now callee args (Value.plain_number x)
  | string s => exact A.notCallable now callee args (Value.plain_string s)

mutual

theorem eval (A : Account start) (calls : A.Calls k) :
    ∀ {d m} (e : Expr), start.During ⟨k, d, .code (.expr e), m⟩ →
      A.holds (e.eval (Function.apply k)) m
  | d, m, .constant c, _ => by
    rw [Expr.eval]
    exact A.pure c.value
  | d, m, .group e, now => by
    rw [Expr.eval]
    exact eval A calls e (now.next .group)
  | d, m, .var name, now => by
    rw [Expr.eval]
    exact A.lookup now
  | d, m, .assign name e, now => by
    rw [Expr.eval]
    refine A.bind (eval A calls e (now.next .assigned)) fun v n value => ?_
    exact A.bind (A.assign now value) fun _ _ _ => A.pure v
  | d, m, .logical a op b, now => by
    rw [Expr.eval]
    refine A.bind (eval A calls a (now.next .first)) fun v n left => ?_
    cases short : op.is .kwOr == v.truthy with
    | true => exact A.pure v
    | false => exact eval A calls b (now.next (.second left short))
  | d, m, .unary op e, now => by
    rw [Expr.eval]
    exact A.bind (eval A calls e (now.next .operand)) fun v n value => A.unary now value
  | d, m, .binary a op b, now => by
    rw [Expr.eval]
    refine A.bind (eval A calls a (now.next .left)) fun v n left => ?_
    exact A.bind (eval A calls b (now.next (.right left))) fun w o right => A.binary now left right
  | d, m, .call f paren es, now => by
    rw [Expr.eval]
    refine A.bind (eval A calls f (now.next .callee)) fun v n callee => ?_
    refine A.bind (evalAll A calls es (now.next (.args callee))) fun vs o args => ?_
    exact A.invoke calls now callee args

theorem evalAll (A : Account start) (calls : A.Calls k) :
    ∀ {d m} (es : List Expr), start.During ⟨k, d, .code (.exprs es), m⟩ →
      A.holds (Expr.evalAll (Function.apply k) es) m
  | d, m, [], _ => by
    rw [Expr.evalAll]
    exact A.pure []
  | d, m, e :: es, now => by
    rw [Expr.evalAll]
    refine A.bind (eval A calls e (now.next .firstExpr)) fun v n value => ?_
    refine A.bind (evalAll A calls es (now.next (.restExprs value))) fun vs o _ => ?_
    exact A.pure (v :: vs)

end

theorem loop (A : Account start) {c : Expr} {s : Stmt}
    (test : ∀ {d m}, start.During ⟨k, d, .code (.expr c), m⟩ →
      A.holds (c.eval (Function.apply k)) m)
    (turn : ∀ {d m}, start.During ⟨k, d, .code (.stmt s), m⟩ →
      A.holds (s.exec (Function.apply k) k) m)
    (turns : Nat) {d : Nat} {m : Machine} (now : start.During ⟨k, d, .loop c s turns, m⟩) :
    A.holds (repeatWhile (Value.truthy <$> c.eval (Function.apply k))
      (s.exec (Function.apply k) k) turns) m := by
  induction turns generalizing m with
  | zero => exact A.exhausted
  | succ turns ih =>
    rw [repeatWhile_succ]
    refine A.bind (A.map Value.truthy (test (now.next .test))) fun go n tested => ?_
    obtain ⟨v, value, same⟩ := Eval.map_eq_ok tested
    cases go with
    | false => exact A.pure Flow.next
    | true =>
      refine A.bind (turn (now.next (.turn value same))) fun flow o turned => ?_
      cases flow with
      | next => exact ih (now.next (.again value same turned))
      | returned u => exact A.pure (Flow.returned u)

mutual

theorem exec (A : Account start) (calls : A.Calls k) :
    ∀ {d m} (s : Stmt), start.During ⟨k, d, .code (.stmt s), m⟩ →
      A.holds (s.exec (Function.apply k) k) m
  | d, m, .expression e, now => by
    rw [Stmt.exec]
    exact A.bind (A.eval calls e (now.next .evaluated)) fun _ _ _ => A.pure Flow.next
  | d, m, .print keyword e, now => by
    rw [Stmt.exec]
    refine A.bind (A.eval calls e (now.next .printed)) fun v n value => ?_
    exact A.bind (A.print now value) fun _ _ _ => A.pure Flow.next
  | d, m, .varDecl name none, now => by
    rw [Stmt.exec]
    exact A.bind (A.define name .nil) fun _ _ _ => A.pure Flow.next
  | d, m, .varDecl name (some e), now => by
    rw [Stmt.exec]
    refine A.bind (A.eval calls e (now.next .initial)) fun v n _ => ?_
    exact A.bind (A.define name v) fun _ _ _ => A.pure Flow.next
  | d, m, .block ss, now => by
    rw [Stmt.exec]
    exact A.nested (A.inside (execAll A calls ss (now.next .block)))
  | d, m, .ifElse c s none, now => by
    rw [Stmt.exec]
    refine A.bind (A.eval calls c (now.next .condition)) fun v n tested => ?_
    split
    · exact exec A calls s (now.next (.thenBranch tested ‹_›))
    · exact A.pure Flow.next
  | d, m, .ifElse c s (some r), now => by
    rw [Stmt.exec]
    refine A.bind (A.eval calls c (now.next .condition)) fun v n tested => ?_
    cases goes : v.truthy with
    | true => exact exec A calls s (now.next (.thenBranch tested goes))
    | false => exact exec A calls r (now.next (.elseBranch tested goes))
  | d, m, .whileLoop c s, now => by
    rw [Stmt.exec]
    exact A.loop (A.eval calls c) (exec A calls s) k (now.next .loop)
  | d, m, .funDecl name params ss, now => by
    rw [Stmt.exec]
    refine A.bind (A.closure now) fun v n _ => ?_
    exact A.bind (A.define name v) fun _ _ _ => A.pure Flow.next
  | d, m, .ret keyword none, now => by
    rw [Stmt.exec]
    exact A.pure (Flow.returned .nil)
  | d, m, .ret keyword (some e), now => by
    rw [Stmt.exec]
    exact A.bind (A.eval calls e (now.next .returned)) fun v n _ => A.pure (Flow.returned v)

theorem execAll (A : Account start) (calls : A.Calls k) :
    ∀ {d m} (ss : List Stmt), start.During ⟨k, d, .code (.stmts ss), m⟩ →
      A.holds (Stmt.execAll (Function.apply k) k ss) m
  | d, m, [], _ => by
    rw [Stmt.execAll]
    exact A.pure Flow.next
  | d, m, s :: ss, now => by
    rw [Stmt.execAll]
    refine A.bind (exec A calls s (now.next .firstStmt)) fun flow n first => ?_
    cases flow with
    | next => exact execAll A calls ss (now.next (.restStmts first))
    | returned v => exact A.pure (Flow.returned v)

end

theorem native (A : Account start) {m : Machine} (n : Native) : A.holds n.run m := by
  unfold Native.run
  cases n.action with
  | clock => exact A.map Value.number A.clock
  | nothing => exact A.pure Value.nil

theorem calls (A : Account start) (k : Nat) : A.Calls k := by
  induction k with
  | zero =>
    intro d m f vs now
    cases f with
    | native id n =>
      rw [Function.apply]
      exact A.native n
    | closure id decl scope =>
      rw [Function.apply]
      exact A.exhausted
  | succ k ih =>
    intro d m f vs now
    cases f with
    | native id n =>
      rw [Function.apply]
      exact A.native n
    | closure id decl scope =>
      rw [Function.apply]
      exact A.map Flow.result (A.inside (A.execAll ih decl.body (now.next .body)))

theorem interpret (A : Account start) {d : Nat} {m : Machine} (ss : List Stmt)
    (now : start.During ⟨k, d, .program ss, m⟩) : A.holds (Treewalk.interpret k ss) m := by
  induction ss generalizing m with
  | nil => exact A.pure ()
  | cons s ss ih =>
    rw [Treewalk.interpret]
    refine A.bind (A.exec (A.calls k) s (now.next .firstOfProgram)) fun flow n first => ?_
    exact ih (now.next (.restOfProgram first))

/-- What an account holds of the single actions it holds of every task of the run. -/
theorem task (A : Account start) {q : Moment} (now : start.During q) :
    A.holds (q.task.run q.fuel) q.machine := by
  obtain ⟨k, d, t, m⟩ := q
  have calls := A.calls k
  cases t with
  | code c =>
    cases c with
    | expr e => exact A.map _ (A.eval calls e now)
    | exprs es => exact A.evalAll calls es now
    | stmt s => exact A.map _ (A.exec calls s now)
    | stmts ss => exact A.map _ (A.execAll calls ss now)
  | loop c s turns => exact A.map _ (A.loop (A.eval calls c) (A.exec calls s) turns now)
  | call f args => exact A.map _ (calls d m f args now)
  | program ss => exact A.map _ (A.interpret ss now)

end Account

section Made

variable {m : Machine}

theorem functions_lookup (name : Token) :
    ((Eval.lookup name).final m).store.functions = m.store.functions := by
  rw [Eval.final, Eval.lookup_apply]
  cases m.store.get? m.current name.lexeme <;> rfl

theorem functions_assign (name : Token) (v : Value) :
    ((Eval.assign name v).final m).store.functions = m.store.functions := by
  unfold Eval.final Eval.assign
  cases m.store.find? m.current name.lexeme <;> rfl

theorem functions_pin (t : Token) (r : Except Cause Value) :
    ((Eval.pin t r).final m).store.functions = m.store.functions := by
  cases r <;> rfl

theorem functions_print (keyword : Token) (v : Value) :
    ((Eval.print keyword v).final m).store.functions = m.store.functions := by
  unfold Eval.final Eval.print
  rcases m.sink.write (v.text ++ "\n").toUTF8 with ⟨_ | refusal, sink⟩ <;> rfl

/-- Each function number that a run hands out, it hands out at a moment that makes the function. -/
def making (start : Moment) : Account start where
  holds x m := ∀ i, m.store.functions ≤ i → i < (x.final m).store.functions →
    ∃ q f, start.During q ∧ q.Makes (.function f) ∧ f.id = i
  pure _ _ old new := absurd new (Nat.not_lt.mpr old)
  bind {α β x f m} first next i old new := by
    have before := first i old
    cases ended : x m with
    | ok a n =>
      rw [Eval.final_ok ended] at before
      rw [Eval.final_bind_ok ended] at new
      rcases Nat.lt_or_ge i n.store.functions with made | later
      · exact before made
      · exact next a n ended i later new
    | error h n =>
      rw [Eval.final_error ended] at before
      rw [Eval.final_bind_error ended] at new
      exact before new
  exhausted _ old new := absurd new (Nat.not_lt.mpr old)
  inside {x m p bs} act i old new := by
    apply act i old
    cases ended : x (m.enter p bs) with
    | ok flow n =>
      rw [Eval.final_ok (Eval.inside_ok ended)] at new
      rwa [Eval.final_ok ended]
    | error h n =>
      rw [Eval.final_error (Eval.inside_error ended)] at new
      rwa [Eval.final_error ended]
  nested act := act
  define _ _ _ old new := absurd new (Nat.not_lt.mpr old)
  closure {k d m name params ss} now i old new := by
    have last : i = m.store.functions := Nat.le_antisymm (Nat.le_of_lt_succ new) old
    exact ⟨_, _, now, ⟨name, params, ss, rfl, rfl⟩, last.symm⟩
  clock _ old new := absurd new (Nat.not_lt.mpr old)
  lookup _ _ old new := absurd (functions_lookup _ ▸ new) (Nat.not_lt.mpr old)
  assign _ _ _ old new := absurd (functions_assign _ _ ▸ new) (Nat.not_lt.mpr old)
  unary _ _ _ old new := absurd (functions_pin _ _ ▸ new) (Nat.not_lt.mpr old)
  binary _ _ _ _ old new := absurd (functions_pin _ _ ▸ new) (Nat.not_lt.mpr old)
  notCallable _ _ _ _ _ old new := absurd new (Nat.not_lt.mpr old)
  arity _ _ _ _ _ old new := absurd new (Nat.not_lt.mpr old)
  print _ _ _ old new := absurd (functions_print _ _ ▸ new) (Nat.not_lt.mpr old)

end Made

theorem Moment.Next.fails {q q' : Moment} {h : Halt} {n : Machine} (step : q.Next q')
    (failed : q'.task.run q'.fuel q'.machine = .error h n) :
    ∃ e, q.task.run q.fuel q.machine = .error h { n with current := e } := by
  cases step
  case body k d m id decl scope args =>
    have failed : (ofCall k decl scope args m).task.run k (ofCall k decl scope args m).machine =
      .error h n := failed
    have whole := run_call k id decl scope args m
    rw [failed] at whole
    exact ⟨m.current, whole⟩
  all_goals simp only [Task.run, Eval.map_error_iff] at failed ⊢
  case group => exact ⟨n.current, by rw [Expr.eval]; exact failed⟩
  case assigned | operand | left | first | callee =>
    exact ⟨n.current, by rw [Expr.eval]; exact Eval.bind_error failed⟩
  case right result =>
    refine ⟨n.current, ?_⟩
    rw [Expr.eval, Eval.bind_ok result]
    exact Eval.bind_error failed
  case second result goes =>
    refine ⟨n.current, ?_⟩
    rw [Expr.eval, Eval.bind_ok result, goes]
    exact failed
  case args result =>
    refine ⟨n.current, ?_⟩
    rw [Expr.eval, Eval.bind_ok result]
    exact Eval.bind_error failed
  case call result results arity =>
    refine ⟨n.current, ?_⟩
    rw [Expr.eval, Eval.bind_ok result, Eval.bind_ok results, invoke, if_pos arity]
    exact failed
  case firstExpr => exact ⟨n.current, by rw [Expr.evalAll]; exact Eval.bind_error failed⟩
  case restExprs result =>
    refine ⟨n.current, ?_⟩
    rw [Expr.evalAll, Eval.bind_ok result]
    exact Eval.bind_error failed
  case evaluated | printed | initial | returned =>
    exact ⟨n.current, by rw [Stmt.exec]; exact Eval.bind_error failed⟩
  case block m ss =>
    exact ⟨m.current, by rw [Stmt.exec, Eval.nested_apply]; exact Eval.inside_error failed⟩
  case condition r => cases r <;> exact ⟨n.current, by rw [Stmt.exec]; exact Eval.bind_error failed⟩
  case thenBranch r v o result goes =>
    cases r <;> exact ⟨n.current, by rw [Stmt.exec, Eval.bind_ok result, if_pos goes]; exact failed⟩
  case elseBranch result goes =>
    refine ⟨n.current, ?_⟩
    rw [Stmt.exec, Eval.bind_ok result, goes]
    exact failed
  case loop => exact ⟨n.current, by rw [Stmt.exec]; exact failed⟩
  case firstStmt => exact ⟨n.current, by rw [Stmt.execAll]; exact Eval.bind_error failed⟩
  case restStmts result =>
    refine ⟨n.current, ?_⟩
    rw [Stmt.execAll, Eval.bind_ok result]
    exact failed
  case test =>
    refine ⟨n.current, ?_⟩
    rw [repeatWhile_succ]
    exact Eval.bind_error ((Eval.map_error_iff Value.truthy).mpr failed)
  case turn v o result goes =>
    refine ⟨n.current, ?_⟩
    rw [repeatWhile_succ, Eval.bind_ok (Eval.map_ok Value.truthy result), goes]
    exact Eval.bind_error failed
  case again v o o' result goes turned =>
    refine ⟨n.current, ?_⟩
    rw [repeatWhile_succ, Eval.bind_ok (Eval.map_ok Value.truthy result), goes]
    exact (Eval.bind_ok turned).trans failed
  case firstOfProgram => exact ⟨n.current, by rw [interpret]; exact Eval.bind_error failed⟩
  case restOfProgram result =>
    refine ⟨n.current, ?_⟩
    rw [interpret, Eval.bind_ok result]
    exact failed

theorem Moment.During.fails {start q : Moment} {h : Halt} {n : Machine} (during : start.During q)
    (failed : q.task.run q.fuel q.machine = .error h n) :
    ∃ e, start.task.run start.fuel start.machine = .error h { n with current := e } := by
  induction during generalizing n with
  | start => exact ⟨n.current, failed⟩
  | next _ step ih =>
    obtain ⟨e, above⟩ := step.fails failed
    obtain ⟨e', whole⟩ := ih above
    exact ⟨e', whole⟩

end Treewalk
