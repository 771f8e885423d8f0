import Treewalk.Proofs.Renumbering

namespace Treewalk

namespace Overlap

structure Linked (o : Overlap) (m m' : Machine) : Prop where
  store : o.Stores m.store m'.store
  known : o.Known m.current
  current : m'.current = o.scope m.current
  sink : m'.sink = m.sink
  clock : m'.clock = m.clock

variable {α β : Type}

/-- The second result is the first up to the numbers, and the first is a `good` one. -/
def Ends (o : Overlap) (good : α → Prop) (move : α → α) :
    EStateM.Result Halt Machine α → EStateM.Result Halt Machine α → Prop
  | .ok a n, r => good a ∧ ∃ n', r = .ok (move a) n' ∧ o.Linked n n'
  | .error h n, r => ∃ n', r = .error h n' ∧ o.Linked n n'

def KnowsFlow (o : Overlap) (flow : Flow) : Prop := o.Knows flow.result

theorem knows_next {o : Overlap} : o.KnowsFlow .next := knows_plain Value.plain_nil

def Runs (o : Overlap) (good : α → Prop) (move : α → α) (x y : Eval α) : Prop :=
  ∀ m m', o.Linked m m' → o.Ends good move (x m) (y m')

namespace Runs

variable {o : Overlap} {good : α → Prop} {move : α → α} {good' : β → Prop} {move' : β → β}

theorem pure {a b : α} (holds : good a) (same : b = move a) :
    o.Runs good move (Pure.pure a) (Pure.pure b) := by
  intro m m' linked
  exact ⟨holds, m', congrArg (EStateM.Result.ok · m') same, linked⟩

theorem bind {x y : Eval α} {f g : α → Eval β} (first : o.Runs good move x y)
    (next : ∀ a, good a → o.Runs good' move' (f a) (g (move a))) :
    o.Runs good' move' (x >>= f) (y >>= g) := by
  intro m m' linked
  have start := first m m' linked
  cases ended : x m with
  | ok a n =>
    rw [ended] at start
    obtain ⟨holds, n', ended', linked'⟩ := start
    rw [Eval.bind_ok ended, Eval.bind_ok ended']
    exact next a holds n n' linked'
  | error h n =>
    rw [ended] at start
    obtain ⟨n', ended', linked'⟩ := start
    rw [Eval.bind_error ended, Eval.bind_error ended']
    exact ⟨n', rfl, linked'⟩

theorem map {x y : Eval α} {f : α → β} (first : o.Runs good move x y)
    (next : ∀ a, good a → good' (f a) ∧ f (move a) = move' (f a)) :
    o.Runs good' move' (f <$> x) (f <$> y) := by
  rw [map_eq_pure_bind, map_eq_pure_bind]
  exact first.bind fun a holds => pure (next a holds).1 (next a holds).2

theorem fault {t : Token} {cause : Cause} :
    o.Runs good move (Eval.fault t cause) (Eval.fault t cause) :=
  fun _ m' linked => ⟨m', rfl, linked⟩

theorem exhausted : o.Runs good move (throw .exhausted) (throw .exhausted) :=
  fun _ m' linked => ⟨m', rfl, linked⟩

theorem pin {t : Token} {r : Except Cause Value} (plain : ∀ v, r = .ok v → v.Plain) :
    o.Runs o.Knows o.value (Eval.pin t r) (Eval.pin t r) := by
  cases r with
  | ok v => exact pure (knows_plain (plain v rfl)) (Renumbering.value_plain (plain v rfl)).symm
  | error cause => exact fault

theorem lookup {name : Token} :
    o.Runs o.Knows o.value (Eval.lookup name) (Eval.lookup name) := by
  intro m m' linked
  have same := linked.store.find? linked.known name.lexeme
  rw [← linked.current] at same
  rw [Eval.lookup_apply, Eval.lookup_apply, Store.get?, Store.get?, same]
  cases result : m.store.find? m.current name.lexeme with
  | none => exact ⟨m', rfl, linked⟩
  | some holder => exact ⟨linked.store.find?_knows linked.known result, m', rfl, linked⟩

theorem assign {name : Token} {v : Value} (value : o.Knows v) :
    o.Runs (fun _ => True) id (Eval.assign name v) (Eval.assign name (o.value v)) := by
  intro m m' linked
  have same := linked.store.find? linked.known name.lexeme
  rw [← linked.current] at same
  unfold Eval.assign
  rw [same]
  cases result : m.store.find? m.current name.lexeme with
  | none => exact ⟨m', rfl, linked⟩
  | some holder =>
    have known := linked.store.find?_known linked.known result
    exact ⟨trivial, _, rfl, linked.store.define known name.lexeme value, linked.known,
      linked.current, linked.sink, linked.clock⟩

theorem define {name : Token} {v : Value} (value : o.Knows v) :
    o.Runs (fun _ => True) id (Eval.define name v) (Eval.define name (o.value v)) := by
  intro m m' linked
  have stores := linked.store.define linked.known name.lexeme value
  rw [← linked.current] at stores
  exact ⟨trivial, _, rfl, stores, linked.known, linked.current, linked.sink, linked.clock⟩

theorem closure {decl : FunDecl} :
    o.Runs o.Knows o.value (Eval.closure decl) (Eval.closure decl) := by
  intro m m' linked
  have stores := linked.store.closure decl (e := m.current)
  have value : (m'.store.closure decl m'.current).1 =
      o.value (m.store.closure decl m.current).1 := by
    simp only [Store.closure, linked.store.functions, linked.current]
    rfl
  rw [← linked.current] at stores
  refine ⟨⟨?_, ?_⟩, _, congrArg (EStateM.Result.ok · _) value, stores, linked.known,
    linked.current, linked.sink, linked.clock⟩
  · rintro d ⟨⟩
    exact linked.known
  · rintro f ⟨⟩ old
    exact absurd old (Nat.not_lt.mpr linked.store.functions_le)

theorem print {keyword : Token} {v w : Value} (text : w.text = v.text) :
    o.Runs (fun _ => True) id (Eval.print keyword v) (Eval.print keyword w) := by
  intro m m' linked
  unfold Eval.print
  rw [text, linked.sink]
  rcases m.sink.write (v.text ++ "\n").toUTF8 with ⟨_ | refusal, sink⟩
  · exact ⟨trivial, _, rfl, linked.store, linked.known, linked.current, rfl, linked.clock⟩
  · exact ⟨_, rfl, linked.store, linked.known, linked.current, rfl, linked.clock⟩

theorem readClock : o.Runs (fun _ => True) id Eval.readClock Eval.readClock := by
  intro m m' linked
  unfold Eval.readClock
  rw [linked.clock]
  exact ⟨trivial, _, rfl, linked.store, linked.known, linked.current, linked.sink, rfl⟩

theorem inside {p : ScopeId} {bs : List (String × Value)} {x y : Eval α} (known : o.Known p)
    (values : ∀ b ∈ bs, o.Knows b.2) (act : o.Runs good move x y) :
    o.Runs good move (Eval.inside p bs x) (Eval.inside (o.scope p) (o.bindings bs) y) := by
  intro m m' linked
  -- The new scope has the next number in each store, and the shift takes the one to the other.
  have entered : o.Linked (m.enter p bs) (m'.enter (o.scope p) (o.bindings bs)) :=
    ⟨linked.store.add known values, known_of_le linked.store.size_le, linked.store.size,
      linked.sink, linked.clock⟩
  have body := act _ _ entered
  rw [Eval.inside_apply, Eval.inside_apply]
  cases ended : x (m.enter p bs) with
  | ok a n =>
    rw [ended] at body
    obtain ⟨holds, n', ended', after⟩ := body
    rw [ended']
    exact ⟨holds, _, rfl, after.store, linked.known, linked.current, after.sink, after.clock⟩
  | error h n =>
    rw [ended] at body
    obtain ⟨n', ended', after⟩ := body
    rw [ended']
    exact ⟨_, rfl, after.store, linked.known, linked.current, after.sink, after.clock⟩

theorem nested {x y : Eval α} (act : o.Runs good move x y) :
    o.Runs good move (Eval.nested x) (Eval.nested y) := by
  intro m m' linked
  rw [Eval.nested_apply, Eval.nested_apply, linked.current]
  exact inside linked.known (fun b member => absurd member List.not_mem_nil) act m m' linked

theorem repeatWhile {c d : Eval Bool} {x y : Eval Flow}
    (condition : o.Runs (fun _ => True) id c d) (body : o.Runs o.KnowsFlow o.flow x y)
    (turns : Nat) :
    o.Runs o.KnowsFlow o.flow (Treewalk.repeatWhile c x turns)
      (Treewalk.repeatWhile d y turns) := by
  induction turns with
  | zero => exact exhausted
  | succ turns ih =>
    rw [repeatWhile_succ, repeatWhile_succ]
    refine condition.bind fun go _ => ?_
    cases go with
    | false => exact pure knows_next rfl
    | true =>
      refine body.bind fun flow value => ?_
      cases flow with
      | next => exact ih
      | returned v => exact pure value rfl

end Runs

def CallsRun (o : Overlap) (call : Caller) : Prop :=
  ∀ f args, o.Knows (.function f) → (∀ v ∈ args, o.Knows v) →
    o.Runs o.Knows o.value (call f args) (call (o.function f) (args.map o.value))

section Evaluation

variable {o : Overlap} {call : Caller}

theorem invoke_runs {paren : Token} {f : Value} {args : List Value} (calls : o.CallsRun call)
    (callee : o.Knows f) (given : ∀ v ∈ args, o.Knows v) :
    o.Runs o.Knows o.value (invoke call paren f args)
      (invoke call paren (o.value f) (args.map o.value)) := by
  cases f with
  | function f =>
    simp only [Renumbering.value, invoke, Renumbering.function_arity, List.length_map]
    split
    · exact calls f args callee given
    · exact .fault
  | _ => exact .fault

mutual

theorem eval_runs (calls : o.CallsRun call) :
    ∀ e : Expr, o.Runs o.Knows o.value (e.eval call) (e.eval call)
  | .constant c => by
    rw [Expr.eval]
    have plain := Value.plain_constant c
    exact .pure (knows_plain plain) (Renumbering.value_plain plain).symm
  | .group e => by
    rw [Expr.eval]
    exact eval_runs calls e
  | .var name => by
    rw [Expr.eval]
    exact .lookup
  | .assign name e => by
    rw [Expr.eval]
    refine (eval_runs calls e).bind fun v value => ?_
    exact (Runs.assign value).bind fun _ _ => .pure value rfl
  | .logical a op b => by
    rw [Expr.eval]
    refine (eval_runs calls a).bind fun v value => ?_
    rw [Renumbering.value_truthy]
    split
    · exact .pure value rfl
    · exact eval_runs calls b
  | .unary op e => by
    rw [Expr.eval]
    refine (eval_runs calls e).bind fun v value => ?_
    rw [value_unary]
    exact .pin fun _ => Value.unary_plain
  | .binary a op b => by
    rw [Expr.eval]
    refine (eval_runs calls a).bind fun u first => ?_
    refine (eval_runs calls b).bind fun v second => ?_
    rw [value_binary op.kind first second]
    exact .pin fun _ => Value.binary_plain
  | .call f paren es => by
    rw [Expr.eval]
    refine (eval_runs calls f).bind fun v callee => ?_
    exact (evalAll_runs calls es).bind fun vs given => invoke_runs calls callee given

theorem evalAll_runs (calls : o.CallsRun call) :
    ∀ es : List Expr, o.Runs (fun vs => ∀ v ∈ vs, o.Knows v) (List.map o.value)
      (Expr.evalAll call es) (Expr.evalAll call es)
  | [] => by
    rw [Expr.evalAll]
    exact .pure (fun v member => absurd member List.not_mem_nil) rfl
  | e :: es => by
    rw [Expr.evalAll]
    refine (eval_runs calls e).bind fun v value => ?_
    refine (evalAll_runs calls es).bind fun vs values => ?_
    exact .pure (List.forall_mem_cons.mpr ⟨value, values⟩) rfl

end

mutual

theorem exec_runs (calls : o.CallsRun call) (turns : Nat) :
    ∀ s : Stmt, o.Runs o.KnowsFlow o.flow (s.exec call turns) (s.exec call turns)
  | .expression e => by
    rw [Stmt.exec]
    exact (eval_runs calls e).bind fun _ _ => .pure knows_next rfl
  | .print keyword e => by
    rw [Stmt.exec]
    refine (eval_runs calls e).bind fun v value => ?_
    exact (Runs.print (Renumbering.value_text v)).bind fun _ _ => .pure knows_next rfl
  | .varDecl name none => by
    rw [Stmt.exec]
    exact (Runs.define (knows_plain Value.plain_nil)).bind fun _ _ => .pure knows_next rfl
  | .varDecl name (some e) => by
    rw [Stmt.exec]
    refine (eval_runs calls e).bind fun v value => ?_
    exact (Runs.define value).bind fun _ _ => .pure knows_next rfl
  | .block ss => by
    rw [Stmt.exec]
    exact .nested (execAll_runs calls turns ss)
  | .ifElse c s none => by
    rw [Stmt.exec]
    refine (eval_runs calls c).bind fun v _ => ?_
    rw [Renumbering.value_truthy]
    split
    · exact exec_runs calls turns s
    · exact .pure knows_next rfl
  | .ifElse c s (some r) => by
    rw [Stmt.exec]
    refine (eval_runs calls c).bind fun v _ => ?_
    rw [Renumbering.value_truthy]
    split
    · exact exec_runs calls turns s
    · exact exec_runs calls turns r
  | .whileLoop c s => by
    rw [Stmt.exec]
    have condition : o.Runs (fun _ => True) id (Value.truthy <$> c.eval call) _ :=
      (eval_runs calls c).map fun v _ => ⟨trivial, Renumbering.value_truthy v⟩
    exact .repeatWhile condition (exec_runs calls turns s) turns
  | .funDecl name params ss => by
    rw [Stmt.exec]
    refine Runs.closure.bind fun v value => ?_
    exact (Runs.define value).bind fun _ _ => .pure knows_next rfl
  | .ret keyword none => by
    rw [Stmt.exec]
    exact .pure (knows_plain Value.plain_nil) rfl
  | .ret keyword (some e) => by
    rw [Stmt.exec]
    exact (eval_runs calls e).bind fun v value => .pure value rfl

theorem execAll_runs (calls : o.CallsRun call) (turns : Nat) :
    ∀ ss : List Stmt,
      o.Runs o.KnowsFlow o.flow (Stmt.execAll call turns ss) (Stmt.execAll call turns ss)
  | [] => by
    rw [Stmt.execAll]
    exact .pure knows_next rfl
  | s :: ss => by
    rw [Stmt.execAll]
    refine (exec_runs calls turns s).bind fun flow value => ?_
    cases flow with
    | next => exact execAll_runs calls turns ss
    | returned v => exact .pure value rfl

end

theorem native_runs (n : Native) : o.Runs o.Knows o.value n.run n.run := by
  unfold Native.run
  cases n.action with
  | clock => exact Runs.readClock.map fun x _ => ⟨knows_plain (Value.plain_number x), rfl⟩
  | nothing => exact .pure (knows_plain Value.plain_nil) rfl

theorem apply_runs (o : Overlap) (fuel : Nat) : o.CallsRun (Function.apply fuel) := by
  induction fuel with
  | zero =>
    intro f args function given
    cases f with
    | native id n =>
      simp only [Renumbering.function, Function.apply]
      exact native_runs n
    | closure id decl scope =>
      simp only [Renumbering.function, Function.apply]
      exact .exhausted
  | succ fuel ih =>
    intro f args function given
    cases f with
    | native id n =>
      simp only [Renumbering.function, Function.apply]
      exact native_runs n
    | closure id decl scope =>
      simp only [Renumbering.function, Function.apply, Renumbering.bind_bindings]
      have known : ∀ b ∈ decl.bind args, o.Knows b.2 := fun b member => given b.2 (mem_bind member)
      have body := Runs.inside (function.captured scope rfl) known
        (execAll_runs ih fuel decl.body)
      exact body.map fun flow value => ⟨value, Renumbering.flow_result flow⟩

end Evaluation

end Overlap

end Treewalk
