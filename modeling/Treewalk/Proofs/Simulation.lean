import Treewalk.Proofs.Actions
import Treewalk.Proofs.Matching

namespace Treewalk

def Stmt.declares : Stmt → Bool
  | varDecl _ _ | funDecl _ _ _ => true
  | ifElse _ s none => s.declares
  | ifElse _ s (some r) => s.declares || r.declares
  | whileLoop _ s => s.declares
  | expression _ | print _ _ | block _ | ret _ _ => false

inductive Flow.Matches (w : World) : Flow → Flow → Prop
  | next : Matches w .next .next
  | returned {v v' : Value} : v.Matches w v' → Matches w (.returned v) (.returned v')

/-- How the current scopes stand to one another. Where a name can be bound the second must stand
for the first; elsewhere it is enough that it shows the same. -/
def World.View (w : World) : Bool → ScopeId → ScopeId → Prop
  | true => w.same
  | false => w.Sees

/-- `binds` says whether a name can be bound in the current scopes. -/
structure Machine.Matches (binds : Bool) (w : World) (m m' : Machine) : Prop where
  store : m.store.Matches w m'.store
  sink : m.sink = m'.sink
  clock : m.clock = m'.clock
  current : w.View binds m.current m'.current

structure Machine.Advance (binds : Bool) (w w' : World) (m m' n n' : Machine) :
    Prop where
  grows : w.Grows w'
  matches' : n.Matches binds w' n'
  left : m.Keeps n
  right : m'.Keeps n'

variable {w w' : World} {binds : Bool} {α β γ δ : Type}

def Agree (rel : World → α → β → Prop) (binds : Bool) (w : World) (m m' : Machine) :
    EStateM.Result Halt Machine α → EStateM.Result Halt Machine β → Prop
  | .ok a n, .ok b n' => ∃ w', Machine.Advance binds w w' m m' n n' ∧ rel w' a b
  | .error h n, .error h' n' => ∃ w', Machine.Advance binds w w' m m' n n' ∧ h = h'
  | _, _ => False

def Sim (rel : World → α → β → Prop) (binds : Bool) (w : World)
    (x : Eval α) (y : Eval β) : Prop :=
  ∀ m m', m.Matches binds w m' → Agree rel binds w m m' (x m) (y m')

namespace World

theorem View.grow {e e' : ScopeId} (grows : w.Grows w') (view : w.View binds e e') :
    w'.View binds e e' := by
  cases binds with
  | true => exact grows.same view
  | false => exact Sees.grow grows view

theorem View.sees {e e' : ScopeId} (view : w.View binds e e') : w.Sees e e' := by
  cases binds with
  | true => exact .here view
  | false => exact view

end World

namespace Machine

theorem Advance.trans {w'' : World} {m m' n n' o o' : Machine}
    (first : Advance binds w w' m m' n n') (second : Advance binds w' w'' n n' o o') :
    Advance binds w w'' m m' o o' :=
  ⟨first.grows.trans second.grows, second.matches', first.left.trans second.left,
    first.right.trans second.right⟩

theorem Matches.advance {m m' n n' : Machine} (matched : m.Matches binds w m')
    (after : n.store.Matches w n'.store) (sink : n.sink = n'.sink) (clock : n.clock = n'.clock)
    (left : m.Keeps n) (right : m'.Keeps n') : Advance binds w w m m' n n' := by
  refine ⟨.refl, ⟨after, sink, clock, ?_⟩, left, right⟩
  rw [left.current, right.current]
  exact matched.current

end Machine

namespace Agree

variable {rel : World → α → β → Prop} {m m' n n' : Machine}
  {x : EStateM.Result Halt Machine α} {y : EStateM.Result Halt Machine β}

theorem leave {binds' : Bool} {f g : Machine → Machine}
    (back : ∀ {w'' o o'}, Machine.Advance binds' w' w'' n n' o o' →
      Machine.Advance binds w w'' m m' (f o) (g o'))
    (result : Agree rel binds' w' n n' x y) :
    Agree rel binds w m m' (onFinal f x) (onFinal g y) := by
  cases x <;> cases y
  · obtain ⟨w'', step, related⟩ := result
    exact ⟨w'', back step, related⟩
  · exact result.elim
  · exact result.elim
  · obtain ⟨w'', step, same⟩ := result
    exact ⟨w'', back step, same⟩

theorem after (first : Machine.Advance binds w w' m m' n n') (rest : Agree rel binds w' n n' x y) :
    Agree rel binds w m m' x y := by
  have whole := rest.leave (f := id) (g := id) first.trans
  rwa [onFinal_id, onFinal_id] at whole

end Agree

namespace Sim

variable {rel : World → α → β → Prop} {rel' : World → γ → δ → Prop}

theorem pure {a : α} {b : β} (related : rel w a b) :
    Sim rel binds w (Pure.pure a) (Pure.pure b) := by
  intro m m' matched
  exact ⟨w, matched.advance matched.store matched.sink matched.clock .refl .refl, related⟩

theorem bind {x : Eval α} {y : Eval β} {f : α → Eval γ} {g : β → Eval δ}
    (first : Sim rel binds w x y)
    (next : ∀ w' a b, w.Grows w' → rel w' a b → Sim rel' binds w' (f a) (g b)) :
    Sim rel' binds w (x >>= f) (y >>= g) := by
  intro m m' matched
  have start := first m m' matched
  change Agree rel' binds w m m' (EStateM.bind x f m) (EStateM.bind y g m')
  unfold EStateM.bind
  cases hx : x m <;> cases hy : y m' <;> rw [hx, hy] at start
  · obtain ⟨w', step, related⟩ := start
    exact (next w' _ _ step.grows related _ _ step.matches').after step
  · exact start.elim
  · exact start.elim
  · exact start

theorem map {x : Eval α} {y : Eval β} {f : α → γ} {g : β → δ} (first : Sim rel binds w x y)
    (next : ∀ w' a b, rel w' a b → rel' w' (f a) (g b)) :
    Sim rel' binds w (f <$> x) (g <$> y) := by
  have same :
      Sim rel' binds w (x >>= fun a => Pure.pure (f a)) (y >>= fun b => Pure.pure (g b)) :=
    first.bind fun w' a b _ related => pure (next w' a b related)
  rw [map_eq_pure_bind, map_eq_pure_bind]
  exact same

theorem throw (halt : Halt) :
    Sim rel binds w (MonadExcept.throw halt) (MonadExcept.throw halt) := by
  intro m m' matched
  exact ⟨w, matched.advance matched.store matched.sink matched.clock .refl .refl, rfl⟩

theorem lookup (name : Token) :
    Sim Value.Matches binds w (Eval.lookup name) (Eval.lookup name) := by
  intro m m' matched
  rw [Eval.lookup_apply, Eval.lookup_apply]
  rcases matched.store.get matched.current.sees name.lexeme with
    ⟨none, none'⟩ | ⟨v, v', some, some', value⟩
  · rw [none, none']
    exact throw _ m m' matched
  · rw [some, some']
    exact ⟨w, matched.advance matched.store matched.sink matched.clock .refl .refl, value⟩

theorem assign {v v' : Value} (name : Token) (value : v.Matches w v') :
    Sim (fun _ _ _ => True) binds w (Eval.assign name v) (Eval.assign name v') := by
  intro m m' matched
  simp only [Eval.assign]
  rcases matched.store.find matched.current.sees name.lexeme with
    ⟨none, none'⟩ | ⟨h, u, h', u', some, some', same, -⟩
  · rw [none, none']
    exact throw _ m m' matched
  · rw [some, some']
    exact ⟨w, matched.advance (matched.store.define same _ value) matched.sink matched.clock
      ⟨rfl, rfl⟩ ⟨rfl, rfl⟩, trivial⟩

theorem define {v v' : Value} (name : Token) (value : v.Matches w v') :
    Sim (fun _ _ _ => True) true w (Eval.define name v) (Eval.define name v') := by
  intro m m' matched
  exact ⟨w, matched.advance (matched.store.define matched.current _ value) matched.sink
    matched.clock ⟨rfl, rfl⟩ ⟨rfl, rfl⟩, trivial⟩

theorem closure (decl : FunDecl) :
    Sim Value.Matches true w (Eval.closure decl) (Eval.closure decl) := by
  intro m m' matched
  have value :
      (m.store.closure decl m.current).1.Matches w (m'.store.closure decl m'.current).1 := by
    simp only [Store.closure, matched.store.functions]
    exact .function (.closure _ decl matched.current)
  exact ⟨w, matched.advance (matched.store.closure decl m.current m'.current) matched.sink
    matched.clock ⟨rfl, rfl⟩ ⟨rfl, rfl⟩, value⟩

theorem print {v v' : Value} (keyword : Token) (text : v.text = v'.text) :
    Sim (fun _ _ _ => True) binds w (Eval.print keyword v) (Eval.print keyword v') := by
  intro m m' matched
  simp only [Eval.print, ← text, ← matched.sink]
  rcases m.sink.write (v.text ++ "\n").toUTF8 with ⟨_ | refusal, sink⟩
  · exact ⟨w, matched.advance matched.store rfl matched.clock ⟨rfl, rfl⟩ ⟨rfl, rfl⟩, trivial⟩
  · have written : Machine.Advance binds w w m m' { m with sink } { m' with sink } :=
      matched.advance matched.store rfl matched.clock ⟨rfl, rfl⟩ ⟨rfl, rfl⟩
    exact ⟨w, written, rfl⟩

theorem readClock : Sim (fun _ a b => a = b) binds w Eval.readClock Eval.readClock := by
  intro m m' matched
  simp only [Eval.readClock, ← matched.clock]
  exact ⟨w, matched.advance matched.store matched.sink rfl ⟨rfl, rfl⟩ ⟨rfl, rfl⟩, rfl⟩

theorem inside {p p' : ScopeId} {bs bs' : List (String × Value)} {x : Eval α} {y : Eval β}
    (sees : w.Sees p p') (bindings : BindingsMatch w bs bs')
    (act : ∀ w', w.Grows w' → Sim rel true w' x y) :
    Sim rel binds w (Eval.inside p bs x) (Eval.inside p' bs' y) := by
  intro m m' matched
  have grows := w.grows_link m.store.scopes.size m'.store.scopes.size
  have entered : (m.enter p bs).Matches true (w.link m.store.scopes.size m'.store.scopes.size)
      (m'.enter p' bs') :=
    ⟨matched.store.add bindings sees, matched.sink, matched.clock, .inr ⟨rfl, rfl⟩⟩
  have result := act _ grows _ _ entered
  -- The scopes before come back, and still stand as they did.
  have back {w' n n'} (step : Machine.Advance true
      (w.link m.store.scopes.size m'.store.scopes.size) w' (m.enter p bs) (m'.enter p' bs') n n') :
      Machine.Advance binds w w' m m' { n with current := m.current }
        { n' with current := m'.current } := by
    have whole := grows.trans step.grows
    exact ⟨whole, ⟨step.matches'.store, step.matches'.sink, step.matches'.clock,
      matched.current.grow whole⟩, ⟨rfl, step.left.globals⟩, ⟨rfl, step.right.globals⟩⟩
  exact result.leave back

theorem nested {x : Eval α} {y : Eval β} (act : ∀ w', w.Grows w' → Sim rel true w' x y) :
    Sim rel binds w (Eval.nested x) (Eval.nested y) := by
  intro m m' matched
  exact inside matched.current.sees .nil act m m' matched

/-- An action in a new scope of the second store only, in which it binds no name. -/
theorem padded {x : Eval α} {y : Eval β} (act : ∀ w', w.Grows w' → Sim rel false w' x y) :
    Sim rel true w x (Eval.nested y) := by
  intro m m' matched
  have grows := w.grows_pad m'.store.scopes.size m'.current
  have older := (matched.store.bound matched.current).2
  have entered :
      m.Matches false (w.pad m'.store.scopes.size m'.current) (m'.enter m'.current []) :=
    ⟨matched.store.pad, matched.sink, matched.clock,
      .past (.inr ⟨rfl, rfl⟩) older (.here matched.current)⟩
  have result := act _ grows _ _ entered
  have back {w' n n'} (step : Machine.Advance false (w.pad m'.store.scopes.size m'.current) w' m
      (m'.enter m'.current []) n n') :
      Machine.Advance true w w' m m' n { n' with current := m'.current } := by
    have whole := grows.trans step.grows
    refine ⟨whole, ⟨step.matches'.store, step.matches'.sink, step.matches'.clock, ?_⟩, step.left,
      ⟨rfl, step.right.globals⟩⟩
    rw [step.left.current]
    exact matched.current.grow whole
  rw [← onFinal_id (x m)]
  exact result.leave back

theorem repeatWhile {c c' : Eval Bool} {x y : Eval Flow}
    (condition : ∀ w', w.Grows w' → Sim (fun _ a b => a = b) binds w' c c')
    (body : ∀ w', w.Grows w' → Sim Flow.Matches binds w' x y) (turns : Nat) :
    Sim Flow.Matches binds w (Treewalk.repeatWhile c x turns)
      (Treewalk.repeatWhile c' y turns) := by
  induction turns generalizing w with
  | zero => exact throw .exhausted
  | succ turns ih =>
    rw [repeatWhile_succ, repeatWhile_succ]
    refine (condition w .refl).bind fun w₁ a b grows₁ same => ?_
    subst same
    cases a with
    | false => exact pure .next
    | true =>
      refine (body w₁ grows₁).bind fun w₂ f g grows₂ flow => ?_
      cases flow with
      | next =>
        have grows := grows₁.trans grows₂
        exact ih (fun w' later => condition w' (grows.trans later))
          fun w' later => body w' (grows.trans later)
      | returned value => exact pure (.returned value)

end Sim

namespace Function.Matches

variable {f f' : Function}

theorem id (matched : f.Matches w f') : f.id = f'.id := by
  cases matched <;> rfl

theorem arity (matched : f.Matches w f') : f.arity = f'.arity := by
  cases matched with
  | native id n => rfl
  | closure id decl scope => rfl

theorem text (matched : f.Matches w f') : f.text = f'.text := by
  cases matched with
  | native id n => rfl
  | closure id decl scope => rfl

end Function.Matches

namespace Value

variable {u u' v v' : Value}

theorem Matches.truthy (matched : v.Matches w v') : v.truthy = v'.truthy := by
  cases matched <;> rfl

theorem Matches.text (matched : v.Matches w v') : v.text = v'.text := by
  cases matched with
  | function f => exact f.text
  | _ => rfl

theorem Matches.equal (first : u.Matches w u') (second : v.Matches w v') :
    u.equal v = u'.equal v' := by
  cases first with
  | function f =>
    cases second with
    | function g => simp only [Value.equal, f.id, g.id]
    | _ => rfl
  | _ => cases second <;> rfl

theorem Matches.add (first : u.Matches w u') (second : v.Matches w v') :
    u.add v = u'.add v' := by
  cases first <;> cases second <;> rfl

theorem Matches.unary (matched : v.Matches w v') (op : Token.Kind) :
    v.unary op = v'.unary op := by
  cases matched with
  | function f => cases op <;> rfl
  | _ => rfl

theorem Matches.binary (first : u.Matches w u') (second : v.Matches w v') (op : Token.Kind) :
    u.binary op v = u'.binary op v' := by
  unfold Value.binary
  rw [first.equal second, first.add second]
  split
  · rfl
  · rfl
  · rfl
  · cases first <;> cases second <;> rfl

theorem Plain.matches {v : Value} (plain : v.Plain) : v.Matches w v := by
  cases v with
  | nil => exact .nil
  | bool b => exact .bool b
  | number x => exact .number x
  | string s => exact .string s
  | function f => exact absurd rfl (plain f)

end Value

theorem Sim.pin (t : Token) {r : Except Cause Value} (plain : ∀ v, r = .ok v → v.Plain) :
    Sim Value.Matches binds w (Eval.pin t r) (Eval.pin t r) := by
  cases r with
  | ok v => exact .pure (plain v rfl).matches
  | error cause => exact .throw _

def CallsMatch (call : Caller) : Prop :=
  ∀ (w : World) (binds : Bool) (f f' : Function) (args args' : List Value),
    f.Matches w f' → ValuesMatch w args args' →
    Sim Value.Matches binds w (call f args) (call f' args')

variable {call : Caller}

theorem Sim.invoke {f f' : Value} {args args' : List Value} (calls : CallsMatch call)
    (paren : Token) (callee : f.Matches w f') (given : ValuesMatch w args args') :
    Sim Value.Matches binds w (Treewalk.invoke call paren f args)
      (Treewalk.invoke call paren f' args') := by
  cases callee with
  | function f =>
    simp only [Treewalk.invoke, ← f.arity, ← given.length_eq]
    split
    · exact calls w binds _ _ _ _ f given
    · exact .throw _
  | _ => exact .throw _

mutual

theorem eval_sim (calls : CallsMatch call) (w : World) (binds : Bool) (e : Expr) :
    Sim Value.Matches binds w (e.eval call) (e.eval call) := by
  cases e with
  | constant c =>
    rw [Expr.eval]
    exact .pure (Value.plain_constant c).matches
  | group e =>
    rw [Expr.eval]
    exact eval_sim calls w binds e
  | var name =>
    rw [Expr.eval]
    exact .lookup name
  | assign name e =>
    rw [Expr.eval]
    refine (eval_sim calls w binds e).bind fun w₁ v v' _ value => ?_
    refine (Sim.assign name value).bind fun w₂ _ _ grows _ => ?_
    exact .pure (value.grow grows)
  | logical left op right =>
    rw [Expr.eval]
    refine (eval_sim calls w binds left).bind fun w₁ v v' _ value => ?_
    rw [← value.truthy]
    split
    · exact .pure value
    · exact eval_sim calls w₁ binds right
  | unary op e =>
    rw [Expr.eval]
    refine (eval_sim calls w binds e).bind fun w₁ v v' _ value => ?_
    rw [← value.unary]
    exact .pin op fun _ => Value.unary_plain
  | binary left op right =>
    rw [Expr.eval]
    refine (eval_sim calls w binds left).bind fun w₁ u u' _ first => ?_
    refine (eval_sim calls w₁ binds right).bind fun w₂ v v' grows second => ?_
    rw [← (first.grow grows).binary second]
    exact .pin op fun _ => Value.binary_plain
  | call callee paren args =>
    rw [Expr.eval]
    refine (eval_sim calls w binds callee).bind fun w₁ f f' _ first => ?_
    refine (evalAll_sim calls w₁ binds args).bind fun w₂ vs vs' grows values => ?_
    exact .invoke calls paren (first.grow grows) values

theorem evalAll_sim (calls : CallsMatch call) (w : World) (binds : Bool) (es : List Expr) :
    Sim ValuesMatch binds w (Expr.evalAll call es) (Expr.evalAll call es) := by
  cases es with
  | nil => exact .pure .nil
  | cons e es =>
    rw [Expr.evalAll]
    refine (eval_sim calls w binds e).bind fun w₁ v v' _ value => ?_
    refine (evalAll_sim calls w₁ binds es).bind fun w₂ vs vs' grows values => ?_
    exact .pure (.cons (value.grow grows) values)

end

mutual

theorem exec_sim (calls : CallsMatch call) (turns : Nat) (w : World) (binds : Bool) (s : Stmt)
    (declares : s.declares = true → binds = true) :
    Sim Flow.Matches binds w (s.exec call turns) (s.exec call turns) := by
  cases s with
  | expression e =>
    rw [Stmt.exec]
    exact (eval_sim calls w binds e).bind fun w₁ v v' _ _ => .pure .next
  | print keyword e =>
    rw [Stmt.exec]
    refine (eval_sim calls w binds e).bind fun w₁ v v' _ value => ?_
    exact (Sim.print keyword value.text).bind fun _ _ _ _ _ => .pure .next
  | varDecl name initial =>
    cases declares rfl
    cases initial with
    | none =>
      rw [Stmt.exec]
      exact (Sim.define name .nil).bind fun _ _ _ _ _ => .pure .next
    | some e =>
      rw [Stmt.exec]
      refine (eval_sim calls w true e).bind fun w₁ v v' _ value => ?_
      exact (Sim.define name value).bind fun _ _ _ _ _ => .pure .next
  | block body =>
    rw [Stmt.exec]
    exact .nested fun w' _ => execAll_sim calls turns w' body
  | ifElse condition thenBranch elseBranch =>
    cases elseBranch with
    | none =>
      rw [Stmt.exec]
      refine (eval_sim calls w binds condition).bind fun w₁ v v' _ value => ?_
      rw [← value.truthy]
      split
      · exact exec_sim calls turns w₁ binds thenBranch declares
      · exact .pure .next
    | some elseBranch =>
      simp only [Stmt.declares, Bool.or_eq_true] at declares
      rw [Stmt.exec]
      refine (eval_sim calls w binds condition).bind fun w₁ v v' _ value => ?_
      rw [← value.truthy]
      split
      · exact exec_sim calls turns w₁ binds thenBranch fun declared => declares (.inl declared)
      · exact exec_sim calls turns w₁ binds elseBranch fun declared => declares (.inr declared)
  | whileLoop condition body =>
    rw [Stmt.exec]
    refine .repeatWhile (fun w' _ => ?_) (fun w' _ => exec_sim calls turns w' binds body declares)
      turns
    exact (eval_sim calls w' binds condition).map fun _ _ _ value => value.truthy
  | funDecl name params body =>
    cases declares rfl
    rw [Stmt.exec]
    refine (Sim.closure ⟨name, params, body⟩).bind fun w₁ v v' _ value => ?_
    exact (Sim.define name value).bind fun _ _ _ _ _ => .pure .next
  | ret keyword value =>
    cases value with
    | none =>
      rw [Stmt.exec]
      exact .pure (.returned .nil)
    | some e =>
      rw [Stmt.exec]
      exact (eval_sim calls w binds e).bind fun w₁ v v' _ value => .pure (.returned value)

theorem execAll_sim (calls : CallsMatch call) (turns : Nat) (w : World) (ss : List Stmt) :
    Sim Flow.Matches true w (Stmt.execAll call turns ss) (Stmt.execAll call turns ss) := by
  cases ss with
  | nil => exact .pure .next
  | cons s ss =>
    rw [Stmt.execAll]
    refine (exec_sim calls turns w true s fun _ => rfl).bind fun w₁ f g _ flow => ?_
    cases flow with
    | next => exact execAll_sim calls turns w₁ ss
    | returned value => exact .pure (.returned value)

end

theorem ValuesMatch.bind {args args' : List Value} (given : ValuesMatch w args args')
    (decl : FunDecl) : BindingsMatch w (decl.bind args) (decl.bind args') := by
  have along (params : List Token) {args args' : List Value} {bs bs' : List (String × Value)}
      (given : ValuesMatch w args args') (before : BindingsMatch w bs bs') :
      BindingsMatch w
        ((params.zip args).foldl (fun bindings arg => setBinding arg.1.lexeme arg.2 bindings) bs)
        ((params.zip args').foldl
          (fun bindings arg => setBinding arg.1.lexeme arg.2 bindings) bs') := by
    induction params generalizing args args' bs bs' with
    | nil => exact before
    | cons param params ih =>
      cases given with
      | nil => exact before
      | cons value rest => exact ih rest (before.set _ value)
  exact along decl.params given .nil

theorem Sim.native (n : Native) : Sim Value.Matches binds w n.run n.run := by
  unfold Native.run
  cases n.action with
  | clock => exact Sim.readClock.map fun _ _ _ same => same ▸ .number _
  | nothing => exact .pure .nil

theorem callsMatch_apply (fuel : Nat) : CallsMatch (Function.apply fuel) := by
  induction fuel with
  | zero =>
    intro w binds f f' args args' function given
    cases function with
    | native id n =>
      simp only [Function.apply]
      exact .native n
    | closure id decl scope => exact .throw _
  | succ fuel ih =>
    intro w binds f f' args args' function given
    cases function with
    | native id n =>
      simp only [Function.apply]
      exact .native n
    | closure id decl scope =>
      have body : Sim Flow.Matches binds w _ _ :=
        .inside (.here scope) (given.bind decl) fun w' _ => execAll_sim ih fuel w' decl.body
      refine body.map fun w' a b flow => ?_
      cases flow with
      | next => exact .nil
      | returned value => exact value

end Treewalk
