import Treewalk.Proofs.Actions
import Treewalk.Proofs.Scopes

namespace Treewalk

open Token (Kind)

def Function.mapDecl (φ : FunDecl → FunDecl) : Function → Function
  | .native id n => .native id n
  | .closure id decl scope => .closure id (φ decl) scope

def Value.mapDecl (φ : FunDecl → FunDecl) : Value → Value
  | .function f => .function (f.mapDecl φ)
  | v => v

def Scope.mapDecl (φ : FunDecl → FunDecl) (c : Scope) : Scope :=
  { c with bindings := c.bindings.map fun b => (b.1, b.2.mapDecl φ) }

def Store.mapDecl (φ : FunDecl → FunDecl) (s : Store) : Store :=
  { s with scopes := s.scopes.map (Scope.mapDecl φ) }

def Machine.mapDecl (φ : FunDecl → FunDecl) (m : Machine) : Machine :=
  { m with store := m.store.mapDecl φ }

def Flow.mapDecl (φ : FunDecl → FunDecl) : Flow → Flow
  | .next => .next
  | .returned v => .returned (v.mapDecl φ)

variable {φ : FunDecl → FunDecl} {α β γ δ : Type}

namespace Value

theorem truthy_mapDecl (v : Value) : (v.mapDecl φ).truthy = v.truthy := by cases v <;> rfl

theorem Plain.mapDecl {v : Value} (plain : v.Plain) : v.mapDecl φ = v := by
  cases v with
  | function f => exact absurd rfl (plain f)
  | _ => rfl

theorem equal_mapDecl (v w : Value) : (v.mapDecl φ).equal (w.mapDecl φ) = v.equal w := by
  cases v <;> cases w <;> try rfl
  rename_i f h
  cases f <;> cases h <;> rfl

theorem unary_mapDecl (op : Kind) (v : Value) : (v.mapDecl φ).unary op = v.unary op := by
  cases v with
  | function f => cases op <;> rfl
  | _ => rfl

theorem add_mapDecl (v w : Value) : (v.mapDecl φ).add (w.mapDecl φ) = v.add w := by
  cases v <;> cases w <;> rfl

theorem binary_mapDecl (op : Kind) (v w : Value) :
    (v.mapDecl φ).binary op (w.mapDecl φ) = v.binary op w := by
  unfold binary
  rw [add_mapDecl, equal_mapDecl]
  split
  · rfl
  · rfl
  · rfl
  · cases v <;> cases w <;> rfl

end Value

namespace Store

theorem getElem?_mapDecl (s : Store) (e : ScopeId) :
    (s.mapDecl φ).scopes[e]? = s.scopes[e]?.map (Scope.mapDecl φ) := Array.getElem?_map ..

theorem find?_mapDecl (s : Store) (e : ScopeId) (x : String) :
    (s.mapDecl φ).find? e x = (s.find? e x).map fun found => (found.1, found.2.mapDecl φ) := by
  induction e using Nat.strongRecOn with
  | ind e ih =>
    have unfolded := find?.eq_def s e x
    have unfolded' := find?.eq_def (s.mapDecl φ) e x
    rw [getElem?_mapDecl] at unfolded'
    rw [unfolded, unfolded']
    cases s.scopes[e]? with
    | none => rfl
    | some c =>
      have here : (c.mapDecl φ).get? x = (c.get? x).map (Value.mapDecl φ) :=
        lookup_map (Value.mapDecl φ) c.bindings x
      simp only [Option.map_some, here]
      have up : (c.mapDecl φ).parent = c.parent := rfl
      cases c.get? x with
      | some v => rfl
      | none =>
        simp only [Option.map_none, up]
        cases c.parent with
        | none => rfl
        | some p =>
          dsimp only
          split
          · next older => exact ih p older
          · rfl

theorem get?_mapDecl (s : Store) (e : ScopeId) (x : String) :
    (s.mapDecl φ).get? e x = (s.get? e x).map (Value.mapDecl φ) := by
  rw [get?, get?, find?_mapDecl]
  cases s.find? e x <;> rfl

theorem define_mapDecl (s : Store) (e : ScopeId) (x : String) (v : Value) :
    (s.mapDecl φ).define e x (v.mapDecl φ) = (s.define e x v).mapDecl φ := by
  simp only [define, Store.mapDecl, Store.mk.injEq, and_true]
  apply Array.ext_getElem?
  intro d
  simp only [Array.getElem?_modify, Array.getElem?_map]
  split
  · cases s.scopes[d]? with
    | none => rfl
    | some c =>
      have bindings := setBinding_map (Value.mapDecl φ) x v c.bindings
      exact congrArg some (congrArg (Scope.mk · c.parent) bindings)
  · rfl

theorem add_mapDecl (s : Store) (c : Scope) :
    (s.mapDecl φ).add (c.mapDecl φ) = ((s.add c).1, (s.add c).2.mapDecl φ) := by
  simp [add, Store.mapDecl]

theorem mapDecl_eq_self {s : Store}
    (still : ∀ (e : ScopeId) (c : Scope), s.scopes[e]? = some c → ∀ b ∈ c.bindings,
      b.2.mapDecl φ = b.2) : s.mapDecl φ = s := by
  have scopes : s.scopes.map (Scope.mapDecl φ) = s.scopes := by
    apply Array.ext_getElem?
    intro e
    rw [Array.getElem?_map]
    cases found : s.scopes[e]? with
    | none => rfl
    | some c =>
      have each : ∀ b ∈ c.bindings, (b.1, b.2.mapDecl φ) = b := by
        intro b member
        rw [still e c found b member]
      rw [Option.map_some, Scope.mapDecl, List.map_congr_left each, List.map_id']
  rw [Store.mapDecl, scopes]

end Store

theorem Value.mapDecl_mapDecl {ψ : FunDecl → FunDecl} (v : Value) :
    (v.mapDecl φ).mapDecl ψ = v.mapDecl (ψ ∘ φ) := by
  cases v with
  | function f => cases f <;> rfl
  | _ => rfl

theorem Machine.mapDecl_mapDecl {ψ : FunDecl → FunDecl} (m : Machine) :
    (m.mapDecl φ).mapDecl ψ = m.mapDecl (ψ ∘ φ) := by
  have scope : Scope.mapDecl ψ ∘ Scope.mapDecl φ = Scope.mapDecl (ψ ∘ φ) := by
    funext c
    simp only [Function.comp_apply, Scope.mapDecl, List.map_map]
    congr 2
    funext b
    exact congrArg (b.1, ·) b.2.mapDecl_mapDecl
  simp only [Machine.mapDecl, Store.mapDecl, Array.map_map, scope]

theorem Machine.mapDecl_id (m : Machine) : m.mapDecl id = m := by
  have store : m.store.mapDecl id = m.store := by
    apply Store.mapDecl_eq_self
    rintro e c found ⟨x, v⟩ member
    cases v with
    | function f => cases f <;> rfl
    | _ => rfl
  rw [Machine.mapDecl, store]

/-- What stands for the parts of a program. Tokens keep their kind and text, and the parts of a
whole are recast in their places; only a group may be recast as what it encloses. -/
structure Recasting where
  token : Token → Token
  expr : Expr → Expr
  stmt : Stmt → Stmt
  fault : Fault → Fault
  token_kind : ∀ t, (token t).kind = t.kind
  token_lexeme : ∀ t, (token t).lexeme = t.lexeme
  fault_atToken : ∀ t cause, fault (.atToken t cause) = .atToken (token t) cause
  expr_constant : ∀ c, expr (.constant c) = .constant c
  expr_group : ∀ e call, (expr (.group e)).eval call = (expr e).eval call
  expr_unary : ∀ op e, expr (.unary op e) = .unary (token op) (expr e)
  expr_binary : ∀ a op b, expr (.binary a op b) = .binary (expr a) (token op) (expr b)
  expr_logical : ∀ a op b, expr (.logical a op b) = .logical (expr a) (token op) (expr b)
  expr_var : ∀ name, expr (.var name) = .var (token name)
  expr_assign : ∀ name e, expr (.assign name e) = .assign (token name) (expr e)
  expr_call : ∀ f paren es, expr (.call f paren es) = .call (expr f) (token paren) (es.map expr)
  stmt_expression : ∀ e, stmt (.expression e) = .expression (expr e)
  stmt_print : ∀ keyword e, stmt (.print keyword e) = .print (token keyword) (expr e)
  stmt_varDecl : ∀ name e, stmt (.varDecl name e) = .varDecl (token name) (e.map expr)
  stmt_block : ∀ ss, stmt (.block ss) = .block (ss.map stmt)
  stmt_ifElse : ∀ c s r, stmt (.ifElse c s r) = .ifElse (expr c) (stmt s) (r.map stmt)
  stmt_whileLoop : ∀ c s, stmt (.whileLoop c s) = .whileLoop (expr c) (stmt s)
  stmt_funDecl : ∀ name params ss,
    stmt (.funDecl name params ss) = .funDecl (token name) (params.map token) (ss.map stmt)
  stmt_ret : ∀ keyword e, stmt (.ret keyword e) = .ret (token keyword) (e.map expr)

namespace Recasting

variable {r : Recasting}

def decl (r : Recasting) (f : FunDecl) : FunDecl :=
  { name := r.token f.name, params := f.params.map r.token, body := f.body.map r.stmt }

def halt (r : Recasting) : Halt → Halt
  | .fault f => .fault (r.fault f)
  | .exhausted => .exhausted

def result (r : Recasting) (f : α → β) :
    EStateM.Result Halt Machine α → EStateM.Result Halt Machine β
  | .ok a m => .ok (f a) (m.mapDecl r.decl)
  | .error h m => .error (r.halt h) (m.mapDecl r.decl)

/-- `y` does on recast machines what `x` does, where `f` recasts the value of `x`. -/
def Follows (r : Recasting) (f : α → β) (x : Eval α) (y : Eval β) : Prop :=
  ∀ m, y (m.mapDecl r.decl) = r.result f (x m)

theorem text_value (v : Value) : (v.mapDecl r.decl).text = v.text := by
  cases v with
  | function f =>
    cases f with
    | native id n => rfl
    | closure id decl scope =>
      have name := r.token_lexeme decl.name
      simp only [Value.mapDecl, Function.mapDecl, Value.text, Function.text, Recasting.decl, name]
  | _ => rfl

theorem arity_function (f : Function) : (f.mapDecl r.decl).arity = f.arity := by
  cases f with
  | native id n => rfl
  | closure id decl scope => exact List.length_map ..

theorem bind_decl (f : FunDecl) (args : List Value) :
    (r.decl f).bind (args.map (Value.mapDecl r.decl)) =
      (f.bind args).map fun b => (b.1, b.2.mapDecl r.decl) := by
  have along (ps : List Token) (vs : List Value) (bs : List (String × Value)) :
      ((ps.map r.token).zip (vs.map (Value.mapDecl r.decl))).foldl
          (fun bindings arg => setBinding arg.1.lexeme arg.2 bindings)
          (bs.map fun b => (b.1, b.2.mapDecl r.decl)) =
        ((ps.zip vs).foldl (fun bindings arg => setBinding arg.1.lexeme arg.2 bindings) bs).map
          fun b => (b.1, b.2.mapDecl r.decl) := by
    induction ps generalizing vs bs with
    | nil => rfl
    | cons p ps ih =>
      cases vs with
      | nil => rfl
      | cons v vs =>
        simp only [List.map_cons, List.zip_cons_cons, List.foldl_cons]
        rw [← ih, ← setBinding_map, r.token_lexeme]
  exact along f.params args []

namespace Follows

variable {f : α → β} {h : γ → δ} {x : Eval α} {y : Eval β}

theorem pure (a : α) : r.Follows f (pure a) (pure (f a)) := fun _ => rfl

theorem exhausted : r.Follows f (throw .exhausted) (throw .exhausted) := fun _ => rfl

theorem fault (t : Token) (cause : Cause) :
    r.Follows f (Eval.fault t cause) (Eval.fault (r.token t) cause) := by
  intro m
  have place := r.fault_atToken t cause
  exact congrArg (fun f => EStateM.Result.error (Halt.fault f) (m.mapDecl r.decl)) place.symm

theorem bind {k : α → Eval γ} {l : β → Eval δ} (first : r.Follows f x y)
    (next : ∀ a, r.Follows h (k a) (l (f a))) : r.Follows h (x >>= k) (y >>= l) := by
  intro m
  change EStateM.bind y l (m.mapDecl r.decl) = r.result h (EStateM.bind x k m)
  simp only [EStateM.bind, first m]
  cases x m with
  | ok a n => exact next a n
  | error halt n => rfl

theorem map {p : α → γ} {q : β → δ} (same : r.Follows f x y) (values : ∀ a, q (f a) = h (p a)) :
    r.Follows h (p <$> x) (q <$> y) := by
  rw [map_eq_pure_bind, map_eq_pure_bind]
  apply same.bind
  intro a m
  rw [values]
  rfl

theorem pin (t : Token) {v : Except Cause Value} (plain : ∀ u, v = .ok u → u.Plain) :
    r.Follows (Value.mapDecl r.decl) (Eval.pin t v) (Eval.pin (r.token t) v) := by
  cases v with
  | error cause => exact fault t cause
  | ok v =>
    intro m
    change EStateM.Result.ok v _ = .ok (v.mapDecl r.decl) _
    rw [(plain v rfl).mapDecl]

theorem lookup (name : Token) :
    r.Follows (Value.mapDecl r.decl) (Eval.lookup name) (Eval.lookup (r.token name)) := by
  intro m
  have found : (m.mapDecl r.decl).store.get? (m.mapDecl r.decl).current name.lexeme =
      (m.store.get? m.current name.lexeme).map (Value.mapDecl r.decl) :=
    Store.get?_mapDecl m.store m.current name.lexeme
  have faults := fault (r := r) (f := Value.mapDecl r.decl) name (.undefinedVariable name.lexeme) m
  rw [Eval.lookup_apply, Eval.lookup_apply, r.token_lexeme, found]
  cases m.store.get? m.current name.lexeme with
  | none => exact faults
  | some v => rfl

theorem assign (name : Token) (v : Value) :
    r.Follows id (Eval.assign name v) (Eval.assign (r.token name) (v.mapDecl r.decl)) := by
  intro m
  have found : (m.mapDecl r.decl).store.find? (m.mapDecl r.decl).current name.lexeme =
      (m.store.find? m.current name.lexeme).map fun found => (found.1, found.2.mapDecl r.decl) :=
    Store.find?_mapDecl m.store m.current name.lexeme
  have faults :=
    fault (r := r) (f := (id : Unit → Unit)) name (.undefinedVariable name.lexeme) m
  simp only [Eval.assign, r.token_lexeme, found]
  cases m.store.find? m.current name.lexeme with
  | none => exact faults
  | some found =>
    have defined := Store.define_mapDecl (φ := r.decl) m.store found.1 name.lexeme v
    exact congrArg (fun store => EStateM.Result.ok () { m with store }) defined

theorem define (name : Token) (v : Value) :
    r.Follows id (Eval.define name v) (Eval.define (r.token name) (v.mapDecl r.decl)) := by
  intro m
  have defined := Store.define_mapDecl (φ := r.decl) m.store m.current name.lexeme v
  simp only [Eval.define, r.token_lexeme]
  exact congrArg (fun store => EStateM.Result.ok () { m with store }) defined

theorem closure (decl : FunDecl) :
    r.Follows (Value.mapDecl r.decl) (Eval.closure decl) (Eval.closure (r.decl decl)) :=
  fun _ => rfl

theorem readClock : r.Follows id Eval.readClock Eval.readClock := fun _ => rfl

theorem print (keyword : Token) (v : Value) :
    r.Follows id (Eval.print keyword v) (Eval.print (r.token keyword) (v.mapDecl r.decl)) := by
  intro m
  have sink : (m.mapDecl r.decl).sink = m.sink := rfl
  simp only [Eval.print, text_value, sink]
  obtain ⟨refusal, sink⟩ := m.sink.write (v.text ++ "\n").toUTF8
  cases refusal with
  | none => rfl
  | some refusal => exact fault keyword (.output refusal.message) { m with sink }

theorem inside (parent : ScopeId) (bs : List (String × Value)) (same : r.Follows f x y) :
    r.Follows f (Eval.inside parent bs x)
      (Eval.inside parent (bs.map fun b => (b.1, b.2.mapDecl r.decl)) y) := by
  intro m
  have entered : (m.mapDecl r.decl).enter parent (bs.map fun b => (b.1, b.2.mapDecl r.decl)) =
      (m.enter parent bs).mapDecl r.decl := by
    have added := Store.add_mapDecl (φ := r.decl) m.store ⟨bs, some parent⟩
    have size : (m.store.mapDecl r.decl).scopes.size = m.store.scopes.size := Array.size_map ..
    change Machine.mk ((m.store.mapDecl r.decl).add (Scope.mapDecl r.decl ⟨bs, some parent⟩)).2
      m.globals (m.store.mapDecl r.decl).scopes.size m.sink m.clock = _
    rw [added, size]
    rfl
  rw [Eval.inside_apply, Eval.inside_apply, entered, same]
  cases x (m.enter parent bs) <;> rfl

theorem nested (same : r.Follows f x y) : r.Follows f (Eval.nested x) (Eval.nested y) :=
  fun m => same.inside m.current [] m

theorem repeatWhile {condition condition' : Eval Bool} {body body' : Eval Flow}
    (test : r.Follows id condition condition') (turn : r.Follows (Flow.mapDecl r.decl) body body')
    (turns : Nat) :
    r.Follows (Flow.mapDecl r.decl) (repeatWhile condition body turns)
      (Treewalk.repeatWhile condition' body' turns) := by
  induction turns with
  | zero => exact fun _ => rfl
  | succ turns ih =>
    rw [repeatWhile_succ, repeatWhile_succ]
    apply test.bind
    intro go
    cases go with
    | false => exact fun _ => rfl
    | true =>
      apply turn.bind
      intro flow
      cases flow with
      | next => exact ih
      | returned v => exact fun _ => rfl

end Follows

def CallsFollow (r : Recasting) (call : Caller) : Prop :=
  ∀ f args, r.Follows (Value.mapDecl r.decl) (call f args)
    (call (f.mapDecl r.decl) (args.map (Value.mapDecl r.decl)))

variable {call : Caller}

theorem invoke_follows (calls : r.CallsFollow call) (paren : Token) (callee : Value)
    (args : List Value) :
    r.Follows (Value.mapDecl r.decl) (invoke call paren callee args)
      (invoke call (r.token paren) (callee.mapDecl r.decl) (args.map (Value.mapDecl r.decl))) := by
  cases callee with
  | function f =>
    simp only [invoke, Value.mapDecl, List.length_map, arity_function]
    split
    · exact calls f args
    · exact .fault paren _
  | _ => exact .fault paren .notCallable

mutual

theorem eval_follows (calls : r.CallsFollow call) (e : Expr) :
    r.Follows (Value.mapDecl r.decl) (e.eval call) ((r.expr e).eval call) := by
  cases e with
  | constant c =>
    rw [r.expr_constant, Expr.eval]
    intro m
    change EStateM.Result.ok c.value _ = .ok (c.value.mapDecl r.decl) _
    rw [(Value.plain_constant c).mapDecl]
  | group e =>
    rw [r.expr_group, Expr.eval]
    exact eval_follows calls e
  | var name =>
    rw [r.expr_var, Expr.eval, Expr.eval]
    exact .lookup name
  | assign name e =>
    rw [r.expr_assign, Expr.eval, Expr.eval]
    apply (eval_follows calls e).bind
    intro v
    apply (Follows.assign name v).bind
    exact fun _ => .pure v
  | logical left op right =>
    rw [r.expr_logical, Expr.eval, Expr.eval]
    apply (eval_follows calls left).bind
    intro v
    have same : (r.token op).is .kwOr = op.is .kwOr := by rw [Token.is, Token.is, r.token_kind]
    rw [same, Value.truthy_mapDecl]
    split
    · exact .pure v
    · exact eval_follows calls right
  | unary op e =>
    rw [r.expr_unary, Expr.eval, Expr.eval]
    apply (eval_follows calls e).bind
    intro v
    rw [r.token_kind, Value.unary_mapDecl]
    exact .pin op fun u result => Value.unary_plain result
  | binary left op right =>
    rw [r.expr_binary, Expr.eval, Expr.eval]
    apply (eval_follows calls left).bind
    intro v
    apply (eval_follows calls right).bind
    intro w
    rw [r.token_kind, Value.binary_mapDecl]
    exact .pin op fun u result => Value.binary_plain result
  | call callee paren args =>
    rw [r.expr_call, Expr.eval, Expr.eval]
    apply (eval_follows calls callee).bind
    intro f
    apply (evalAll_follows calls args).bind
    exact fun vs => invoke_follows calls paren f vs

theorem evalAll_follows (calls : r.CallsFollow call) (es : List Expr) :
    r.Follows (List.map (Value.mapDecl r.decl)) (Expr.evalAll call es)
      (Expr.evalAll call (es.map r.expr)) := by
  cases es with
  | nil => exact .pure []
  | cons e es =>
    rw [List.map_cons, Expr.evalAll, Expr.evalAll]
    apply (eval_follows calls e).bind
    intro v
    apply (evalAll_follows calls es).bind
    exact fun vs => .pure (v :: vs)

end

mutual

theorem exec_follows (calls : r.CallsFollow call) (turns : Nat) (s : Stmt) :
    r.Follows (Flow.mapDecl r.decl) (s.exec call turns) ((r.stmt s).exec call turns) := by
  cases s with
  | expression e =>
    rw [r.stmt_expression, Stmt.exec, Stmt.exec]
    apply (eval_follows calls e).bind
    exact fun _ => .pure Flow.next
  | print keyword e =>
    rw [r.stmt_print, Stmt.exec, Stmt.exec]
    apply (eval_follows calls e).bind
    intro v
    apply (Follows.print keyword v).bind
    exact fun _ => .pure Flow.next
  | varDecl name initial =>
    rw [r.stmt_varDecl]
    cases initial with
    | none =>
      rw [Option.map_none, Stmt.exec, Stmt.exec]
      apply (Follows.define name .nil).bind
      exact fun _ => .pure Flow.next
    | some e =>
      rw [Option.map_some, Stmt.exec, Stmt.exec]
      apply (eval_follows calls e).bind
      intro v
      apply (Follows.define name v).bind
      exact fun _ => .pure Flow.next
  | block body =>
    rw [r.stmt_block, Stmt.exec, Stmt.exec]
    exact (execAll_follows calls turns body).nested
  | ifElse condition thenBranch elseBranch =>
    rw [r.stmt_ifElse]
    cases elseBranch with
    | none =>
      rw [Option.map_none, Stmt.exec, Stmt.exec]
      apply (eval_follows calls condition).bind
      intro v
      rw [Value.truthy_mapDecl]
      split
      · exact exec_follows calls turns thenBranch
      · exact .pure Flow.next
    | some elseBranch =>
      rw [Option.map_some, Stmt.exec, Stmt.exec]
      apply (eval_follows calls condition).bind
      intro v
      rw [Value.truthy_mapDecl]
      split
      · exact exec_follows calls turns thenBranch
      · exact exec_follows calls turns elseBranch
  | whileLoop condition body =>
    rw [r.stmt_whileLoop, Stmt.exec, Stmt.exec]
    have test : r.Follows id (Value.truthy <$> condition.eval call)
        (Value.truthy <$> (r.expr condition).eval call) :=
      (eval_follows calls condition).map Value.truthy_mapDecl
    exact test.repeatWhile (exec_follows calls turns body) turns
  | funDecl name params body =>
    rw [r.stmt_funDecl, Stmt.exec, Stmt.exec]
    apply (Follows.closure ⟨name, params, body⟩).bind
    intro v
    apply (Follows.define name v).bind
    exact fun _ => .pure Flow.next
  | ret keyword value =>
    rw [r.stmt_ret]
    cases value with
    | none =>
      rw [Option.map_none, Stmt.exec, Stmt.exec]
      exact .pure (Flow.returned Value.nil)
    | some e =>
      rw [Option.map_some, Stmt.exec, Stmt.exec]
      apply (eval_follows calls e).bind
      exact fun v => .pure (Flow.returned v)

theorem execAll_follows (calls : r.CallsFollow call) (turns : Nat) (ss : List Stmt) :
    r.Follows (Flow.mapDecl r.decl) (Stmt.execAll call turns ss)
      (Stmt.execAll call turns (ss.map r.stmt)) := by
  cases ss with
  | nil => exact .pure Flow.next
  | cons s ss =>
    rw [List.map_cons, Stmt.execAll, Stmt.execAll]
    apply (exec_follows calls turns s).bind
    intro flow
    cases flow with
    | next => exact execAll_follows calls turns ss
    | returned v => exact .pure (Flow.returned v)

end

theorem native_follows (n : Native) : r.Follows (Value.mapDecl r.decl) n.run n.run := by
  unfold Native.run
  cases n.action with
  | clock => exact Follows.readClock.map fun _ => rfl
  | nothing => exact .pure Value.nil

theorem apply_follows (r : Recasting) (fuel : Nat) : r.CallsFollow (Function.apply fuel) := by
  induction fuel with
  | zero =>
    intro f args
    cases f with
    | native id n =>
      simp only [Function.mapDecl, Function.apply]
      exact native_follows n
    | closure id decl scope => exact .exhausted
  | succ fuel ih =>
    intro f args
    cases f with
    | native id n =>
      simp only [Function.mapDecl, Function.apply]
      exact native_follows n
    | closure id decl scope =>
      have body := (execAll_follows ih fuel decl.body).inside scope (decl.bind args)
      rw [← bind_decl] at body
      apply body.map
      intro flow
      cases flow <;> rfl

theorem interpret_follows (r : Recasting) (fuel : Nat) (ss : List Stmt) :
    r.Follows id (interpret fuel ss) (interpret fuel (ss.map r.stmt)) := by
  induction ss with
  | nil => exact .pure ()
  | cons s ss ih =>
    apply (exec_follows (r.apply_follows fuel) fuel s).bind
    exact fun _ => ih

end Recasting

end Treewalk
