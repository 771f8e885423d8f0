import Mathlib.Logic.Relation
import Treewalk.Proofs.Moments
import Treewalk.Proofs.Scopes

namespace Treewalk

theorem lookup_pair (x y : String) (v : Value) (bs : List (String × Value)) :
    ((x, v) :: bs).lookup y = if y = x then some v else bs.lookup y := by
  rw [List.lookup_cons]
  cases same : y == x with
  | true => rw [if_pos (eq_of_beq same)]
  | false => rw [if_neg (ne_of_beq_false same)]

theorem lookup_setBinding (x y : String) (v : Value) (bs : List (String × Value)) :
    (setBinding x v bs).lookup y = if y = x then some v else bs.lookup y := by
  induction bs with
  | nil => rw [setBinding, lookup_pair]
  | cons b bs ih =>
    obtain ⟨z, u⟩ := b
    rw [setBinding]
    split
    · next here =>
      rw [lookup_pair, lookup_pair, here]
      split <;> rfl
    · next other =>
      rw [lookup_pair, lookup_pair, ih]
      by_cases same : y = x
      · rw [if_pos same, if_pos same, if_neg (same ▸ Ne.symm other)]
      · rw [if_neg same, if_neg same]

namespace Store

variable {s : Store} {e h : ScopeId} {x : String} {u v : Value}

theorem get?_define_self (bound : e < s.scopes.size) : (s.define e x v).get? e x = some v := by
  have found : (s.define e x v).scopes[e]? = some (s.scopes[e].set x v) := by
    rw [getElem?_define, if_pos rfl, Array.getElem?_eq_getElem bound, Option.map_some]
  have here : (s.scopes[e].set x v).get? x = some v := by
    rw [Scope.get?, Scope.set, lookup_setBinding, if_pos rfl]
  rw [get?, find?_of_getElem found, here, Option.map_some]

theorem find?_define_holder (result : s.find? e x = some (h, u)) :
    (s.define h x v).find? e x = some (h, v) := by
  induction e using Nat.strongRecOn with
  | ind e ih =>
    cases found : s.scopes[e]? with
    | none =>
      rw [find?, found] at result
      cases result
    | some c =>
      have found' := getElem?_define s h x v e
      rw [found] at found'
      rw [find?_of_getElem found] at result
      cases here : c.get? x with
      | some w =>
        rw [here] at result
        cases result
        rw [if_pos rfl, Option.map_some] at found'
        rw [find?_of_getElem found', Scope.get?, Scope.set, lookup_setBinding, if_pos rfl]
      | none =>
        rw [here] at result
        cases up : c.parent with
        | none =>
          rw [up] at result
          cases result
        | some p =>
          simp only [up] at result
          split at result
          · -- The holder is further out: the scope here is as it was.
            have apart : h ≠ e := by
              rintro rfl
              obtain ⟨d, found'', member⟩ := find?_mem result
              cases found.symm.trans found''
              have absent := List.lookup_eq_none_iff.mp here _ member
              simp at absent
            rw [if_neg apart] at found'
            rw [find?_of_getElem found', here]
            simp only [up, if_pos ‹p < e›]
            exact ih p ‹_› result
          · cases result

theorem get?_enter {m : Machine} {p : ScopeId} {bs : List (String × Value)}
    (bound : bs.lookup x = some v) :
    (m.enter p bs).store.get? (m.enter p bs).current x = some v := by
  have found : (m.enter p bs).store.scopes[(m.enter p bs).current]? = some ⟨bs, some p⟩ := by
    rw [Machine.enter, getElem?_add, if_pos rfl]
  have here : Scope.get? ⟨bs, some p⟩ x = some v := bound
  rw [get?, find?_of_getElem found, here, Option.map_some]

end Store

/-- A parameter that no later one hides stands for its argument. -/
theorem FunDecl.lookup_bind {decl : FunDecl} {ps ps' : List Token} {p : Token}
    {vs vs' : List Value} {v : Value} (params : decl.params = ps ++ p :: ps')
    (place : ps.length = vs.length) (last : ∀ p' ∈ ps', p'.lexeme ≠ p.lexeme) :
    (decl.bind (vs ++ v :: vs')).lookup p.lexeme = some v := by
  have others (pairs : List (Token × Value)) (bs : List (String × Value))
      (other : ∀ pair ∈ pairs, pair.1.lexeme ≠ p.lexeme) :
      (pairs.foldl (fun bindings pair => setBinding pair.1.lexeme pair.2 bindings) bs).lookup
        p.lexeme = bs.lookup p.lexeme := by
    induction pairs generalizing bs with
    | nil => rfl
    | cons pair pairs ih =>
      rw [List.foldl_cons, ih _ fun pair' later => other pair' (List.mem_cons_of_mem _ later),
        lookup_setBinding, if_neg (Ne.symm (other pair List.mem_cons_self))]
  have pairs : decl.params.zip (vs ++ v :: vs') = ps.zip vs ++ (p, v) :: ps'.zip vs' := by
    rw [params, List.zip_append place, List.zip_cons_cons]
  have later : ∀ pair ∈ ps'.zip vs', pair.1.lexeme ≠ p.lexeme :=
    fun pair member => last pair.1 (List.of_mem_zip member).1
  unfold FunDecl.bind
  rw [pairs, List.foldl_append, List.foldl_cons]
  refine (others _ _ later).trans ?_
  rw [lookup_setBinding, if_pos rfl]

def Machine.Reads (m : Machine) (name : Token) (v : Value) : Prop :=
  ∀ call, (Expr.var name).eval call m = .ok v m

theorem Machine.reads_of_get? {m : Machine} {name : Token} {v : Value}
    (bound : m.store.get? m.current name.lexeme = some v) : m.Reads name v := by
  intro call
  rw [Expr.eval, Eval.lookup_apply, bound]

section Binding

variable {call : Caller} {name : Token} {e : Expr} {u v : Value} {m n : Machine} {h : ScopeId}

theorem exec_varDecl_reads {turns : Nat} (bound : n.current < n.store.scopes.size)
    (value : e.eval call m = .ok v n) :
    ∃ n', (Stmt.varDecl name (some e)).exec call turns m = .ok .next n' ∧ n'.Reads name v := by
  refine ⟨{ n with store := n.store.define n.current name.lexeme v }, ?_, ?_⟩
  · rw [Stmt.exec, Eval.bind_ok value]
    rfl
  · exact Machine.reads_of_get? (Store.get?_define_self bound)

theorem eval_assign (value : e.eval call m = .ok v n)
    (holder : n.store.find? n.current name.lexeme = some (h, u)) :
    (Expr.assign name e).eval call m =
      .ok v { n with store := n.store.define h name.lexeme v } := by
  have assigned :
      Eval.assign name v n = .ok () { n with store := n.store.define h name.lexeme v } := by
    rw [Eval.assign, holder]
  rw [Expr.eval, Eval.bind_ok value, Eval.bind_ok assigned]
  rfl

theorem reads_assigned (result : (Expr.assign name e).eval call m = .ok v n) :
    n.Reads name v := by
  cases value : e.eval call m with
  | error k o =>
    rw [Expr.eval, Eval.bind_error value] at result
    cases result
  | ok w o =>
    cases holder : o.store.find? o.current name.lexeme with
    | none =>
      have faulted : Eval.assign name w o =
          Eval.fault name (.undefinedVariable name.lexeme) o := by
        rw [Eval.assign, holder]
      rw [Expr.eval, Eval.bind_ok value, Eval.bind_error faulted] at result
      cases result
    | some found =>
      rw [eval_assign value holder] at result
      cases result
      refine Machine.reads_of_get? ?_
      change (o.store.define found.1 name.lexeme v).get? o.current name.lexeme = some v
      rw [Store.get?, Store.find?_define_holder holder, Option.map_some]

end Binding

def Moment.Gives (q : Moment) (v : Value) (n : Machine) : Prop :=
  q.task.run q.fuel q.machine = .ok [v] n

/-- What the task of the second moment gives is handed up by the task of the first, as a value or as
what the function around it returns. -/
inductive Moment.HandsUp : Moment → Moment → Prop
  | group {k d m e} : HandsUp ⟨k, d, .code (.expr (.group e)), m⟩ ⟨k, d, .code (.expr e), m⟩
  | assigned {k d m name e v n h u} : e.eval (Function.apply k) m = .ok v n →
    n.store.find? n.current name.lexeme = some (h, u) →
    HandsUp ⟨k, d, .code (.expr (.assign name e)), m⟩ ⟨k, d, .code (.expr e), m⟩
  | first {k d m a op b} : op.is .kwOr = true →
    HandsUp ⟨k, d, .code (.expr (.logical a op b)), m⟩ ⟨k, d, .code (.expr a), m⟩
  | second {k d m a op b v n} : a.eval (Function.apply k) m = .ok v n →
    (op.is .kwOr == v.truthy) = false →
    HandsUp ⟨k, d, .code (.expr (.logical a op b)), m⟩ ⟨k, d, .code (.expr b), n⟩
  | call {k d m f paren es g vs n o} : f.eval (Function.apply k) m = .ok (.function g) n →
    Expr.evalAll (Function.apply k) es n = .ok vs o → vs.length = g.arity →
    HandsUp ⟨k, d, .code (.expr (.call f paren es)), m⟩ ⟨k, d, .call g vs, o⟩
  | body {k d m id decl scope args} :
    HandsUp ⟨k + 1, d, .call (.closure id decl scope) args, m⟩ (ofCall k decl scope args m)
  | firstStmt {k d m s ss} :
    HandsUp ⟨k, d, .code (.stmts (s :: ss)), m⟩ ⟨k, d, .code (.stmt s), m⟩
  | restStmts {k d m s ss n} : s.exec (Function.apply k) k m = .ok .next n →
    HandsUp ⟨k, d, .code (.stmts (s :: ss)), m⟩ ⟨k, d, .code (.stmts ss), n⟩
  | block {k d m ss} : HandsUp ⟨k, d, .code (.stmt (.block ss)), m⟩
      ⟨k, d + 1, .code (.stmts ss), m.enter m.current []⟩
  | thenBranch {k d m c s r v n} : c.eval (Function.apply k) m = .ok v n → v.truthy = true →
    HandsUp ⟨k, d, .code (.stmt (.ifElse c s r)), m⟩ ⟨k, d, .code (.stmt s), n⟩
  | elseBranch {k d m c s r v n} : c.eval (Function.apply k) m = .ok v n → v.truthy = false →
    HandsUp ⟨k, d, .code (.stmt (.ifElse c s (some r))), m⟩ ⟨k, d, .code (.stmt r), n⟩
  | loop {k d m c s} : HandsUp ⟨k, d, .code (.stmt (.whileLoop c s)), m⟩ ⟨k, d, .loop c s k, m⟩
  | turn {k d m c s turns v n} : c.eval (Function.apply k) m = .ok v n → v.truthy = true →
    HandsUp ⟨k, d, .loop c s (turns + 1), m⟩ ⟨k, d, .code (.stmt s), n⟩
  | again {k d m c s turns v n o} : c.eval (Function.apply k) m = .ok v n → v.truthy = true →
    s.exec (Function.apply k) k n = .ok .next o →
    HandsUp ⟨k, d, .loop c s (turns + 1), m⟩ ⟨k, d, .loop c s turns, o⟩
  | returned {k d m keyword e} :
    HandsUp ⟨k, d, .code (.stmt (.ret keyword (some e))), m⟩ ⟨k, d, .code (.expr e), m⟩

section Giving

variable {k d turns : Nat} {m n : Machine} {v : Value} {f : Function}

theorem value_given {x : Eval Value} : ((fun v => [v]) <$> x) m = .ok [v] n ↔ x m = .ok v n := by
  refine ⟨fun given => ?_, Eval.map_ok _⟩
  obtain ⟨u, result, same⟩ := Eval.map_eq_ok given
  rw [result, List.singleton_inj.mp same]

theorem function_given {x : Eval Flow} :
    ((fun flow => [flow.result]) <$> x) m = .ok [.function f] n ↔
      x m = .ok (.returned (.function f)) n := by
  refine ⟨fun given => ?_, Eval.map_ok _⟩
  obtain ⟨flow, result, same⟩ := Eval.map_eq_ok given
  cases flow with
  | next => cases same
  | returned u =>
    cases same
    exact result

namespace Moment

theorem gives_expr {e : Expr} :
    Gives ⟨k, d, .code (.expr e), m⟩ v n ↔ e.eval (Function.apply k) m = .ok v n := value_given

theorem gives_call {g : Function} {args : List Value} :
    Gives ⟨k, d, .call g args, m⟩ v n ↔ g.apply k args m = .ok v n := value_given

theorem gives_stmt {s : Stmt} :
    Gives ⟨k, d, .code (.stmt s), m⟩ (.function f) n ↔
      s.exec (Function.apply k) k m = .ok (.returned (.function f)) n := function_given

theorem gives_stmts {ss : List Stmt} :
    Gives ⟨k, d, .code (.stmts ss), m⟩ (.function f) n ↔
      Stmt.execAll (Function.apply k) k ss m = .ok (.returned (.function f)) n := function_given

theorem gives_loop {c : Expr} {s : Stmt} :
    Gives ⟨k, d, .loop c s turns, m⟩ (.function f) n ↔
      repeatWhile (Value.truthy <$> c.eval (Function.apply k)) (s.exec (Function.apply k) k) turns
        m = .ok (.returned (.function f)) n := function_given

end Moment

end Giving

theorem Moment.HandsUp.gives {q q' : Moment} {f : Function} {n : Machine} (step : q.HandsUp q')
    (given : q'.Gives (.function f) n) : ∃ n', q.Gives (.function f) n' := by
  cases step with
  | group =>
    refine ⟨n, gives_expr.mpr ?_⟩
    rw [Expr.eval]
    exact gives_expr.mp given
  | assigned value holder =>
    obtain ⟨⟩ := value.symm.trans (gives_expr.mp given)
    exact ⟨_, gives_expr.mpr (eval_assign value holder)⟩
  | first disjunction =>
    refine ⟨n, gives_expr.mpr ?_⟩
    rw [Expr.eval, Eval.bind_ok (gives_expr.mp given), disjunction]
    rfl
  | second value goes =>
    refine ⟨n, gives_expr.mpr ?_⟩
    rw [Expr.eval, Eval.bind_ok value, goes]
    exact gives_expr.mp given
  | call callee args arity =>
    refine ⟨n, gives_expr.mpr ?_⟩
    rw [Expr.eval, Eval.bind_ok callee, Eval.bind_ok args, invoke, if_pos arity]
    exact gives_call.mp given
  | @body _ _ m =>
    refine ⟨{ n with current := m.current }, gives_call.mpr ?_⟩
    rw [Function.apply]
    exact Eval.map_ok Flow.result (Eval.inside_ok (gives_stmts.mp given))
  | firstStmt =>
    refine ⟨n, gives_stmts.mpr ?_⟩
    rw [Stmt.execAll, Eval.bind_ok (gives_stmt.mp given)]
    rfl
  | restStmts goes =>
    refine ⟨n, gives_stmts.mpr ?_⟩
    rw [Stmt.execAll, Eval.bind_ok goes]
    exact gives_stmts.mp given
  | @block _ _ m =>
    refine ⟨{ n with current := m.current }, gives_stmt.mpr ?_⟩
    rw [Stmt.exec]
    exact Eval.inside_ok (gives_stmts.mp given)
  | @thenBranch _ _ _ _ _ r _ _ value goes =>
    refine ⟨n, gives_stmt.mpr ?_⟩
    cases r <;> rw [Stmt.exec, Eval.bind_ok value, if_pos goes] <;> exact gives_stmt.mp given
  | elseBranch value goes =>
    refine ⟨n, gives_stmt.mpr ?_⟩
    rw [Stmt.exec, Eval.bind_ok value, goes]
    exact gives_stmt.mp given
  | loop =>
    refine ⟨n, gives_stmt.mpr ?_⟩
    rw [Stmt.exec]
    exact gives_loop.mp given
  | turn value goes =>
    refine ⟨n, gives_loop.mpr ?_⟩
    rw [repeatWhile_succ, Eval.bind_ok (Eval.map_ok Value.truthy value), goes]
    exact Eval.bind_ok (gives_stmt.mp given)
  | again value goes turned =>
    refine ⟨n, gives_loop.mpr ?_⟩
    rw [repeatWhile_succ, Eval.bind_ok (Eval.map_ok Value.truthy value), goes]
    exact (Eval.bind_ok turned).trans (gives_loop.mp given)
  | returned =>
    refine ⟨n, gives_stmt.mpr ?_⟩
    rw [Stmt.exec, Eval.bind_ok (gives_expr.mp given)]
    rfl

theorem Moment.gives_of_handedUp {q q' : Moment} {f : Function} {n : Machine}
    (path : Relation.ReflTransGen HandsUp q q') (given : q'.Gives (.function f) n) :
    ∃ n', q.Gives (.function f) n' := by
  induction path using Relation.ReflTransGen.head_induction_on with
  | refl => exact ⟨n, given⟩
  | head step _ ih =>
    obtain ⟨n', given'⟩ := ih
    exact step.gives given'

end Treewalk
