import Treewalk.Proofs.Grammar
import Treewalk.Proofs.LexicalDepth
import Treewalk.Proofs.Simulation

namespace Treewalk

structure ForLoop where
  initial : Option Stmt
  condition : Option Expr
  increment : Option Expr
  body : Stmt

namespace ForLoop

def tree (f : ForLoop) : Stmt :=
  Parse.forLoop f.initial (f.condition.getD (.constant (.bool true))) f.increment f.body

def holds (call : Caller) (f : ForLoop) : Eval Bool :=
  match f.condition with
  | some e => Value.truthy <$> e.eval call
  | none => pure true

/-- The body and then, unless it returned, the increment, both in the scope of the loop. -/
def turn (call : Caller) (turns : Nat) (f : ForLoop) : Eval Flow := do
  match ← f.body.exec call turns with
  | .next =>
    match f.increment with
    | some e => do
      let _ ← e.eval call
      pure .next
    | none => pure .next
  | .returned v => pure (.returned v)

/-- The loop as it is written: the initial part runs once, in a scope for the whole loop. -/
def run (call : Caller) (turns : Nat) (f : ForLoop) : Eval Flow :=
  match f.initial with
  | none => repeatWhile (f.holds call) (f.turn call turns) turns
  | some s => .nested do
    match ← s.exec call turns with
    | .next => repeatWhile (f.holds call) (f.turn call turns) turns
    | .returned v => pure (.returned v)

end ForLoop

theorem Grammar.Forms.declares_nothing {rules : Rules} {inside dangling : Bool} {s : Stmt}
    {v : List Token} (forms : Forms rules (.statement inside dangling s) v) :
    s.declares = false := by
  generalize same : Clause.statement inside dangling s = clause at forms
  induction forms generalizing inside dangling s with
  | whileLoop _ _ _ _ _ ih =>
    cases same
    simpa only [Stmt.declares] using ih rfl
  | @forLoop _ _ _ _ _ _ _ _ _ _ initial condition increment s _ _ _ _ _ _ _ _ ih =>
    cases same
    have body : s.declares = false := ih rfl
    cases initial <;> cases increment <;> simp [Parse.forLoop, Stmt.declares, body]
  | ifThen _ _ _ _ _ ih =>
    cases same
    simpa only [Stmt.declares] using ih rfl
  | ifElse _ _ _ _ _ _ _ first second =>
    cases same
    simp only [Stmt.declares, first rfl, second rfl, Bool.or_self]
  | expression | print | ret | block =>
    cases same
    rfl
  | _ => cases same

theorem flow_bind_pure (x : Eval Flow) :
    (x >>= fun flow =>
      match flow with
      | .next => pure .next
      | .returned v => pure (.returned v)) = x := by
  have same : (fun flow : Flow =>
      match flow with
      | .next => (pure .next : Eval Flow)
      | .returned v => pure (.returned v)) = pure := by
    funext flow
    cases flow <;> rfl
  rw [same, bind_pure]

theorem execAll_single (call : Caller) (turns : Nat) (s : Stmt) :
    Stmt.execAll call turns [s] = s.exec call turns := by
  simp only [Stmt.execAll]
  exact flow_bind_pure _

namespace ForLoop

variable {w : World} {call : Caller} {f : ForLoop}

theorem holds_sim (calls : CallsMatch call) :
    Sim (fun _ a b => a = b) true w (f.holds call)
      (Value.truthy <$> (f.condition.getD (.constant (.bool true))).eval call) := by
  unfold holds
  cases f.condition with
  | some e => exact (eval_sim calls w true e).map fun _ _ _ value => value.truthy
  | none =>
    simp only [Option.getD_none, Expr.eval, map_pure]
    exact .pure rfl

theorem turn_sim (calls : CallsMatch call) (turns : Nat) (plain : f.body.declares = false) :
    Sim Flow.Matches true w (f.turn call turns)
      ((match f.increment with
        | some e => .block [f.body, .expression e]
        | none => f.body : Stmt).exec call turns) := by
  have body (w : World) (binds : Bool) : Sim Flow.Matches binds w _ _ :=
    exec_sim calls turns w binds f.body fun declares => by
      rw [plain] at declares
      cases declares
  unfold turn
  cases f.increment with
  | none =>
    have direct := flow_bind_pure (f.body.exec call turns)
    simp only [direct]
    exact body w true
  | some e =>
    simp only [Stmt.exec]
    refine .padded fun w₁ _ => ?_
    rw [Stmt.execAll]
    refine (body w₁ false).bind fun w₂ flow flow' _ matched => ?_
    cases matched with
    | next =>
      simp only [execAll_single, Stmt.exec]
      exact (eval_sim calls w₂ false e).bind fun _ _ _ _ _ => .pure .next
    | returned value => exact .pure (.returned value)

theorem run_sim (calls : CallsMatch call) (turns : Nat) (plain : f.body.declares = false) :
    Sim Flow.Matches true w (f.run call turns) (f.tree.exec call turns) := by
  have loop (w : World) : Sim Flow.Matches true w
      (repeatWhile (f.holds call) (f.turn call turns) turns)
      (Stmt.exec call turns (.whileLoop (f.condition.getD (.constant (.bool true)))
        (match f.increment with
        | some e => .block [f.body, .expression e]
        | none => f.body))) := by
    rw [Stmt.exec]
    exact .repeatWhile (fun _ _ => holds_sim calls) (fun _ _ => turn_sim calls turns plain) turns
  unfold run tree Parse.forLoop
  cases f.initial with
  | none => exact loop w
  | some s =>
    simp only [Stmt.exec]
    refine .nested fun w₁ _ => ?_
    rw [Stmt.execAll]
    refine (exec_sim calls turns w₁ true s fun _ => rfl).bind ?_
    intro w₂ flow flow' _ matched
    cases matched with
    | next =>
      simp only [execAll_single]
      exact loop w₂
    | returned value => exact .pure (.returned value)

end ForLoop

def Value.moved (place : ScopeId → ScopeId) : Value → Value
  | .function (.closure id decl scope) => .function (.closure id decl (place scope))
  | v => v

def Flow.moved (place : ScopeId → ScopeId) : Flow → Flow
  | .next => .next
  | .returned v => .returned (v.moved place)

/-- Going up from the first scope past empty ones leads to the second. -/
inductive Store.LeadsTo (s : Store) : ScopeId → ScopeId → Prop
  | here (e : ScopeId) : LeadsTo s e e
  | past {z p e : ScopeId} :
    s.scopes[z]? = some ⟨[], some p⟩ → p < z → LeadsTo s p e → LeadsTo s z e

/-- `m'` is `m` with more scopes, all of them empty: the scope `e` of `m` is `place e` in `m'`. -/
structure Machine.Padded (place : ScopeId → ScopeId) (m m' : Machine) : Prop where
  sink : m'.sink = m.sink
  clock : m'.clock = m.clock
  functions : m'.store.functions = m.store.functions
  globals : m'.globals = place m.globals
  current : m'.current = place m.current
  apart : ∀ d e, d < m.store.scopes.size → e < m.store.scopes.size → place d = place e → d = e
  scope : ∀ (e : ScopeId) (c : Scope), m.store.scopes[e]? = some c →
    ∃ c', m'.store.scopes[place e]? = some c' ∧
    c'.bindings = c.bindings.map (fun b => (b.1, b.2.moved place)) ∧
    (c.parent = none → c'.parent = none) ∧
    ∀ p, c.parent = some p → ∃ p', c'.parent = some p' ∧ m'.store.LeadsTo p' (place p)
  extra : ∀ (z : ScopeId) (c : Scope), m'.store.scopes[z]? = some c →
    (∃ e, e < m.store.scopes.size ∧ place e = z) ∨ c.bindings = []

def PaddedEnd (place : ScopeId → ScopeId) :
    EStateM.Result Halt Machine Flow → EStateM.Result Halt Machine Flow → Prop
  | .ok flow n, .ok flow' n' => flow' = flow.moved place ∧ n.Padded place n'
  | .error h n, .error h' n' => h' = h ∧ n.Padded place n'
  | _, _ => False

namespace World

def identity (s : Store) : World where
  same e e' := e' = e ∧ e < s.scopes.size
  padding _ _ := False

open Classical in
noncomputable def place (w : World) (e : ScopeId) : ScopeId :=
  if h : ∃ e', w.same e e' then h.choose else e

variable {w : World} {s s' : Store}

theorem place_eq {e e' : ScopeId} (matched : s.Matches w s') (same : w.same e e') :
    w.place e = e' := by
  have exists_same : ∃ e', w.same e e' := ⟨e', same⟩
  rw [place, dif_pos exists_same]
  exact (matched.unique exists_same.choose_spec same).mp rfl

theorem value_moved {v v' : Value} (matched : s.Matches w s') (value : v.Matches w v') :
    v' = v.moved w.place := by
  cases value with
  | function f =>
    cases f with
    | native id n => rfl
    | closure id decl scope => rw [Value.moved, place_eq matched scope]
  | _ => rfl

theorem bindings_moved {bs bs' : List (String × Value)} (matched : s.Matches w s')
    (bindings : BindingsMatch w bs bs') : bs' = bs.map fun b => (b.1, b.2.moved w.place) := by
  induction bindings with
  | nil => rfl
  | cons first _ ih =>
    obtain ⟨name, value⟩ := first
    rw [List.map_cons, ← ih, name, ← value_moved matched value]

theorem Sees.leadsTo {e e' : ScopeId} (matched : s.Matches w s') (sees : w.Sees e e') :
    s'.LeadsTo e' (w.place e) := by
  induction sees with
  | here same =>
    rw [place_eq matched same]
    exact .here _
  | past pads older _ ih => exact .past (matched.padding pads).1 older ih

end World

theorem Store.WellFormed.identity {s : Store} (formed : s.WellFormed) :
    s.Matches (World.identity s) s where
  scope := by
    rintro _ e ⟨rfl, bound⟩
    have found : s.scopes[e]? = some (s.scopes[e]) := Array.getElem?_eq_getElem bound
    refine ⟨_, _, found, found, ?_, ?_⟩
    · apply List.forall₂_same.mpr
      rintro ⟨x, v⟩ member
      refine ⟨rfl, ?_⟩
      cases v with
      | nil => exact .nil
      | bool b => exact .bool b
      | number x => exact .number x
      | string s => exact .string s
      | function f =>
        cases f with
        | native id n => exact .function (.native id n)
        | closure id decl scope =>
          have inside := formed.closures e _ found x id decl scope member
          exact .function (.closure id decl ⟨rfl, inside⟩)
    · cases parent : (s.scopes[e]).parent with
      | none => exact .root
      | some p =>
        have older := formed.parents e _ found p parent
        exact .inside older older (.here ⟨rfl, Nat.lt_trans older bound⟩)
  unique := by
    rintro d _ e _ ⟨rfl, -⟩ ⟨rfl, -⟩
    exact Iff.rfl
  padding := False.elim
  total found := ⟨_, rfl, lt_size found⟩
  others found := .inl ⟨_, rfl, lt_size found⟩
  functions := rfl

theorem Machine.Advance.padded {s : Store} {w : World} {m m' n n' : Machine}
    (step : Machine.Advance true (World.identity s) w m m' n n')
    (globals : m.globals < s.scopes.size) (same : m'.globals = m.globals) :
    n.Padded w.place n' := by
  have matched := step.matches'.store
  have total {e c} (found : n.store.scopes[e]? = some c) : w.same e (w.place e) := by
    obtain ⟨e', same⟩ := matched.total found
    rwa [World.place_eq matched same]
  constructor
  case sink => exact step.matches'.sink.symm
  case clock => exact step.matches'.clock.symm
  case functions => exact matched.functions.symm
  case globals =>
    rw [step.left.globals, step.right.globals, same]
    exact (World.place_eq matched (step.grows.same ⟨rfl, globals⟩)).symm
  case current => exact (World.place_eq matched step.matches'.current).symm
  case apart =>
    intro d e dBound eBound meet
    have first := total (Array.getElem?_eq_getElem dBound)
    have second := total (Array.getElem?_eq_getElem eBound)
    exact (matched.unique first second).mpr meet
  case scope =>
    intro e c found
    obtain ⟨c₁, c', found₁, found', bindings, parents⟩ := matched.scope (total found)
    rw [found] at found₁
    cases found₁
    refine ⟨c', found', World.bindings_moved matched bindings, ?_, ?_⟩
    · intro root
      rw [root] at parents
      generalize c'.parent = q at parents
      cases parents
      rfl
    · intro p parent
      rw [parent] at parents
      generalize c'.parent = q at parents
      cases parents with
      | inside _ _ sees => exact ⟨_, rfl, sees.leadsTo matched⟩
  case extra =>
    intro z c found
    rcases matched.others found with ⟨e, same⟩ | empty
    · exact .inl ⟨e, (matched.bound same).1, World.place_eq matched same⟩
    · exact .inr empty

theorem Sim.paddedEnd {x y : Eval Flow} (alike : ∀ w, Sim Flow.Matches true w x y) (m : Machine)
    (formed : m.WellFormed) :
    ∃ place : ScopeId → ScopeId, (∀ e, e < m.store.scopes.size → place e = e) ∧
      PaddedEnd place (x m) (y m) := by
  have start : m.Matches true (World.identity m.store) m :=
    ⟨formed.store.identity, rfl, rfl, rfl, formed.current⟩
  have result := alike _ m m start
  revert result
  generalize x m = r
  generalize y m = r'
  intro result
  cases r <;> cases r'
  · obtain ⟨w, step, flow⟩ := result
    have matched := step.matches'.store
    refine ⟨w.place, fun e bound => World.place_eq matched (step.grows.same ⟨rfl, bound⟩), ?_,
      step.padded formed.globals rfl⟩
    cases flow with
    | next => rfl
    | returned value => rw [Flow.moved, World.value_moved matched value]
  · exact result.elim
  · exact result.elim
  · obtain ⟨w, step, halt⟩ := result
    have matched := step.matches'.store
    exact ⟨w.place, fun e bound => World.place_eq matched (step.grows.same ⟨rfl, bound⟩),
      halt.symm, step.padded formed.globals rfl⟩

/-- The tree of a `for` runs as the loop: with the same result, the same output and the same
bindings, up to scopes that hold no binding. -/
theorem ForLoop.tree_runs_as_loop (f : ForLoop) (plain : f.body.declares = false) (fuel turns : Nat)
    (m : Machine) (formed : m.WellFormed) :
    ∃ place : ScopeId → ScopeId, (∀ e, e < m.store.scopes.size → place e = e) ∧
      PaddedEnd place (f.run (Function.apply fuel) turns m)
        (f.tree.exec (Function.apply fuel) turns m) :=
  Sim.paddedEnd (fun _ => run_sim (callsMatch_apply fuel) turns plain) m formed

def callingSource : String :=
  "for (var i = nil; !i; i = true) \x7b fun f() \x7b print i; \x7d f(); \x7d"

def callingLoop : ForLoop :=
  let name (lexeme : String) (start : Nat) : Token :=
    { kind := .identifier, lexeme, line := 1, span := ⟨start, start + 1⟩ }
  { initial := some (.varDecl (name "i" 9) (some (.constant .nil)))
    condition := some (.unary { kind := .bang, lexeme := "!", line := 1, span := ⟨18, 19⟩ }
      (.var (name "i" 19)))
    increment := some (.assign (name "i" 22) (.constant (.bool true)))
    body := .block
      [.funDecl (name "f" 38) []
        [.print { kind := .kwPrint, lexeme := "print", line := 1, span := ⟨44, 49⟩ }
          (.var (name "i" 50))],
      .expression (.call (.var (name "f" 55))
        { kind := .rightParen, lexeme := ")", line := 1, span := ⟨57, 58⟩ } [])] }

theorem ForLoop.tree_runs_as_loop_calling :
    (parseSource callingSource).statements = [callingLoop.tree] ∧
    callingLoop.body.declares = false ∧
    ∃ x : Session, Session.Reached [(parseSource declaringSource).statements] x ∧
      x.machine.WellFormed ∧
      ∃ place : ScopeId → ScopeId, (∀ e, e < x.machine.store.scopes.size → place e = e) ∧
        PaddedEnd place (callingLoop.run (Function.apply 9) 9 x.machine)
          (callingLoop.tree.exec (Function.apply 9) 9 x.machine) := by
  have reached := (Session.Reached.start {} default).ran 3 declaringSource declaringSource_clean
  exact ⟨by with_unfolding_all rfl, rfl, _, reached, reached.wellFormed,
    callingLoop.tree_runs_as_loop rfl 9 9 _ reached.wellFormed⟩

/-- The body of a `for` is a statement of the grammar, and such a statement declares nothing. -/
theorem ForLoop.tree_of_statement_runs_as_loop (f : ForLoop) {rules : Grammar.Rules}
    {inside dangling : Bool} {v : List Token}
    (body : Grammar.Forms rules (.statement inside dangling f.body) v) (fuel turns : Nat)
    (m : Machine) (formed : m.WellFormed) :
    ∃ place : ScopeId → ScopeId, (∀ e, e < m.store.scopes.size → place e = e) ∧
      PaddedEnd place (f.run (Function.apply fuel) turns m)
        (f.tree.exec (Function.apply fuel) turns m) :=
  Sim.paddedEnd (fun _ => run_sim (callsMatch_apply fuel) turns body.declares_nothing) m formed

end Treewalk
