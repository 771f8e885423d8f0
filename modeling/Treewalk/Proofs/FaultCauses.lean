import Treewalk.Proofs.Accounts
import Treewalk.Proofs.OperatorFaults
import Treewalk.Proofs.ScopeTree
import Treewalk.Proofs.TreeTokens

namespace Treewalk

open Code (WellFormed)
open Token (Kind)

namespace Value

def IsString (v : Value) : Prop := ∃ s, v = string s

def numberKinds : List Kind :=
  [.minus, .star, .slash, .greater, .greaterEqual, .less, .lessEqual]

theorem unary_error {op : Kind} {v : Value} {cause : Cause} (failed : v.unary op = .error cause) :
    op = .minus ∧ ¬ v.IsNumber ∧ cause = .operandNotNumber := by
  unfold unary at failed
  split at failed
  · cases failed
  · rename_i other
    cases failed
    refine ⟨rfl, ?_, rfl⟩
    rintro ⟨x, rfl⟩
    exact other x rfl
  · cases failed

theorem add_error {v w : Value} {cause : Cause} (failed : v.add w = .error cause) :
    ¬ (v.IsNumber ∧ w.IsNumber) ∧ ¬ (v.IsString ∧ w.IsString) ∧ cause = .operandsDiffer := by
  unfold add at failed
  split at failed
  · cases failed
  · cases failed
  · rename_i noNumbers noStrings
    cases failed
    refine ⟨?_, ?_, rfl⟩
    · rintro ⟨⟨x, rfl⟩, y, rfl⟩
      exact noNumbers x y rfl rfl
    · rintro ⟨⟨s, rfl⟩, t, rfl⟩
      exact noStrings s t rfl rfl

theorem arithmetic_ok {op : Kind} (known : op ∈ numberKinds) (x y : Float) :
    ∃ v, arithmetic op x y = .ok v := by
  simp only [numberKinds, List.mem_cons, List.not_mem_nil, or_false] at known
  rcases known with rfl | rfl | rfl | rfl | rfl | rfl | rfl <;> exact ⟨_, rfl⟩

theorem binary_error {op : Kind} (known : op ∈ binaryKinds) {v w : Value} {cause : Cause}
    (failed : v.binary op w = .error cause) :
    op = .plus ∧ ¬ (v.IsNumber ∧ w.IsNumber) ∧ ¬ (v.IsString ∧ w.IsString) ∧
      cause = .operandsDiffer ∨
    op ∈ numberKinds ∧ ¬ (v.IsNumber ∧ w.IsNumber) ∧ cause = .operandNotNumber := by
  unfold binary at failed
  split at failed
  · exact .inl ⟨rfl, add_error failed⟩
  · cases failed
  · cases failed
  · -- What is left are the operators on numbers, since `op` is a known one.
    rename_i noPlus noEqual noBang
    have number : op ∈ numberKinds := by cases op <;> simp_all [binaryKinds, numberKinds]
    refine .inr ⟨number, ?_⟩
    split at failed
    · rename_i x y
      obtain ⟨u, result⟩ := arithmetic_ok number x y
      rw [result] at failed
      cases failed
    · rename_i noNumbers
      cases failed
      refine ⟨?_, rfl⟩
      rintro ⟨⟨x, rfl⟩, y, rfl⟩
      exact noNumbers x y rfl rfl

end Value

/-- In the moment `q` the evaluator raises a fault at the token `t`. -/
inductive Moment.Raises : Moment → Token → Cause → Prop
  | lookup {k d m name} : m.store.find? m.current name.lexeme = none →
    Raises ⟨k, d, .code (.expr (.var name)), m⟩ name (.undefinedVariable name.lexeme)
  | assign {k d m name e v n} : e.eval (Function.apply k) m = .ok v n →
    n.store.find? n.current name.lexeme = none →
    Raises ⟨k, d, .code (.expr (.assign name e)), m⟩ name (.undefinedVariable name.lexeme)
  | unary {k d m op e v n cause} : e.eval (Function.apply k) m = .ok v n →
    v.unary op.kind = .error cause → Raises ⟨k, d, .code (.expr (.unary op e)), m⟩ op cause
  | binary {k d m a op b v n w o cause} : a.eval (Function.apply k) m = .ok v n →
    b.eval (Function.apply k) n = .ok w o → v.binary op.kind w = .error cause →
    Raises ⟨k, d, .code (.expr (.binary a op b)), m⟩ op cause
  | notCallable {k d m f paren es v n vs o} : f.eval (Function.apply k) m = .ok v n →
    Expr.evalAll (Function.apply k) es n = .ok vs o → v.Plain →
    Raises ⟨k, d, .code (.expr (.call f paren es)), m⟩ paren .notCallable
  | arity {k d m f paren es g n vs o} : f.eval (Function.apply k) m = .ok (.function g) n →
    Expr.evalAll (Function.apply k) es n = .ok vs o → vs.length ≠ g.arity →
    Raises ⟨k, d, .code (.expr (.call f paren es)), m⟩ paren (.arityMismatch g.arity vs.length)
  | print {k d m keyword e reason} :
    Raises ⟨k, d, .code (.stmt (.print keyword e)), m⟩ keyword (.output reason)

def Fault.RaisedIn (start : Moment) (f : Fault) : Prop :=
  ∃ q t, start.During q ∧ q.Raises t f.cause ∧ f = .atToken t f.cause

theorem raisedIn_of_fault {α : Type} {start q : Moment} {t : Token} {cause : Cause} {m n : Machine}
    {f : Fault} (now : start.During q) (raises : q.Raises t cause)
    (failed : (Eval.fault t cause : Eval α) m = .error (.fault f) n) : f.RaisedIn start := by
  cases failed
  exact ⟨q, t, now, raises, rfl⟩

def raising (start : Moment) : Account start where
  holds x m := ∀ f n, x m = .error (.fault f) n → f.RaisedIn start
  pure a f n failed := by cases failed
  bind {α β x g m} first next f n failed := by
    cases ended : x m with
    | ok a o =>
      rw [Eval.bind_ok ended] at failed
      exact next a o ended f n failed
    | error h o =>
      rw [Eval.bind_error ended] at failed
      cases failed
      exact first f n ended
  exhausted f n failed := by cases failed
  inside {x m p bs} act f n failed := by
    rw [Eval.inside_apply] at failed
    cases ended : x (m.enter p bs) with
    | ok a o =>
      rw [ended] at failed
      cases failed
    | error h o =>
      rw [ended] at failed
      cases failed
      exact act f o ended
  nested act := act
  define name v f n failed := by cases failed
  closure decl f n failed := by cases failed
  clock f n failed := by cases failed
  lookup {k d m name} now f n failed := by
    rw [Eval.lookup_apply, Store.get?] at failed
    cases found : m.store.find? m.current name.lexeme with
    | some holder =>
      rw [found] at failed
      cases failed
    | none =>
      rw [found] at failed
      exact raisedIn_of_fault now (.lookup found) failed
  assign {k d m name e v o} now value f n failed := by
    unfold Eval.assign at failed
    cases found : o.store.find? o.current name.lexeme with
    | some holder =>
      rw [found] at failed
      cases failed
    | none =>
      rw [found] at failed
      exact raisedIn_of_fault now (.assign value found) failed
  unary {k d m op e v o} now value f n failed := by
    cases result : v.unary op.kind with
    | ok u =>
      rw [result] at failed
      cases failed
    | error cause =>
      rw [result] at failed
      exact raisedIn_of_fault now (.unary value result) failed
  binary {k d m a op b v n w o} now left right f n' failed := by
    cases result : v.binary op.kind w with
    | ok u =>
      rw [result] at failed
      cases failed
    | error cause =>
      rw [result] at failed
      exact raisedIn_of_fault now (.binary left right result) failed
  notCallable now callee args plain f n failed :=
    raisedIn_of_fault now (.notCallable callee args plain) failed
  arity now callee args differ f n failed :=
    raisedIn_of_fault now (.arity callee args differ) failed
  print {k d m keyword e v o} now value f n failed := by
    unfold Eval.print at failed
    rcases written : o.sink.write (v.text ++ "\n").toUTF8 with ⟨_ | refusal, sink⟩
    · rw [written] at failed
      cases failed
    · rw [written] at failed
      exact raisedIn_of_fault now .print failed

def FunDecl.tokens (decl : FunDecl) : List Token :=
  (Stmt.funDecl decl.name decl.params decl.body).tokens

def Value.TokensIn (known : Token → Prop) (v : Value) : Prop :=
  ∀ id decl scope, v = .function (.closure id decl scope) → ∀ t ∈ decl.tokens, known t

/-- Code whose tokens are known makes functions whose tokens are known, and runs no other. -/
def pointing (known : Token → Prop) : Discipline where
  machine m := m.store.All (Value.TokensIn known)
  after _ _ := True
  value _ v := v.TokensIn known
  code _ _ c := ∀ t ∈ c.tokens, known t
  after_refl _ := trivial
  after_trans _ _ := trivial
  value_after _ _ value := value
  code_after _ _ code := code
  part code part t member := code t (part.tokens_subset member)
  plain plain _ _ _ same := absurd same (plain _)
  found ready result := ready.found result
  assigned ready _ value := ⟨ready.define _ _ value, trivial⟩
  defined ready _ _ value := ⟨ready.define _ _ value, trivial⟩
  closed {d m name params ss} ready code := by
    refine ⟨ready, trivial, ?_⟩
    rintro id decl scope ⟨⟩
    exact code
  block ready code := by
    refine ⟨ready.add fun b member => absurd member List.not_mem_nil, ?_⟩
    exact code
  body ready function given := by
    refine ⟨ready.add fun b member => given _ (mem_bind member), ?_⟩
    exact fun t member => function _ _ _ rfl t (List.mem_append_right _ member)
  left _ ready' _ := ⟨ready', trivial⟩
  value_left value := value
  printed _ ready := ⟨ready, trivial⟩
  asked _ ready := ⟨ready, trivial⟩

theorem Moment.Raises.token {q : Moment} {t : Token} {cause : Cause} (raises : q.Raises t cause) :
    ∃ c, q.task = .code c ∧ t ∈ c.tokens := by
  cases raises <;> exact ⟨_, rfl, by simp [Code.tokens, Expr.tokens, Stmt.tokens]⟩

def Store.Unbound (s : Store) (e : ScopeId) (x : String) : Prop :=
  ∀ d, s.OnChain e d → x ∉ s.names d

/-- The node that runs in the moment `q` has the token `t` and the operands that the cause of a fault
speaks of. -/
inductive Moment.Blames (q : Moment) : Token → Cause → Prop
  | variable {name} : q.task = .code (.expr (.var name)) →
    q.machine.store.Unbound q.machine.current name.lexeme →
    Blames q name (.undefinedVariable name.lexeme)
  | target {name e v n} : q.task = .code (.expr (.assign name e)) →
    e.eval (Function.apply q.fuel) q.machine = .ok v n →
    n.store.Unbound n.current name.lexeme → Blames q name (.undefinedVariable name.lexeme)
  | negated {op e v n} : q.task = .code (.expr (.unary op e)) → op.kind = .minus →
    e.eval (Function.apply q.fuel) q.machine = .ok v n → ¬ v.IsNumber →
    Blames q op .operandNotNumber
  | operands {a op b v n w o} : q.task = .code (.expr (.binary a op b)) →
    op.kind ∈ Value.numberKinds → a.eval (Function.apply q.fuel) q.machine = .ok v n →
    b.eval (Function.apply q.fuel) n = .ok w o → ¬ (v.IsNumber ∧ w.IsNumber) →
    Blames q op .operandNotNumber
  | addends {a op b v n w o} : q.task = .code (.expr (.binary a op b)) → op.kind = .plus →
    a.eval (Function.apply q.fuel) q.machine = .ok v n →
    b.eval (Function.apply q.fuel) n = .ok w o → ¬ (v.IsNumber ∧ w.IsNumber) →
    ¬ (v.IsString ∧ w.IsString) → Blames q op .operandsDiffer
  | callee {f paren es v n} : q.task = .code (.expr (.call f paren es)) →
    paren.kind = .rightParen → f.eval (Function.apply q.fuel) q.machine = .ok v n →
    (∀ g, v ≠ .function g) → Blames q paren .notCallable
  | arguments {f paren es g n} : q.task = .code (.expr (.call f paren es)) →
    paren.kind = .rightParen →
    f.eval (Function.apply q.fuel) q.machine = .ok (.function g) n → g.arity ≠ es.length →
    Blames q paren (.arityMismatch g.arity es.length)
  | output {keyword e reason} : q.task = .code (.stmt (.print keyword e)) →
    keyword.kind = .kwPrint → Blames q keyword (.output reason)

theorem evalAll_length {call : Caller} {es : List Expr} {m n : Machine} {vs : List Value}
    (result : Expr.evalAll call es m = .ok vs n) : vs.length = es.length := by
  induction es generalizing m vs with
  | nil =>
    rw [Expr.evalAll] at result
    cases result
    rfl
  | cons e es ih =>
    rw [Expr.evalAll] at result
    cases first : e.eval call m with
    | error h o =>
      rw [Eval.bind_error first] at result
      cases result
    | ok v o =>
      rw [Eval.bind_ok first] at result
      obtain ⟨us, rest, rfl⟩ := Eval.map_eq_ok (g := (v :: ·)) (x := Expr.evalAll call es) result
      rw [List.length_cons, List.length_cons, ih rest]

theorem Moment.Raises.blames {q : Moment} {t : Token} {cause : Cause} (raises : q.Raises t cause)
    (ready : rooted.machine q.machine) (task : formed.task q.depth q.machine q.task) :
    q.Blames t cause := by
  cases raises with
  | lookup absent => exact .variable rfl fun d => ready.1.not_mem_names absent
  | @assign k _ _ _ e _ _ value absent =>
    -- The value is computed before the target is looked for, so the chain is that of `n`.
    have obeys := Discipline.eval_obeys (d := 0) (rooted.apply_obeys k) e ready trivial
    obtain ⟨after, -⟩ := obeys.of_ok value
    exact .target rfl value fun d => after.1.not_mem_names absent
  | unary value failed =>
    obtain ⟨minus, other, rfl⟩ := Value.unary_error failed
    exact .negated rfl minus value other
  | binary left right failed =>
    have known : _ ∈ binaryKinds := (WellFormed.sound task).1
    rcases Value.binary_error known failed with ⟨plus, noNumbers, noStrings, rfl⟩ | ⟨among, other, rfl⟩
    · exact .addends rfl plus left right noNumbers noStrings
    · exact .operands rfl among left right other
  | notCallable callee args plain =>
    exact .callee rfl (WellFormed.sound task).1 callee plain
  | arity callee args differ =>
    rw [evalAll_length args] at differ ⊢
    exact .arguments rfl (WellFormed.sound task).1 callee differ.symm
  | print => exact .output rfl (WellFormed.sound task)

theorem Session.run_faulted {x : Session} {fuel : Nat} {source : String}
    (faulted : (x.run fuel source).1.outcome = .runtimeError) :
    ∃ f n, interpret fuel (parseSource source).statements x.machine = .error (.fault f) n ∧
      (x.run fuel source).1 = .ofHalt (.fault f) := by
  unfold run at faulted ⊢
  cases errors : (parseSource source).errors with
  | cons e es =>
    simp only [errors, List.isEmpty_cons] at faulted
    cases faulted
  | nil =>
    simp only [errors, List.isEmpty_nil, if_true] at faulted ⊢
    cases ended : interpret fuel (parseSource source).statements x.machine with
    | ok _ n =>
      rw [ended] at faulted
      cases faulted
    | error h n =>
      rw [ended] at faulted
      cases h with
      | exhausted => cases faulted
      | fault f => exact ⟨f, n, rfl, rfl⟩

/-- The tokens of a program, and those of the functions that a session has. -/
def Session.Knows (x : Session) (program : List Stmt) (t : Token) : Prop :=
  t ∈ Stmt.tokensAll program ∨
  ∃ id decl scope, x.machine.Holds (.function (.closure id decl scope)) ∧ t ∈ decl.tokens

/-- The fault that ends a run lies at a token of the program, or of a function that the session had
before, and names the node that raised it for what was wrong with it. Comparing two values for
equality never faults. -/
theorem faults_name_their_causes {programs : List (List Stmt)} {x : Session}
    (reached : Session.Reached programs x) (fuel : Nat) (source : String) :
    ((x.run fuel source).1.outcome = .runtimeError →
      ∃ f n q t,
        interpret fuel (parseSource source).statements x.machine = .error (.fault f) n ∧
        (x.run fuel source).1 = .ofHalt (.fault f) ∧
        Moment.During ⟨fuel, 0, .program (parseSource source).statements, x.machine⟩ q ∧
        f = .atToken t f.cause ∧ x.Knows (parseSource source).statements t ∧
        q.Blames t f.cause) ∧
    ∀ (k : Nat) (a b : Expr) (op : Token) (m n o : Machine) (v w : Value),
      op.kind = .equalEqual ∨ op.kind = .bangEqual →
      a.eval (Function.apply k) m = .ok v n → b.eval (Function.apply k) n = .ok w o →
      ∃ same, (Expr.binary a op b).eval (Function.apply k) m = .ok (.bool same) o := by
  constructor
  · intro faulted
    obtain ⟨f, n, ended, report⟩ := Session.run_faulted faulted
    obtain ⟨q, t, during, raises, place⟩ :=
      (raising _).interpret (parseSource source).statements .start f n ended
    refine ⟨f, n, q, t, ended, report, during, place, ?_, ?_⟩
    · -- The run can point only at what it knew when it started.
      have ready : (pointing (x.Knows (parseSource source).statements)).machine x.machine := by
        rintro e c found b member id decl scope same t token
        exact .inr ⟨id, decl, scope, ⟨e, c, b.1, found, same ▸ member⟩, token⟩
      obtain ⟨-, task⟩ := Discipline.during during ready fun t token => Or.inl token
      obtain ⟨c, same, member⟩ := raises.token
      rw [same] at task
      exact task t member
    · obtain ⟨ready, -⟩ := Discipline.during (D := rooted) during reached.rooted trivial
      obtain ⟨-, task⟩ :=
        Discipline.during (D := formed) during reached.formed (parseSource_wellFormed source)
      exact raises.blames ready task
  · intro k a b op m n o v w kind left right
    rw [eval_binary left right]
    rcases kind with kind | kind
    · exact ⟨v.equal w, by rw [kind]; rfl⟩
    · exact ⟨!v.equal w, by rw [kind]; rfl⟩

def negatingSource : String := "fun f(a) \x7b return -a; \x7d"

theorem negatingSource_clean : (parseSource negatingSource).errors = [] := by decide +kernel

theorem faults_name_their_causes_of_call :
    let x := ((Session.start {} default).run 9 negatingSource).2
    (x.run 9 "f(nil);").1.outcome = .runtimeError ∧
    ∃ f n q t,
      interpret 9 (parseSource "f(nil);").statements x.machine = .error (.fault f) n ∧
      (x.run 9 "f(nil);").1 = .ofHalt (.fault f) ∧
      Moment.During ⟨9, 0, .program (parseSource "f(nil);").statements, x.machine⟩ q ∧
      f = .atToken t f.cause ∧ x.Knows (parseSource "f(nil);").statements t ∧
      q.Blames t f.cause := by
  have reached := (Session.Reached.start {} default).ran 9 negatingSource negatingSource_clean
  have faulted : ((((Session.start {} default).run 9 negatingSource).2).run 9 "f(nil);").1.outcome =
      .runtimeError := by decide +kernel
  exact ⟨faulted, (faults_name_their_causes reached 9 "f(nil);").1 faulted⟩

end Treewalk
