import Treewalk.Proofs.Passing
import Treewalk.Proofs.Reach

namespace Treewalk

section Floats

open Float.Model (UnpackedFloat)

theorem compare_self_of_number {a : UnpackedFloat} (number : a.isNaN = false) :
    a.compare a = some .eq := by
  cases a with
  | notANumber => cases number
  | zero s => rfl
  | infinity s => cases s <;> rfl
  | finite s m e =>
    have alike : (compare e e).then (compare m m) = .eq := by simp
    cases s with
    | negative => exact congrArg (fun o => some o.swap) alike
    | positive => exact congrArg some alike

/-- Only the two zeros are equal and not the same. -/
theorem eq_or_zero_of_compare {a b : UnpackedFloat} (same : a.compare b = some .eq) :
    a = b ∨ ∃ s s', a = .zero s ∧ b = .zero s' := by
  cases a with
  | notANumber => cases same
  | zero s =>
    cases b with
    | notANumber => cases same
    | zero s' => exact .inr ⟨s, s', rfl, rfl⟩
    | infinity s' | finite s' => cases s' <;> cases same
  | infinity s =>
    cases b with
    | notANumber => cases s <;> cases same
    | zero s' | finite s' => cases s <;> cases same
    | infinity s' =>
      cases s <;> cases s'
      case negative.negative | positive.positive => exact .inl rfl
      all_goals cases same
  | finite s m e =>
    cases b with
    | notANumber => cases s <;> cases same
    | zero s' => cases s <;> cases same
    | infinity s' => cases s <;> cases s' <;> cases same
    | finite s' m' e' =>
      have agree (alike : (compare e e').then (compare m m') = .eq) : e = e' ∧ m = m' := by
        simpa [Ordering.then_eq_eq] using alike
      cases s <;> cases s'
      case negative.positive | positive.negative => cases same
      case negative.negative =>
        obtain ⟨rfl, rfl⟩ := agree (Ordering.swap_eq_eq.mp (Option.some.inj same))
        exact .inl rfl
      case positive.positive =>
        obtain ⟨rfl, rfl⟩ := agree (Option.some.inj same)
        exact .inl rfl

theorem float_beq_iff {x y : Float} : (x == y) = true ↔ x.isNaN = false ∧
    (x.toModel.unpack = y.toModel.unpack ∨
      ∃ s s', x.toModel.unpack = .zero s ∧ y.toModel.unpack = .zero s') := by
  change (x.toModel.unpack.compare y.toModel.unpack == some .eq) = true ↔
    x.toModel.unpack.isNaN = false ∧ _
  generalize x.toModel.unpack = a
  generalize y.toModel.unpack = b
  rw [beq_iff_eq]
  constructor
  · intro same
    refine ⟨?_, eq_or_zero_of_compare same⟩
    cases a with
    | notANumber => cases same
    | _ => rfl
  · rintro ⟨number, rfl | ⟨s, s', rfl, rfl⟩⟩
    · exact compare_self_of_number number
    · rfl

theorem float_isNaN_eq {x y : Float} (same : (x == y) = true) : x.isNaN = y.isNaN := by
  change x.toModel.unpack.isNaN = y.toModel.unpack.isNaN
  rcases (float_beq_iff.mp same).2 with alike | ⟨s, s', zero, zero'⟩
  · rw [alike]
  · rw [zero, zero']
    rfl

theorem float_beq_symm {x y : Float} (same : (x == y) = true) : (y == x) = true := by
  have number := float_isNaN_eq same
  rw [float_beq_iff] at same ⊢
  grind

theorem float_beq_trans {x y z : Float} (first : (x == y) = true) (second : (y == z) = true) :
    (x == z) = true := by
  rw [float_beq_iff] at first second ⊢
  grind

end Floats

namespace Value

inductive Kind
  | nil | bool | number | string | function
deriving DecidableEq, Repr

def kind : Value → Kind
  | nil => .nil
  | bool _ => .bool
  | number _ => .number
  | string _ => .string
  | function _ => .function

def isNaN : Value → Bool
  | number x => x.isNaN
  | _ => false

section Equality

variable {u v w : Value}

theorem equal_self (v : Value) : v.equal v = !v.isNaN := by
  cases v with
  | nil => rfl
  | bool b => exact beq_self_eq_true b
  | number x =>
    rw [equal, isNaN, Bool.eq_iff_iff, float_beq_iff]
    simp
  | string s => exact beq_self_eq_true s
  | function f => exact beq_self_eq_true f.id

theorem kind_of_equal (same : u.equal v = true) : u.kind = v.kind := by
  unfold equal at same
  split at same
  case h_6 => cases same
  all_goals rfl

theorem equal_symm (same : u.equal v = true) : v.equal u = true := by
  have kinds := kind_of_equal same
  cases u <;> cases v <;> cases kinds
  case number => exact float_beq_symm same
  · rfl
  all_goals exact BEq.symm same

theorem equal_trans (first : u.equal v = true) (second : v.equal w = true) :
    u.equal w = true := by
  have kinds := kind_of_equal first
  have kinds' := kind_of_equal second
  cases u <;> cases v <;> cases kinds <;> cases w <;> cases kinds'
  case number => exact float_beq_trans first second
  · rfl
  all_goals exact BEq.trans first second

end Equality

def EnteredIn (ledger : List Function) (v : Value) : Prop :=
  ∀ f, v = .function f → ledger[f.id]? = some f

variable {ledger ledger' : List Function} {v : Value}

theorem Plain.enteredIn (plain : v.Plain) : v.EnteredIn ledger :=
  fun f same => absurd same (plain f)

theorem EnteredIn.mono (entered : v.EnteredIn ledger) (grown : ledger <+: ledger') :
    v.EnteredIn ledger' := by
  intro f same
  obtain ⟨new, rfl⟩ := grown
  have found := entered f same
  rw [List.getElem?_append_left (List.getElem?_eq_some_iff.mp found).1, found]

theorem EnteredIn.id_lt {f : Function} (entered : EnteredIn ledger (.function f)) :
    f.id < ledger.length :=
  (List.getElem?_eq_some_iff.mp (entered f rfl)).1

theorem EnteredIn.eq {f g : Function} (first : EnteredIn ledger (.function f))
    (second : EnteredIn ledger (.function g)) (same : f.id = g.id) : f = g := by
  have found := first f rfl
  rw [same, second g rfl] at found
  exact (Option.some.inj found).symm

end Value

namespace Machine

structure Ledger (ledger : List Function) (m : Machine) : Prop where
  length : ledger.length = m.store.functions
  stored : m.store.All (·.EnteredIn ledger)

theorem Ledger.holds {ledger : List Function} {m : Machine} {v : Value} (kept : m.Ledger ledger)
    (held : m.Holds v) : v.EnteredIn ledger := by
  obtain ⟨e, c, x, found, member⟩ := held
  exact kept.stored e c found _ member

end Machine

def ledgered (old : List Function) : Regime (List Function) where
  machine ledger m := old <+: ledger ∧ m.Ledger ledger
  after ledger _ ledger' _ := ledger <+: ledger'
  value ledger _ v := v.EnteredIn ledger
  code _ _ _ _ := True
  after_refl _ _ := List.prefix_rfl
  after_trans := List.IsPrefix.trans
  value_after _ grown value := value.mono grown
  code_after _ _ _ := trivial
  part _ _ := trivial
  plain plain := plain.enteredIn
  found ready result := ready.2.stored.found result
  assigned ready _ value :=
    ⟨⟨ready.1, ready.2.length, ready.2.stored.define _ _ value⟩, List.prefix_rfl⟩
  defined ready _ _ value :=
    ⟨⟨ready.1, ready.2.length, ready.2.stored.define _ _ value⟩, List.prefix_rfl⟩
  closed {ledger _ m name params ss} ready _ := by
    let f := Function.closure m.store.functions ⟨name, params, ss⟩ m.current
    have grown : ledger <+: ledger ++ [f] := List.prefix_append ledger [f]
    refine ⟨ledger ++ [f], ⟨ready.1.trans grown, ?_, ?_⟩, grown, ?_⟩
    · rw [List.length_append, ready.2.length]
      rfl
    · exact ready.2.stored.imp fun v entered => entered.mono grown
    · rintro g ⟨⟩
      change (ledger ++ [f])[m.store.functions]? = some f
      rw [← ready.2.length, List.getElem?_concat_length]
  block ready _ := by
    refine ⟨⟨ready.1, ready.2.length, ready.2.stored.add ?_⟩, trivial⟩
    exact fun b member => absurd member List.not_mem_nil
  body ready _ given := by
    refine ⟨⟨ready.1, ready.2.length, ready.2.stored.add ?_⟩, trivial⟩
    exact fun b member => given _ (mem_bind member)
  left _ ready grown := ⟨⟨ready.1, ready.2.length, ready.2.stored⟩, grown⟩
  value_left value := value
  printed _ ready := ⟨⟨ready.1, ready.2.length, ready.2.stored⟩, List.prefix_rfl⟩
  asked _ ready := ⟨⟨ready.1, ready.2.length, ready.2.stored⟩, List.prefix_rfl⟩

theorem Session.Reached.ledger {programs : List (List Stmt)} {x : Session}
    (reached : Session.Reached programs x) : ∃ ledger, x.machine.Ledger ledger := by
  induction reached with
  | start sink clock =>
    refine ⟨[.native 0 Native.clock], rfl, ?_⟩
    intro e c found b member
    change (Machine.start sink clock).store.scopes[e]? = some c at found
    rw [Machine.start_scopes] at found
    cases e with
    | zero =>
      cases found
      cases List.mem_singleton.mp member
      rintro f ⟨⟩
      rfl
    | succ e => cases found
  | ran fuel source _ clean ih =>
    obtain ⟨ledger, kept⟩ := ih
    rw [Session.run_clean clean]
    have obeys := Regime.interpret_obeys (R := ledgered []) (d := 0) fuel
      (parseSource source).statements ⟨List.nil_prefix, kept⟩ trivial
    obtain ⟨ledger', ready, -⟩ := obeys.final
    exact ⟨ledger', ready.2⟩
  | refused fuel source _ errors ih =>
    rw [Session.run_refused errors]
    exact ih
  | drained _ ih =>
    obtain ⟨ledger, kept⟩ := ih
    exact ⟨ledger, kept.length, kept.stored⟩
  | withClock clock _ ih =>
    obtain ⟨ledger, kept⟩ := ih
    exact ⟨ledger, kept.length, kept.stored⟩

def Task.carried : Task → List Value
  | call f args => .function f :: args
  | _ => []

namespace Moment

/-- The value that the task of the first moment keeps to itself while that of the second, below it,
is carried out: a left operand, a callee, an argument, the function that runs. -/
inductive Keeps : Moment → Moment → Value → Prop
  | left {k d m a op b v n} : a.eval (Function.apply k) m = .ok v n →
    Keeps ⟨k, d, .code (.expr (.binary a op b)), m⟩ ⟨k, d, .code (.expr b), n⟩ v
  | callee {k d m f paren es v n} : f.eval (Function.apply k) m = .ok v n →
    Keeps ⟨k, d, .code (.expr (.call f paren es)), m⟩ ⟨k, d, .code (.exprs es), n⟩ v
  | argument {k d m e es v n} : e.eval (Function.apply k) m = .ok v n →
    Keeps ⟨k, d, .code (.exprs (e :: es)), m⟩ ⟨k, d, .code (.exprs es), n⟩ v
  | running {k d m id decl scope args} :
    Keeps ⟨k + 1, d, .call (.closure id decl scope) args, m⟩ (ofCall k decl scope args m)
      (.function (.closure id decl scope))

/-- The moments of a run, each with values that the tasks above it keep to themselves. -/
inductive Holding (start : Moment) : Moment → List Value → Prop
  | start : Holding start start []
  | next {q q' : Moment} {hand : List Value} :
    Holding start q hand → q.Next q' → Holding start q' hand
  | keeping {q q' : Moment} {hand : List Value} {v : Value} :
    Holding start q hand → q.Keeps q' v → Holding start q' (v :: hand)

theorem Keeps.next {q q' : Moment} {v : Value} (keeps : q.Keeps q' v) : q.Next q' := by
  cases keeps with
  | left result => exact .right result
  | callee result => exact .args result
  | argument result => exact .restExprs result
  | running => exact .body

theorem Holding.during {start q : Moment} {hand : List Value} (holding : start.Holding q hand) :
    start.During q := by
  induction holding with
  | start => exact .start
  | next _ step ih => exact ih.next step
  | keeping _ keeps ih => exact ih.next keeps.next

structure Ledger (ledger : List Function) (q : Moment) : Prop where
  machine : q.machine.Ledger ledger
  carried : ∀ v ∈ q.task.carried, v.EnteredIn ledger

variable {ledger old : List Function} {q q' start : Moment} {hand : List Value} {v : Value}

theorem ledgered_task {d : Nat} {m : Machine} {t : Task} :
    (ledgered old).task ledger d m t ↔ ∀ v ∈ t.carried, v.EnteredIn ledger := by
  cases t with
  | code c => exact ⟨fun _ => List.forall_mem_nil _, fun _ => trivial⟩
  | loop c s turns => exact ⟨fun _ => List.forall_mem_nil _, fun _ => ⟨trivial, trivial⟩⟩
  | call f args => exact List.forall_mem_cons.symm
  | program ss => exact ⟨fun _ => List.forall_mem_nil _, fun _ => trivial⟩

theorem Ledger.next (kept : q.Ledger ledger) (step : q.Next q') :
    ∃ ledger', ledger <+: ledger' ∧ q'.Ledger ledger' := by
  obtain ⟨ledger', ready, task⟩ := (ledgered ledger).next (w := ledger)
    ⟨List.prefix_rfl, kept.machine⟩ (ledgered_task.mpr kept.carried) step
  exact ⟨ledger', ready.1, ready.2, ledgered_task.mp task⟩

theorem Ledger.final (kept : q.Ledger ledger) :
    ∃ ledger', ledger <+: ledger' ∧ q.final.Ledger ledger' ∧
      ∀ vs n, q.task.run q.fuel q.machine = .ok vs n → ∀ v ∈ vs, v.EnteredIn ledger' := by
  obtain ⟨ledger', ready, -, given⟩ := (Regime.run_obeys (R := ledgered ledger) q.fuel q.task
    ⟨List.prefix_rfl, kept.machine⟩ (ledgered_task (d := q.depth).mpr kept.carried)).final
  exact ⟨ledger', ready.1, ready.2, given⟩

theorem Ledger.keeps (kept : q.Ledger ledger) (keeps : q.Keeps q' v) :
    ∃ ledger', ledger <+: ledger' ∧ q'.Ledger ledger' ∧ v.EnteredIn ledger' := by
  have value {k : Nat} {e : Expr} {n : Machine}
      (result : e.eval (Function.apply k) q.machine = .ok v n) :
      ∃ ledger', ledger <+: ledger' ∧ n.Ledger ledger' ∧ v.EnteredIn ledger' := by
    have obeys := Regime.eval_obeys (R := ledgered ledger) (d := 0)
      ((ledgered ledger).apply_obeys k) e ⟨List.prefix_rfl, kept.machine⟩ trivial
    obtain ⟨ledger', ready, -, entered⟩ := obeys.of_ok result
    exact ⟨ledger', ready.1, ready.2, entered⟩
  cases keeps with
  | left result | callee result | argument result =>
    obtain ⟨ledger', grown, kept', entered⟩ := value result
    exact ⟨ledger', grown, ⟨kept', List.forall_mem_nil _⟩, entered⟩
  | running =>
    obtain ⟨ledger', grown, kept'⟩ := kept.next .body
    exact ⟨ledger', grown, kept', (kept.carried _ List.mem_cons_self).mono grown⟩

theorem Holding.entered (holding : start.Holding q hand) (kept : start.Ledger ledger) :
    ∃ ledger', q.Ledger ledger' ∧ ∀ v ∈ hand, v.EnteredIn ledger' := by
  induction holding with
  | start => exact ⟨ledger, kept, List.forall_mem_nil _⟩
  | next _ step ih =>
    obtain ⟨before, kept, entered⟩ := ih
    obtain ⟨after, grown, kept'⟩ := kept.next step
    exact ⟨after, kept', fun v member => (entered v member).mono grown⟩
  | keeping _ keeps ih =>
    obtain ⟨before, kept, entered⟩ := ih
    obtain ⟨after, grown, kept', entered'⟩ := kept.keeps keeps
    refine ⟨after, kept', List.forall_mem_cons.mpr ⟨entered', ?_⟩⟩
    exact fun v member => (entered v member).mono grown

/-- The values that there are before the task of the moment: in scopes, given to the task, or kept
by tasks above it. -/
def Before (q : Moment) (hand : List Value) (v : Value) : Prop :=
  q.machine.Holds v ∨ v ∈ q.task.carried ∨ v ∈ hand

def After (q : Moment) (hand : List Value) (v : Value) : Prop :=
  q.final.Holds v ∨ (∃ vs n, q.task.run q.fuel q.machine = .ok vs n ∧ v ∈ vs) ∨ v ∈ hand

theorem Ledger.before (kept : q.Ledger ledger) (entered : ∀ v ∈ hand, v.EnteredIn ledger)
    (present : q.Before hand v) : v.EnteredIn ledger := by
  rcases present with stored | carried | inHand
  · exact kept.machine.holds stored
  · exact kept.carried v carried
  · exact entered v inHand

end Moment

structure Moment.Identified (q : Moment) (hand : List Value) : Prop where
  /-- A declaration binds a function that is equal to nothing there was before. -/
  fresh : ∀ name params ss, q.task = .code (.stmt (.funDecl name params ss)) →
    ∃ id n, (Stmt.funDecl name params ss).exec (Function.apply q.fuel) q.fuel q.machine =
        .ok .next n ∧
      n.Reads name (.function (.closure id ⟨name, params, ss⟩ q.machine.current)) ∧
      ∀ v, q.Before hand v →
        Value.equal (.function (.closure id ⟨name, params, ss⟩ q.machine.current)) v = false
  /-- Functions that are equal are one function: one native, or one declaration in one scope. So
  nothing that can be done with them, calls included, tells them apart. -/
  same : ∀ f g, q.Before hand (.function f) ∨ q.After hand (.function f) →
    q.Before hand (.function g) ∨ q.After hand (.function g) →
    Value.equal (.function f) (.function g) = true → f = g
  /-- A variable stands for the function that it was declared with, or last assigned. -/
  initial : ∀ name e f n, q.task = .code (.stmt (.varDecl name (some e))) →
    e.eval (Function.apply q.fuel) q.machine = .ok (.function f) n →
    ∃ n', (Stmt.varDecl name (some e)).exec (Function.apply q.fuel) q.fuel q.machine =
      .ok .next n' ∧ n'.Reads name (.function f)
  assigned : ∀ name e f n, q.task = .code (.expr (.assign name e)) → q.Gives (.function f) n →
    n.Reads name (.function f)
  /-- Where the body of a function starts, a parameter that no later one hides stands for its
  argument. -/
  argument : ∀ k id decl scope ps p ps' vs f vs', q.fuel = k + 1 →
    q.task = .call (.closure id decl scope) (vs ++ .function f :: vs') →
    decl.params = ps ++ p :: ps' → ps.length = vs.length → (∀ p' ∈ ps', p'.lexeme ≠ p.lexeme) →
    ∃ q', q.Next q' ∧ q'.task = .code (.stmts decl.body) ∧ q'.machine.Reads p (.function f)
  /-- Logical operators, groups, assignments, calls and returns give the function they are handed. -/
  handedUp : ∀ q' f n, Relation.ReflTransGen Moment.HandsUp q q' → q'.Gives (.function f) n →
    ∃ n', q.Gives (.function f) n'
  reflexive : ∀ v : Value, v.equal v = true ↔ v.isNaN = false
  symmetric : ∀ u v : Value, u.equal v = true → v.equal u = true
  transitive : ∀ u v w : Value, u.equal v = true → v.equal w = true → u.equal w = true
  typed : ∀ u v : Value, u.equal v = true → u.kind = v.kind

namespace Moment

variable {ledger : List Function} {q : Moment} {hand : List Value}

theorem fresh_of_ledger {name : Token} {params : List Token} {ss : List Stmt}
    (kept : q.Ledger ledger) (entered : ∀ v ∈ hand, v.EnteredIn ledger)
    (bound : q.machine.current < q.machine.store.scopes.size) :
    ∃ id n, (Stmt.funDecl name params ss).exec (Function.apply q.fuel) q.fuel q.machine =
        .ok .next n ∧
      n.Reads name (.function (.closure id ⟨name, params, ss⟩ q.machine.current)) ∧
      ∀ v, q.Before hand v →
        Value.equal (.function (.closure id ⟨name, params, ss⟩ q.machine.current)) v = false := by
  refine ⟨q.machine.store.functions, _, rfl, ?_, fun v before => ?_⟩
  · exact Machine.reads_of_get? (Store.get?_define_self bound)
  · cases v with
    | function g =>
      have older := (kept.before entered before).id_lt
      rw [kept.machine.length] at older
      exact beq_false_of_ne (Nat.ne_of_gt older)
    | _ => rfl

theorem same_of_ledger {f g : Function} (kept : q.Ledger ledger)
    (entered : ∀ v ∈ hand, v.EnteredIn ledger)
    (first : q.Before hand (.function f) ∨ q.After hand (.function f))
    (second : q.Before hand (.function g) ∨ q.After hand (.function g))
    (same : Value.equal (.function f) (.function g) = true) : f = g := by
  obtain ⟨ledger', grown, kept', given⟩ := kept.final
  have known {v : Value} (present : q.Before hand v ∨ q.After hand v) : v.EnteredIn ledger' := by
    rcases present with before | stored | ⟨vs, n, ended, member⟩ | inHand
    · exact (kept.before entered before).mono grown
    · exact kept'.holds stored
    · exact given vs n ended v member
    · exact (entered v inHand).mono grown
  exact (known first).eq (known second) (eq_of_beq same)

end Moment

/-- Functions have a sound identity at every moment of every run in every session. -/
theorem function_identity_is_sound {programs : List (List Stmt)} {x : Session}
    (reached : Session.Reached programs x) (fuel : Nat) (source : String) {q : Moment}
    {hand : List Value} (holding :
      Moment.Holding ⟨fuel, 0, .program (parseSource source).statements, x.machine⟩ q hand) :
    q.Identified hand := by
  obtain ⟨first, kept⟩ := reached.ledger
  obtain ⟨ledger, kept, entered⟩ := holding.entered ⟨kept, List.forall_mem_nil _⟩
  obtain ⟨heap, -⟩ := Discipline.during (D := heaped) holding.during reached.heap trivial
  exact {
    fresh := fun name params ss _ => Moment.fresh_of_ledger kept entered heap.current
    same := fun f g => Moment.same_of_ledger kept entered
    initial := fun name e f n _ value => by
      have obeys := Discipline.eval_obeys (d := 0) (heaped.apply_obeys q.fuel) e heap trivial
      exact exec_varDecl_reads (obeys.of_ok value).1.current value
    assigned := fun name e f n task given => by
      obtain ⟨k, d, t, m⟩ := q
      cases task
      exact reads_assigned (Moment.gives_expr.mp given)
    argument := fun k id decl scope ps p ps' vs f vs' allowance task params place last => by
      obtain ⟨k, d, t, m⟩ := q
      cases allowance
      cases task
      refine ⟨_, .body, rfl, Machine.reads_of_get? ?_⟩
      exact Store.get?_enter (FunDecl.lookup_bind params place last)
    handedUp := fun q' f n path given => Moment.gives_of_handedUp path given
    reflexive := fun v => by rw [Value.equal_self, Bool.not_eq_true']
    symmetric := fun u v => Value.equal_symm
    transitive := fun u v w => Value.equal_trans
    typed := fun u v => Value.kind_of_equal }

def mentionAt (start : Nat) : Token := ⟨.identifier, "f", none, 1, ⟨start, start + 1⟩⟩

def declaredFunction : FunDecl :=
  ⟨mentionAt 4, [], [.print ⟨.kwPrint, "print", none, 1, ⟨10, 15⟩⟩ (.var (mentionAt 16))]⟩

/-- In a session that has declared `f`, the second `f` of `f == f;` is looked up while the value of
the first is in hand. -/
theorem function_identity_is_sound_comparing :
    ∃ (x : Session) (q : Moment) (f : Function),
      Session.Reached [(parseSource declaringSource).statements] x ∧
      Moment.Holding ⟨3, 0, .program (parseSource "f == f;").statements, x.machine⟩ q
        [.function f] ∧
      q.task = .code (.expr (.var (mentionAt 5))) ∧ f = .closure 1 declaredFunction 0 ∧
      q.Identified [.function f] := by
  have reached := (Session.Reached.start {} default).ran 3 declaringSource declaringSource_clean
  have declaration : (parseSource declaringSource).statements =
      [.funDecl (mentionAt 4) [] declaredFunction.body] := by with_unfolding_all rfl
  have comparison : (parseSource "f == f;").statements = [.expression (.binary
      (.var (mentionAt 0)) ⟨.equalEqual, "==", none, 1, ⟨2, 4⟩⟩ (.var (mentionAt 5)))] := by
    with_unfolding_all rfl
  have reads : Machine.Reads ((Session.start {} default).run 3 declaringSource).2.machine
      (mentionAt 0) (.function (.closure 1 declaredFunction 0)) := by
    rw [Session.run_clean declaringSource_clean, declaration]
    exact Machine.reads_of_get? (Store.get?_define_self Nat.zero_lt_one)
  have second : ∃ q : Moment, Moment.Holding ⟨3, 0, .program (parseSource "f == f;").statements,
        ((Session.start {} default).run 3 declaringSource).2.machine⟩ q
        [.function (.closure 1 declaredFunction 0)] ∧
      q.task = .code (.expr (.var (mentionAt 5))) := by
    rw [comparison]
    exact ⟨_, .keeping (.next (.next .start .firstOfProgram) .evaluated) (.left (reads _)), rfl⟩
  obtain ⟨q, holding, task⟩ := second
  exact ⟨_, q, _, reached, holding, task, rfl, function_identity_is_sound reached 3 _ holding⟩

end Treewalk
