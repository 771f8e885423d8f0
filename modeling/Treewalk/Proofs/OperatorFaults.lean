import Treewalk.Proofs.LexicalDepth
import Treewalk.Proofs.WellFormedTrees

namespace Treewalk

open Code (WellFormed)
open Token (Kind)

namespace Value

def IsNumber (v : Value) : Prop := ∃ x, v = number x

theorem binary_operandNotNumber_iff {op : Kind} (known : op ∈ binaryKinds) (v w : Value) :
    v.binary op w = .error .operandNotNumber ↔
      op ∉ [Kind.plus, .equalEqual, .bangEqual] ∧ ¬ (v.IsNumber ∧ w.IsNumber) := by
  simp only [binaryKinds, List.mem_cons, List.not_mem_nil, or_false] at known
  rcases known with rfl | rfl | rfl | rfl | rfl | rfl | rfl | rfl | rfl | rfl <;>
    cases v <;> cases w <;> simp [binary, add, arithmetic, IsNumber]

def Formed (v : Value) : Prop :=
  ∀ id decl scope, v = .function (.closure id decl scope) →
    WellFormed (.stmt (.funDecl decl.name decl.params decl.body))

theorem Plain.formed {v : Value} (plain : v.Plain) : v.Formed :=
  fun _ _ _ same => absurd same (plain _)

end Value

def Store.Formed (s : Store) : Prop :=
  ∀ (e : ScopeId) (c : Scope), s.scopes[e]? = some c → ∀ b ∈ c.bindings, b.2.Formed

namespace Store.Formed

variable {s : Store}

theorem define (formed : s.Formed) (e : ScopeId) (x : String) {v : Value} (value : v.Formed) :
    (s.define e x v).Formed := All.define formed e x value

theorem add (formed : s.Formed) {bs : List (String × Value)} {p : Option ScopeId}
    (bindings : ∀ b ∈ bs, b.2.Formed) : (s.add ⟨bs, p⟩).2.Formed := All.add formed bindings

end Store.Formed

def formed : Discipline where
  machine m := m.store.Formed
  after _ _ := True
  value _ v := v.Formed
  code _ _ c := c.WellFormed
  after_refl _ := trivial
  after_trans _ _ := trivial
  value_after _ _ value := value
  code_after _ _ code := code
  part code part := code.part part
  plain := Value.Plain.formed
  found ready result := by
    obtain ⟨c, found, member⟩ := Store.find?_mem result
    exact ready _ c found _ member
  assigned ready _ value := ⟨ready.define _ _ value, trivial⟩
  defined ready _ _ value := ⟨ready.define _ _ value, trivial⟩
  closed {d m name params ss} ready code := by
    refine ⟨ready, trivial, ?_⟩
    rintro id decl scope ⟨⟩
    exact code
  block ready code := by
    refine ⟨ready.add fun b member => absurd member List.not_mem_nil, ?_⟩
    exact code.child .block
  body ready function given := by
    refine ⟨ready.add fun b member => given _ (mem_bind member), ?_⟩
    exact (function _ _ _ rfl).child .body
  left _ ready' _ := ⟨ready', trivial⟩
  value_left value := value
  printed _ ready := ⟨ready, trivial⟩
  asked _ ready := ⟨ready, trivial⟩

theorem parseSource_wellFormed (source : String) :
    WellFormed (.stmts (parseSource source).statements) := parse_wellFormed (scan source).tokens

theorem Session.Reached.formed {programs : List (List Stmt)} {x : Session}
    (reached : Session.Reached programs x) : x.machine.store.Formed := by
  induction reached with
  | start sink clock =>
    intro e c found b member
    change (Machine.start sink clock).store.scopes[e]? = some c at found
    rw [Machine.start_scopes] at found
    cases e with
    | zero =>
      cases found
      cases List.mem_singleton.mp member
      intro id decl scope same
      cases same
    | succ e => cases found
  | @ran _ x fuel source _ clean ih =>
    rw [Session.run_clean clean]
    have code := parseSource_wellFormed source
    exact (Discipline.interpret_obeys (D := Treewalk.formed) (d := 0) fuel _ ih code).final.1
  | refused fuel source _ errors ih =>
    rw [Session.run_refused errors]
    exact ih
  | drained _ ih => exact ih
  | withClock clock _ ih => exact ih

/-- What an evaluator relies on at a moment: it meets no operator that it does not know. -/
structure Moment.Sound (q : Moment) : Prop where
  code : ∀ c, q.task = .code c → ∀ c', c.Within c' → c'.Sound
  stored : ∀ id decl scope, q.machine.Holds (.function (.closure id decl scope)) →
    ∀ c, Code.Within (.stmt (.funDecl decl.name decl.params decl.body)) c → c.Sound
  unary : ∀ op e, q.task = .code (.expr (.unary op e)) → op.kind = .bang ∨ op.kind = .minus
  logical : ∀ a op b, q.task = .code (.expr (.logical a op b)) →
    op.kind = .kwAnd ∨ op.kind = .kwOr
  /-- An operator between two values wants numbers only where it should, and faults only where one
  of the values is no number. -/
  binary : ∀ a op b, q.task = .code (.expr (.binary a op b)) → op.kind ∈ binaryKinds ∧
    ∀ v w n o, a.eval (Function.apply q.fuel) q.machine = .ok v n →
      b.eval (Function.apply q.fuel) n = .ok w o →
      ((Expr.binary a op b).eval (Function.apply q.fuel) q.machine =
          .error (.fault (.atToken op .operandNotNumber)) o ↔
        op.kind ∉ [Kind.plus, .equalEqual, .bangEqual] ∧ ¬ (v.IsNumber ∧ w.IsNumber))

theorem eval_binary {call : Caller} {a b : Expr} {op : Token} {m n o : Machine} {v w : Value}
    (left : a.eval call m = .ok v n) (right : b.eval call n = .ok w o) :
    (Expr.binary a op b).eval call m = Eval.pin op (v.binary op.kind w) o := by
  simp only [Expr.eval]
  change EStateM.bind _ _ _ = _
  rw [EStateM.bind, left]
  change EStateM.bind _ _ _ = _
  rw [EStateM.bind, right]

theorem pin_eq_fault_iff {t : Token} {r : Except Cause Value} {cause : Cause} {m : Machine} :
    Eval.pin t r m = .error (.fault (.atToken t cause)) m ↔ r = .error cause := by
  cases r with
  | ok v =>
    constructor
    · intro never
      cases never
    · intro never
      cases never
  | error other =>
    constructor
    · intro same
      cases same
      rfl
    · rintro ⟨⟩
      rfl

theorem Moment.sound_of_task {q : Moment} (ready : formed.machine q.machine)
    (task : formed.task q.depth q.machine q.task) : q.Sound := by
  have code (c : Code) (same : q.task = .code c) : WellFormed c := by
    rw [same] at task
    exact task
  refine ⟨fun c same c' within => ((code c same).within within).sound, ?_, ?_, ?_, ?_⟩
  · rintro id decl scope ⟨e, c, x, found, member⟩ c' within
    exact ((ready e c found _ member id decl scope rfl).within within).sound
  · intro op e same
    exact (code _ same).sound.1
  · intro a op b same
    exact (code _ same).sound.1
  · intro a op b same
    have known : op.kind ∈ binaryKinds := (code _ same).sound.1
    refine ⟨known, ?_⟩
    intro v w n o left right
    rw [eval_binary left right, pin_eq_fault_iff]
    exact Value.binary_operandNotNumber_iff known v w

/-- Every node of every tree recovered from any tokens is sound, so that at every moment of every
run in every session the evaluator knows the operators it meets. -/
theorem recovered_trees_are_sound :
    (∀ (tokens : List Token) (c : Code), Code.Within (.stmts (parse tokens).statements) c →
      c.Sound ∧ ∀ e, c = .expr e → ∀ o ∈ e.operands, ∀ name value, o ≠ .assign name value) ∧
    ∀ (programs : List (List Stmt)) (x : Session), Session.Reached programs x →
      ∀ (fuel : Nat) (source : String) (q : Moment),
        Moment.During ⟨fuel, 0, .program (parseSource source).statements, x.machine⟩ q →
        q.Sound := by
  constructor
  · intro tokens c within
    have sound := ((parse_wellFormed tokens).within within).sound
    refine ⟨sound, ?_⟩
    rintro e rfl o member name value
    exact Expr.Sound.operand_ne_assign sound member name value
  · intro programs x reached fuel source q during
    have code : formed.task 0 x.machine (.program (parseSource source).statements) :=
      parseSource_wellFormed source
    obtain ⟨ready, task⟩ := Discipline.during during reached.formed code
    exact Moment.sound_of_task ready task

end Treewalk
