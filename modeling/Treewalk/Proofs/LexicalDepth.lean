import Treewalk.Proofs.Accounts
import Treewalk.Proofs.Disciplines
import Treewalk.Session

namespace Treewalk

def Occurs (programs : List (List Stmt)) (d : Nat) (s : Stmt) : Prop :=
  ∃ p ∈ programs, AtDepth p d s

/-- A closure has a scope that is as deep as its declaration in one of the programs. -/
def Value.Lexical (programs : List (List Stmt)) (s : Store) (v : Value) : Prop :=
  ∀ id decl scope, v = .function (.closure id decl scope) → scope < s.scopes.size ∧
    Occurs programs (s.depth scope) (.funDecl decl.name decl.params decl.body)

structure Store.Lexical (programs : List (List Stmt)) (s : Store) : Prop where
  parents : ∀ (e : ScopeId) (c : Scope), s.scopes[e]? = some c → ∀ p, c.parent = some p → p < e
  values : ∀ (e : ScopeId) (c : Scope), s.scopes[e]? = some c → ∀ b ∈ c.bindings,
    b.2.Lexical programs s

structure Machine.Lexical (programs : List (List Stmt)) (m : Machine) : Prop where
  store : m.store.Lexical programs
  current : m.current < m.store.scopes.size

def Code.Stands (programs : List (List Stmt)) (d : Nat) : Code → Prop
  | .stmt s => Occurs programs d s
  | .stmts ss => ∀ s ∈ ss, Occurs programs d s
  | .expr _ | .exprs _ => True

variable {programs : List (List Stmt)} {s s' : Store} {m n : Machine} {d : Nat}

theorem Value.Plain.lexical {v : Value} (plain : v.Plain) : v.Lexical programs s :=
  fun _ _ _ same => absurd same (plain _)

theorem Value.Lexical.extend {v : Value} (lexical : v.Lexical programs s)
    (extended : s.Extends s') :
    v.Lexical programs s' := by
  intro id decl scope same
  obtain ⟨bound, occurs⟩ := lexical id decl scope same
  rw [← extended.depth bound] at occurs
  exact ⟨Nat.lt_of_lt_of_le bound extended.size, occurs⟩

namespace Store.Lexical

theorem found (lexical : s.Lexical programs) {e h : ScopeId} {x : String} {v : Value}
    (result : s.find? e x = some (h, v)) : v.Lexical programs s := by
  obtain ⟨c, found, member⟩ := find?_mem result
  exact lexical.values h c found _ member

theorem define (lexical : s.Lexical programs) (e : ScopeId) (x : String) {v : Value}
    (value : v.Lexical programs s) : (s.define e x v).Lexical programs := by
  have extended := Extends.define s e x v
  constructor
  · intro d c found p parent
    rw [getElem?_define] at found
    split at found
    · obtain ⟨c', found', rfl⟩ := Option.map_eq_some_iff.mp found
      exact lexical.parents d c' found' p parent
    · exact lexical.parents d c found p parent
  · intro d c found b member
    rw [getElem?_define] at found
    split at found
    · obtain ⟨c', found', rfl⟩ := Option.map_eq_some_iff.mp found
      rcases mem_setBinding member with rfl | member
      · exact value.extend extended
      · exact (lexical.values d c' found' b member).extend extended
    · exact (lexical.values d c found b member).extend extended

theorem add (lexical : s.Lexical programs) {bs : List (String × Value)} {p : ScopeId}
    (bound : p < s.scopes.size) (bindings : ∀ b ∈ bs, b.2.Lexical programs s) :
    (s.add ⟨bs, some p⟩).2.Lexical programs := by
  have extended := Extends.add s ⟨bs, some p⟩
  constructor
  · intro d c found q parent
    rw [getElem?_add] at found
    split at found
    · rename_i here
      cases found
      cases parent
      rw [here]
      exact bound
    · exact lexical.parents d c found q parent
  · intro d c found b member
    rw [getElem?_add] at found
    split at found
    · cases found
      exact (bindings b member).extend extended
    · exact (lexical.values d c found b member).extend extended

theorem closure (lexical : s.Lexical programs) (decl : FunDecl) (e : ScopeId) :
    (s.closure decl e).2.Lexical programs :=
  ⟨lexical.parents, fun d c found b member =>
    (lexical.values d c found b member).extend (.closure s decl e)⟩

end Store.Lexical

theorem mem_bind {decl : FunDecl} {args : List Value} {b : String × Value}
    (member : b ∈ decl.bind args) : b.2 ∈ args := by
  have inside : ∀ (pairs : List (Token × Value)) (bs : List (String × Value)),
      b ∈ pairs.foldl (fun bindings pair => setBinding pair.1.lexeme pair.2 bindings) bs →
      b ∈ bs ∨ ∃ p ∈ pairs, b.2 = p.2 := by
    intro pairs
    induction pairs with
    | nil => exact fun _ member => .inl member
    | cons pair pairs ih =>
      intro bs member
      rcases ih _ member with earlier | ⟨p, later, same⟩
      · rcases mem_setBinding earlier with rfl | earlier
        · exact .inr ⟨pair, List.mem_cons_self, rfl⟩
        · exact .inl earlier
      · exact .inr ⟨p, List.mem_cons_of_mem _ later, same⟩
  rcases inside _ [] member with never | ⟨p, pair, same⟩
  · cases never
  · rw [same]
    exact (List.of_mem_zip pair).2

theorem Code.Stands.part {c c' : Code} (stands : c.Stands programs d) (part : c.Part c') :
    c'.Stands programs d := by
  cases part with
  | thenBranch =>
    obtain ⟨p, member, at_⟩ := stands
    exact ⟨p, member, .thenBranch at_⟩
  | elseBranch =>
    obtain ⟨p, member, at_⟩ := stands
    exact ⟨p, member, .elseBranch at_⟩
  | body =>
    obtain ⟨p, member, at_⟩ := stands
    exact ⟨p, member, .loopBody at_⟩
  | firstStmt => exact stands _ List.mem_cons_self
  | restStmts => exact fun s member => stands s (List.mem_cons_of_mem _ member)
  | _ => trivial

def lexical (programs : List (List Stmt)) : Discipline where
  machine := Machine.Lexical programs
  after m n := m.store.Extends n.store ∧ m.Keeps n
  value m v := v.Lexical programs m.store
  code d m c := m.store.depth m.current = d ∧ c.Stands programs d
  after_refl _ := ⟨.refl, .refl⟩
  after_trans first second := ⟨first.1.trans second.1, first.2.trans second.2⟩
  value_after _ after value := value.extend after.1
  code_after ready after code := by
    refine ⟨?_, code.2⟩
    rw [after.2.current, after.1.depth ready.current]
    exact code.1
  part code part := ⟨code.1, code.2.part part⟩
  plain := Value.Plain.lexical
  found ready result := ready.store.found result
  assigned {m x h u v} ready _ value := by
    have extended := Store.Extends.define m.store h x v
    exact ⟨⟨ready.store.define h x value, Nat.lt_of_lt_of_le ready.current extended.size⟩, extended,
      rfl, rfl⟩
  defined {_ m _ x v} ready _ _ value := by
    have extended := Store.Extends.define m.store m.current x v
    exact ⟨⟨ready.store.define m.current x value, Nat.lt_of_lt_of_le ready.current extended.size⟩,
      extended, rfl, rfl⟩
  closed {d m name params ss} ready code := by
    have extended := Store.Extends.closure m.store ⟨name, params, ss⟩ m.current
    refine ⟨⟨ready.store.closure ⟨name, params, ss⟩ m.current, ready.current⟩,
      ⟨extended, rfl, rfl⟩, ?_⟩
    rintro id decl scope ⟨⟩
    refine ⟨ready.current, ?_⟩
    rw [extended.depth ready.current, code.1]
    exact code.2
  block {d m ss} ready code := by
    obtain ⟨depth, p, member, stands⟩ := code
    have none : ∀ b ∈ ([] : List (String × Value)), b.2.Lexical programs m.store :=
      fun b member => absurd member List.not_mem_nil
    refine ⟨⟨ready.store.add ready.current none, ?_⟩, ?_,
      fun s inner => ⟨p, member, .block stands inner⟩⟩
    · simp only [Machine.enter, Store.add, Array.size_push, Nat.lt_succ_self]
    · rw [← depth]
      exact Store.depth_add ready.current
  body {m id decl scope args} ready function given := by
    obtain ⟨bound, p, member, stands⟩ := function id decl scope rfl
    refine ⟨⟨ready.store.add bound fun b member => given _ (mem_bind member), ?_⟩, ?_,
      fun s inner => ⟨p, member, .function stands inner⟩⟩
    · simp only [Machine.enter, Store.add, Array.size_push, Nat.lt_succ_self]
    · exact Store.depth_add bound
  left {m n p bs} ready ready' after := by
    have extended : m.store.Extends n.store :=
      (Store.Extends.add m.store ⟨bs, some p⟩).trans after.1
    exact ⟨⟨ready'.store, Nat.lt_of_lt_of_le ready.current extended.size⟩, extended, rfl,
      after.2.globals⟩
  value_left value := value
  printed _ ready := ⟨⟨ready.store, ready.current⟩, .refl, rfl, rfl⟩
  asked _ ready := ⟨⟨ready.store, ready.current⟩, .refl, rfl, rfl⟩

theorem Occurs.more {p : List Stmt} {x : Stmt} (occurs : Occurs programs d x) :
    Occurs (programs ++ [p]) d x := by
  obtain ⟨q, member, stands⟩ := occurs
  exact ⟨q, List.mem_append_left _ member, stands⟩

theorem Value.Lexical.more {p : List Stmt} {v : Value} (value : v.Lexical programs s) :
    v.Lexical (programs ++ [p]) s := by
  intro id decl scope same
  obtain ⟨bound, occurs⟩ := value id decl scope same
  exact ⟨bound, occurs.more⟩

theorem Machine.Lexical.more {p : List Stmt} (ready : m.Lexical programs) :
    m.Lexical (programs ++ [p]) :=
  ⟨⟨ready.store.parents, fun e c found b member => (ready.store.values e c found b member).more⟩,
    ready.current⟩

theorem Store.Lexical.wellFormed (lexical : s.Lexical programs) : s.WellFormed where
  parents := lexical.parents
  closures e c found _ id decl scope member :=
    (lexical.values e c found _ member id decl scope rfl).1

/-- The sessions that can come about, and the programs that ran in them. -/
inductive Session.Reached : List (List Stmt) → Session → Prop
  | start (sink : Sink) (clock : Clock) : Reached [] (.start sink clock)
  | ran {programs : List (List Stmt)} {s : Session} (fuel : Nat) (source : String) :
    Reached programs s → (parseSource source).errors = [] →
    Reached (programs ++ [(parseSource source).statements]) (s.run fuel source).2
  | refused {programs : List (List Stmt)} {s : Session} (fuel : Nat) (source : String) :
    Reached programs s → (parseSource source).errors ≠ [] → Reached programs (s.run fuel source).2
  | drained {programs : List (List Stmt)} {s : Session} :
    Reached programs s → Reached programs s.drain.2
  | withClock {programs : List (List Stmt)} {s : Session} (clock : Clock) :
    Reached programs s → Reached programs (s.withClock clock)

/-- Between runs a session is in the outermost scope. -/
structure Session.Rests (programs : List (List Stmt)) (s : Session) : Prop where
  lexical : s.machine.Lexical programs
  depth : s.machine.store.depth s.machine.current = 0
  globals : s.machine.globals < s.machine.store.scopes.size

namespace Session

variable {x : Session}

theorem start_rests (sink : Sink) (clock : Clock) : (Session.start sink clock).Rests [] := by
  have only (e : ScopeId) (c : Scope)
      (found : (Machine.start sink clock).store.scopes[e]? = some c) :
      c = ⟨[(Native.clock.name, .function (.native 0 Native.clock))], none⟩ := by
    rw [Machine.start_scopes] at found
    cases e with
    | zero => exact (Option.some.inj found).symm
    | succ e => cases found
  refine ⟨⟨⟨?_, ?_⟩, Nat.zero_lt_one⟩, ?_, Nat.zero_lt_one⟩
  · intro e c found p parent
    cases only e c found
    cases parent
  · intro e c found b member
    cases only e c found
    cases List.mem_singleton.mp member
    intro id decl scope same
    cases same
  · exact Store.depth_eq _ 0

theorem run_clean {fuel : Nat} {source : String} (clean : (parseSource source).errors = []) :
    (x.run fuel source).2.machine =
      (interpret fuel (parseSource source).statements).final x.machine := by
  simp only [run, clean, List.isEmpty_nil, if_true, Eval.final]
  cases interpret fuel (parseSource source).statements x.machine <;> rfl

theorem run_refused {fuel : Nat} {source : String} (errors : (parseSource source).errors ≠ []) :
    (x.run fuel source).2 = x := by
  unfold run
  have nonempty : (parseSource source).errors.isEmpty = false := by
    cases found : (parseSource source).errors with
    | nil => exact absurd found errors
    | cons e es => rfl
  simp only [nonempty, Bool.false_eq_true, if_false]

theorem Rests.program (rests : x.Rests programs) (p : List Stmt) :
    (Treewalk.lexical (programs ++ [p])).machine x.machine ∧
    (Treewalk.lexical (programs ++ [p])).code 0 x.machine (.stmts p) :=
  ⟨rests.lexical.more, rests.depth, fun _ member => ⟨p, by simp, .top member⟩⟩

theorem Rests.during (rests : x.Rests programs) {p : List Stmt} {fuel : Nat} {q : Moment}
    (during : Moment.During ⟨fuel, 0, .program p, x.machine⟩ q) :
    (Treewalk.lexical (programs ++ [p])).machine q.machine ∧
    (Treewalk.lexical (programs ++ [p])).task q.depth q.machine q.task := by
  obtain ⟨ready, code⟩ := rests.program p
  exact Discipline.during during ready code

theorem Reached.rests (reached : Reached programs x) : x.Rests programs := by
  induction reached with
  | start sink clock => exact start_rests sink clock
  | @ran programs x fuel source _ clean ih =>
    obtain ⟨ready, code⟩ := ih.program (parseSource source).statements
    have obeys := Discipline.interpret_obeys fuel _ ready code
    have back {n : Machine} (lexical : n.Lexical (programs ++ [(parseSource source).statements]))
        (extended : x.machine.store.Extends n.store) (kept : x.machine.Keeps n) :
        Rests (programs ++ [(parseSource source).statements]) ⟨n⟩ := by
      refine ⟨lexical, ?_, ?_⟩
      · rw [kept.current, extended.depth ih.lexical.current]
        exact ih.depth
      · rw [kept.globals]
        exact Nat.lt_of_lt_of_le ih.globals extended.size
    have ended : (x.run fuel source).2 = ⟨(x.run fuel source).2.machine⟩ := rfl
    rw [ended, run_clean clean]
    obtain ⟨lexical, extended, kept⟩ := obeys.final
    exact back lexical extended kept
  | refused fuel source _ errors ih =>
    rw [run_refused errors]
    exact ih
  | drained _ ih => exact ⟨⟨ih.lexical.store, ih.lexical.current⟩, ih.depth, ih.globals⟩
  | withClock clock _ ih => exact ⟨⟨ih.lexical.store, ih.lexical.current⟩, ih.depth, ih.globals⟩

theorem Reached.wellFormed (reached : Reached programs x) : x.machine.WellFormed :=
  ⟨reached.rests.lexical.store.wellFormed, reached.rests.globals, reached.rests.lexical.current⟩

end Session

def Machine.Holds (m : Machine) (v : Value) : Prop :=
  ∃ (e : ScopeId) (c : Scope) (x : String), m.store.scopes[e]? = some c ∧ (x, v) ∈ c.bindings

theorem Machine.Lexical.holds {v : Value} (ready : m.Lexical programs) (held : m.Holds v) :
    v.Lexical programs m.store := by
  obtain ⟨e, c, x, found, member⟩ := held
  exact ready.store.values e c found _ member

def ended : EStateM.Result Halt Machine (List Value) → Machine × List Value
  | .ok vs n => (n, vs)
  | .error _ n => (n, [])

structure Moment.Lexical (programs : List (List Stmt)) (q : Moment) : Prop where
  statement : ∀ s, q.task = .code (.stmt s) →
    Occurs programs q.depth s ∧ q.machine.store.depth q.machine.current = q.depth
  held : ∀ v, q.machine.Holds v → v.Lexical programs q.machine.store
  heldAfter : ∀ v, (ended (q.task.run q.fuel q.machine)).1.Holds v →
    v.Lexical programs (ended (q.task.run q.fuel q.machine)).1.store
  given : ∀ v ∈ (ended (q.task.run q.fuel q.machine)).2,
    v.Lexical programs (ended (q.task.run q.fuel q.machine)).1.store
  body : ∀ id decl scope args, q.task = .call (.closure id decl scope) args →
    ∃ d, Occurs programs d (.funDecl decl.name decl.params decl.body) ∧
      q.machine.store.depth scope = d ∧
      ∀ q', q.Next q' → q'.task = .code (.stmts decl.body) ∧ q'.depth = d + 1 ∧
        q'.machine.store.depth q'.machine.current = d + 1

theorem Discipline.Obeys.ended {D : Discipline} {x : Eval (List Value)}
    (obeys : D.Obeys (fun n vs => ∀ v ∈ vs, D.value n v) x m) :
    D.machine (ended (x m)).1 ∧ ∀ v ∈ (ended (x m)).2, D.value (ended (x m)).1 v := by
  unfold Obeys at obeys
  cases result : x m with
  | ok vs n =>
    rw [result] at obeys
    exact ⟨obeys.1, obeys.2.2⟩
  | error h n =>
    rw [result] at obeys
    exact ⟨obeys.1, fun v member => absurd member List.not_mem_nil⟩

theorem Moment.lexical_of_task {q : Moment} (ready : (lexical programs).machine q.machine)
    (task : (lexical programs).task q.depth q.machine q.task) : q.Lexical programs := by
  obtain ⟨after, given⟩ := (Discipline.run_obeys q.fuel q.task ready task).ended
  refine ⟨?_, fun v => ready.holds, fun v => after.holds, given, ?_⟩
  · intro s same
    rw [same] at task
    exact ⟨task.2, task.1⟩
  · intro id decl scope args same
    rw [same] at task
    obtain ⟨bound, occurs⟩ := task.1 id decl scope rfl
    refine ⟨_, occurs, rfl, ?_⟩
    intro q' step
    obtain ⟨k, d, t, m⟩ := q
    cases same
    cases step
    exact ⟨rfl, rfl, Store.depth_add bound⟩

/-- Scoping is lexical at every moment of every run in every session. -/
theorem scoping_is_lexical {x : Session} (reached : Session.Reached programs x) (fuel : Nat)
    (source : String) {q : Moment}
    (during : Moment.During ⟨fuel, 0, .program (parseSource source).statements, x.machine⟩ q) :
    q.Lexical (programs ++ [(parseSource source).statements]) := by
  obtain ⟨ready, task⟩ := reached.rests.during during
  exact Moment.lexical_of_task ready task

def declaringSource : String := "fun f() \x7b print f; \x7d"

theorem declaringSource_clean : (parseSource declaringSource).errors = [] := by decide +kernel

def nestedSource : String := "\x7b \x7b var x; \x7d \x7d"

def innerName : Token := { kind := .identifier, lexeme := "x", line := 1, span := ⟨8, 9⟩ }

theorem scoping_is_lexical_two_blocks :
    ∃ (x : Session) (q : Moment),
      Session.Reached [(parseSource declaringSource).statements] x ∧
      Moment.During ⟨3, 0, .program (parseSource nestedSource).statements, x.machine⟩ q ∧
      q.task = .code (.stmt (.varDecl innerName none)) ∧
      q.machine.store.depth q.machine.current = 2 ∧
      q.Lexical
        [(parseSource declaringSource).statements, (parseSource nestedSource).statements] := by
  have reached := (Session.Reached.start {} default).ran 3 declaringSource declaringSource_clean
  have tree : (parseSource nestedSource).statements =
      [.block [.block [.varDecl innerName none]]] := by with_unfolding_all rfl
  have inner (m : Machine) :
      Moment.During ⟨3, 0, .program (parseSource nestedSource).statements, m⟩
        ⟨3, 2, .code (.stmt (.varDecl innerName none)),
          (m.enter m.current []).enter (m.enter m.current []).current []⟩ := by
    rw [tree]
    exact .next (.next (.next (.next (.next .start .firstOfProgram) .block) .firstStmt) .block)
      .firstStmt
  have result := scoping_is_lexical reached 3 nestedSource (inner _)
  exact ⟨_, _, reached, inner _, rfl, (result.statement _ rfl).2, result⟩

/-- No function of a run is made outside its moments, so all are made where scoping is lexical. -/
theorem functions_are_made_lexically {x : Session} (reached : Session.Reached programs x)
    (fuel : Nat) (source : String) {i : Nat} (old : x.machine.store.functions ≤ i)
    (new : i <
      ((interpret fuel (parseSource source).statements).final x.machine).store.functions) :
    ∃ q f, Moment.During ⟨fuel, 0, .program (parseSource source).statements, x.machine⟩ q ∧
      q.Makes (.function f) ∧ f.id = i ∧
      q.Lexical (programs ++ [(parseSource source).statements]) := by
  have made := (making ⟨fuel, 0, .program (parseSource source).statements, x.machine⟩).task .start i
  simp only [Task.run, Eval.final_map] at made
  obtain ⟨q, f, during, makes, same⟩ := made old new
  obtain ⟨ready, task⟩ := reached.rests.during during
  exact ⟨q, f, during, makes, same, Moment.lexical_of_task ready task⟩

end Treewalk
