import Treewalk.Proofs.CallScopes
import Treewalk.Proofs.Confinement

namespace Treewalk

namespace Machine

def Reach (m : Machine) (vs : List Value) : ScopeId → Prop :=
  m.store.Reach fun d => d = m.current ∨ ∃ v ∈ vs, v.captured? = some d

def Owns (m : Machine) (vs : List Value) : Prop :=
  ∀ v ∈ vs, v.InStore m.store ∧ v.CountedIn m.store

/-- `m'` has what is reached in `m`, and the same sink and clock. -/
structure AgreesOn (vs : List Value) (m m' : Machine) : Prop where
  scopes : ∀ d, m.Reach vs d → m'.store.scopes[d]? = m.store.scopes[d]?
  counted : ∀ d c, m.Reach vs d → m.store.scopes[d]? = some c →
    ∀ b ∈ c.bindings, b.2.CountedIn m'.store
  given : ∀ v ∈ vs, v.CountedIn m'.store
  current : m'.current = m.current
  sink : m'.sink = m.sink
  clock : m'.clock = m.clock

variable {m m' : Machine} {vs : List Value} {d : ScopeId}

theorem Reach.lt_size (reach : m.Reach vs d) (heap : m.Heap) (owns : m.Owns vs) :
    d < m.store.scopes.size := by
  refine Store.Reach.lt_size reach heap.formed ?_
  rintro d (rfl | ⟨v, member, carries⟩)
  · exact heap.current
  · exact (owns v member).1.captured carries

theorem AgreesOn.refl (heap : m.Heap) (owns : m.Owns vs) : m.AgreesOn vs m where
  scopes _ _ := rfl
  counted d c _ found := heap.counted d c found
  given v member := (owns v member).2
  current := rfl
  sink := rfl
  clock := rfl

def AgreesOn.overlap (agree : m.AgreesOn vs m') (heap : m.Heap) (owns : m.Owns vs) : Overlap where
  left := m.store
  right := m'.store
  part := m.Reach vs
  left_lt _ reach := reach.lt_size heap owns
  right_lt d reach := by
    have found := agree.scopes d reach
    rw [Array.getElem?_eq_getElem (reach.lt_size heap owns)] at found
    exact Store.lt_size found

theorem AgreesOn.linked (agree : m.AgreesOn vs m') (heap : m.Heap) (owns : m.Owns vs) :
    (agree.overlap heap owns).Linked m m' := by
  have part : ∀ d c, (agree.overlap heap owns).Known d → m.store.scopes[d]? = some c →
      m.Reach vs d := fun d c known found => known (Store.lt_size found)
  have here : m.Reach vs m.current := .root (.inl rfl)
  refine ⟨⟨Nat.le_refl _, ?_, Nat.le_refl _, ?_, ?_, ?_, ?_, ?_, ?_⟩, fun _ => here, ?_,
    agree.sink, agree.clock⟩
  · exact (shift_start _ _).symm
  · exact (shift_start _ _).symm
  · intro d known
    rcases Nat.lt_or_ge d m.store.scopes.size with old | new
    · have found := Array.getElem?_eq_getElem old
      have same : (agree.overlap heap owns).scope d = d := Renumbering.scope_of_lt old
      rw [same, agree.scopes d (known old), found, Option.map_some]
      exact congrArg some (Renumbering.contents_of_old heap.formed heap.counted found).symm
    · have same : (agree.overlap heap owns).scope d =
          m'.store.scopes.size + (d - m.store.scopes.size) := shift_of_le new
      rw [same, Array.getElem?_eq_none new, Array.getElem?_eq_none (Nat.le_add_right _ _)]
      rfl
  · intro d c known found p up
    exact fun _ => .link (part d c known found) found (.inl up)
  · intro d c known found b member
    have reach := part d c known found
    refine ⟨fun e carries _ => .link reach found (.inr ⟨b, member, carries⟩), ?_⟩
    intro f same _
    exact agree.counted d c reach found b member f same
  · exact fun _ _ _ => rfl
  · exact fun _ _ _ => rfl
  · rw [agree.current]
    exact (Renumbering.scope_of_lt heap.current).symm

theorem AgreesOn.knows (agree : m.AgreesOn vs m') (heap : m.Heap) (owns : m.Owns vs) {v : Value}
    (member : v ∈ vs) : (agree.overlap heap owns).Knows v where
  captured _ carries _ := .root (.inr ⟨v, member, carries⟩)
  counted f same _ := agree.given v member f same

def Within (vs : List Value) (m n : Machine) (d : ScopeId) : Prop :=
  m.Reach vs d ∨ m.store.scopes.size ≤ d ∧ d < n.store.scopes.size

end Machine

/-- The machines `n` and `n'` have the same output, and the same in `K` and in new scopes, up to the
numbers of what is new. -/
structure Renumbering.Same (r : Renumbering) (K : ScopeId → Prop) (n n' : Machine) : Prop where
  sink : n'.sink = n.sink
  clock : n'.clock = n.clock
  shared : ∀ d, K d → n'.store.scopes[d]? = n.store.scopes[d]?.map r.contents
  made : ∀ d, r.left.scopes.size ≤ d →
    n'.store.scopes[r.scope d]? = n.store.scopes[d]?.map r.contents

/-- What it means that an action touches only what it can reach. `carried` is the value in a result,
and `rename` the result with other numbers for what is new. -/
structure Confined {α : Type} (vs : List Value) (carried : α → Value)
    (rename : Renumbering → α → α) (x : Eval α) (m : Machine) : Prop where
  untouched : ∀ d < m.store.scopes.size, ¬ m.Reach vs d →
    (x.final m).store.scopes[d]? = m.store.scopes[d]?
  result : ∀ a n, x m = .ok a n → ∀ d, (carried a).captured? = some d → m.Within vs n d
  scopes : ∀ d c, m.Within vs (x.final m) d → (x.final m).store.scopes[d]? = some c →
    ∀ p, c.Refers p → m.Within vs (x.final m) p
  ends : ∀ m', m.AgreesOn vs m' → ∀ a n, x m = .ok a n →
    ∃ n', x m' = .ok (rename ⟨m.store, m'.store⟩ a) n' ∧
      Renumbering.Same ⟨m.store, m'.store⟩ (m.Reach vs) n n'
  halts : ∀ m', m.AgreesOn vs m' → ∀ h n, x m = .error h n →
    ∃ n', x m' = .error h n' ∧ Renumbering.Same ⟨m.store, m'.store⟩ (m.Reach vs) n n'

section Confined

variable {α : Type} {m m' n n' : Machine} {vs : List Value} {carried : α → Value}
  {rename : Renumbering → α → α} {x : Eval α} {d : ScopeId}

theorem Overlap.Linked.same {o : Overlap} (linked : o.Linked n n') :
    o.toRenumbering.Same o.part n n' where
  sink := linked.sink
  clock := linked.clock
  shared d part := by
    have known : o.Known d := fun _ => part
    rw [← linked.store.scopes d known, Renumbering.scope_of_lt (o.left_lt d part)]
  made d new := linked.store.scopes d (known_of_le new)

theorem Overlap.Runs.final {o : Overlap} {good : α → Prop} {move : α → α} {x y : Eval α}
    (runs : o.Runs good move x y) (linked : o.Linked m m') :
    o.Linked (x.final m) (y.final m') := by
  have ended := runs m m' linked
  cases result : x m with
  | ok a n =>
    rw [result] at ended
    obtain ⟨-, n', result', after⟩ := ended
    rw [Eval.final_ok result, Eval.final_ok result']
    exact after
  | error h n =>
    rw [result] at ended
    obtain ⟨n', result', after⟩ := ended
    rw [Eval.final_error result, Eval.final_error result']
    exact after

theorem confined_of_runs (heap : m.Heap) (owns : m.Owns vs)
    (obeys : heaped.Obeys (fun n a => heaped.value n (carried a)) x m)
    (runs : ∀ m' (agree : m.AgreesOn vs m'),
      (agree.overlap heap owns).Runs (fun a => (agree.overlap heap owns).Knows (carried a))
        (rename ⟨m.store, m'.store⟩) x x) : Confined vs carried rename x m := by
  -- Run beside itself, the action shows what it keeps to; beside another machine, that it goes the
  -- same way there.
  have self := Machine.AgreesOn.refl heap owns
  have linked := self.linked heap owns
  have final := (runs m self).final linked
  have heap' : (x.final m).Heap := obeys.final.1
  have within {n : Machine} {d : ScopeId} (known : (self.overlap heap owns).Known d)
      (bound : d < n.store.scopes.size) : m.Within vs n d := by
    rcases Nat.lt_or_ge d m.store.scopes.size with old | new
    · exact .inl (known old)
    · exact .inr ⟨new, bound⟩
  constructor
  · exact final.store.untouched
  · intro a n result d carries
    have ended := runs m self m m linked
    rw [result] at ended
    exact within (ended.1.captured d carries) ((obeys.of_ok result).2.2.1.captured carries)
  · intro d c inside found p refers
    have known : (self.overlap heap owns).Known d := by
      rcases inside with reach | ⟨new, -⟩
      · exact fun _ => reach
      · exact Overlap.known_of_le new
    refine within ?_ (heap'.formed.refers found refers)
    rcases refers with up | ⟨b, member, carries⟩
    · exact final.store.parents d c known found p up
    · exact (final.store.values d c known found b member).captured p carries
  · intro m' agree a n result
    have ended := runs m' agree m m' (agree.linked heap owns)
    rw [result] at ended
    obtain ⟨-, n', result', after⟩ := ended
    exact ⟨n', result', after.same⟩
  · intro m' agree h n result
    have ended := runs m' agree m m' (agree.linked heap owns)
    rw [result] at ended
    obtain ⟨n', result', after⟩ := ended
    exact ⟨n', result', after.same⟩

theorem eval_confined (heap : m.Heap) (owns : m.Owns vs) (fuel : Nat) (e : Expr) :
    Confined vs id Renumbering.value (e.eval (Function.apply fuel)) m :=
  confined_of_runs heap owns
    (Discipline.eval_obeys (d := 0) (heaped.apply_obeys fuel) e heap trivial)
    fun _ _ => Overlap.eval_runs (Overlap.apply_runs _ fuel) e

theorem exec_confined (heap : m.Heap) (owns : m.Owns vs) (fuel : Nat) (s : Stmt) :
    Confined vs Flow.result Renumbering.flow (s.exec (Function.apply fuel) fuel) m :=
  confined_of_runs heap owns
    (Discipline.exec_obeys (heaped.apply_obeys fuel) fuel (d := 0) s heap trivial)
    fun _ _ => Overlap.exec_runs (Overlap.apply_runs _ fuel) fuel s

theorem execAll_confined (heap : m.Heap) (owns : m.Owns vs) (fuel : Nat) (ss : List Stmt) :
    Confined vs Flow.result Renumbering.flow (Stmt.execAll (Function.apply fuel) fuel ss) m :=
  confined_of_runs heap owns
    (Discipline.execAll_obeys (heaped.apply_obeys fuel) fuel (d := 0) ss heap trivial)
    fun _ _ => Overlap.execAll_runs (Overlap.apply_runs _ fuel) fuel ss

theorem apply_confined {f : Function} {args : List Value} (fuel : Nat) (heap : m.Heap)
    (owns : m.Owns (.function f :: args)) :
    Confined (.function f :: args) id Renumbering.value (f.apply fuel args) m := by
  have callee := owns _ List.mem_cons_self
  have given : ∀ v ∈ args, heaped.value m v := fun v member => owns v (List.mem_cons_of_mem _ member)
  refine confined_of_runs heap owns (heaped.apply_obeys fuel m f args heap callee given) ?_
  intro m' agree
  have runs := Overlap.apply_runs (agree.overlap heap owns) fuel f args
    (agree.knows heap owns List.mem_cons_self)
    fun v member => agree.knows heap owns (List.mem_cons_of_mem _ member)
  have same : (agree.overlap heap owns).function f = f := by
    have whole : (agree.overlap heap owns).value (.function f) = .function f :=
      Renumbering.value_of_old callee.1 callee.2
    exact Value.function.inj whole
  have each : ∀ v ∈ args, (agree.overlap heap owns).value v = v := fun v member =>
    Renumbering.value_of_old (given v member).1 (given v member).2
  rw [same, List.map_congr_left each, List.map_id'] at runs
  exact runs

end Confined

def Machine.withScope (d : ScopeId) (c : Scope) (m : Machine) : Machine :=
  { m with store := { m.store with scopes := m.store.scopes.setIfInBounds d c } }

section OutOfReach

variable {m n n' : Machine} {vs : List Value} {d : ScopeId} {c : Scope}

theorem Machine.AgreesOn.withScope (heap : m.Heap) (owns : m.Owns vs) (apart : ¬ m.Reach vs d) :
    m.AgreesOn vs (m.withScope d c) where
  scopes e reach := by
    have other : d ≠ e := by
      rintro rfl
      exact apart reach
    exact Array.getElem?_setIfInBounds_ne other
  counted e c' _ found := heap.counted e c' found
  given v member := (owns v member).2
  current := rfl
  sink := rfl
  clock := rfl

theorem Machine.eq_withScope (heap : m.Heap) (owns : m.Owns vs) (apart : ¬ m.Reach vs d)
    (bound : d < m.store.scopes.size)
    (linked : ((AgreesOn.withScope (c := c) heap owns apart).overlap heap owns).Linked n n')
    (globals : n'.globals = n.globals) : n' = n.withScope d c := by
  have trivial : Renumbering.Trivial ⟨m.store, (m.withScope d c).store⟩ :=
    ⟨Array.size_setIfInBounds, rfl⟩
  have scopes : n'.store.scopes = n.store.scopes.setIfInBounds d c := by
    apply Array.ext_getElem?
    intro e
    have untouched' := linked.store.untouched' e
    by_cases same : d = e
    · -- Neither run touches `d`, which the two machines do not share.
      subst same
      have bound' : d < (m.withScope d c).store.scopes.size := by
        rw [trivial.scopes]
        exact bound
      rw [untouched' bound' apart]
      exact (Array.getElem?_setIfInBounds_self_of_lt bound).trans
        (Array.getElem?_setIfInBounds_self_of_lt
          (Nat.lt_of_lt_of_le bound linked.store.size_le)).symm
    · rw [Array.getElem?_setIfInBounds_ne same]
      by_cases known : e < m.store.scopes.size → m.Reach vs e
      · exact linked.store.getElem?_of_trivial trivial known
      · obtain ⟨old, out⟩ := Classical.not_imp.mp known
        have old' : e < (m.withScope d c).store.scopes.size := by
          rw [trivial.scopes]
          exact old
        rw [untouched' old' out, linked.store.untouched e old out]
        exact Array.getElem?_setIfInBounds_ne same
  have functions : n'.store.functions = n.store.functions :=
    linked.store.functions.trans (trivial.id _)
  have current : n'.current = n.current := linked.current.trans (trivial.scope _)
  have store : n'.store = ⟨n.store.scopes.setIfInBounds d c, n.store.functions⟩ := by
    rw [← scopes, ← functions]
  calc n' = ⟨n'.store, n'.globals, n'.current, n'.sink, n'.clock⟩ := rfl
    _ = n.withScope d c := by rw [store, globals, current, linked.sink, linked.clock]; rfl

variable {α : Type} {x : Eval α}

theorem run_withScope {good : α → Prop} {move : α → α} (heap : m.Heap) (owns : m.Owns vs)
    (apart : ¬ m.Reach vs d) (bound : d < m.store.scopes.size)
    (runs : ((Machine.AgreesOn.withScope (c := c) heap owns apart).overlap heap owns).Runs
      good move x x)
    (same : ∀ a, move a = a) (keeps : ∀ m : Machine, m.Keeps (x.final m)) :
    x (m.withScope d c) = onFinal (Machine.withScope d c) (x m) := by
  have linked := (Machine.AgreesOn.withScope (c := c) heap owns apart).linked heap owns
  have ended := runs _ _ linked
  have globals : (x.final (m.withScope d c)).globals = (x.final m).globals :=
    (keeps _).globals.trans (keeps m).globals.symm
  have final := Machine.eq_withScope heap owns apart bound (runs.final linked) globals
  cases result : x m with
  | ok a n =>
    rw [result] at ended
    obtain ⟨-, n', result', -⟩ := ended
    rw [Eval.final_ok result, Eval.final_ok result'] at final
    rw [result', same, final, onFinal]
  | error h n =>
    rw [result] at ended
    obtain ⟨n', result', -⟩ := ended
    rw [Eval.final_error result, Eval.final_error result'] at final
    rw [result', final, onFinal]

theorem execAll_withScope (heap : m.Heap) (owns : m.Owns vs) (apart : ¬ m.Reach vs d)
    (bound : d < m.store.scopes.size) (fuel : Nat) (ss : List Stmt) :
    Stmt.execAll (Function.apply fuel) fuel ss (m.withScope d c) =
      onFinal (Machine.withScope d c) (Stmt.execAll (Function.apply fuel) fuel ss m) := by
  have trivial : Renumbering.Trivial ⟨m.store, (m.withScope d c).store⟩ :=
    ⟨Array.size_setIfInBounds, rfl⟩
  exact run_withScope heap owns apart bound
    (Overlap.execAll_runs (Overlap.apply_runs _ fuel) fuel ss) trivial.flow
    fun m => execAll_keeps fuel m fuel ss

theorem Confined.stays_apart {carried : α → Value} {rename : Renumbering → α → α} {a : α}
    (confined : Confined vs carried rename x m) (keeps : m.Keeps (x.final m))
    (result : x m = .ok a n) (bound : d < m.store.scopes.size) (apart : ¬ m.Reach vs d) :
    ¬ n.Reach (carried a :: vs) d := by
  have final := Eval.final_ok result
  intro reach
  -- The scopes that were in reach and the new ones lead only to one another.
  have within : m.Within vs n d := by
    refine reach.least ?_ ?_
    · rintro e (rfl | ⟨v, member, carries⟩)
      · rw [← final, keeps.current]
        exact .inl (.root (.inl rfl))
      · rcases List.mem_cons.mp member with rfl | member
        · exact confined.result a n result e carries
        · exact .inl (.root (.inr ⟨v, member, carries⟩))
    · intro e c p inside found refers
      rw [← final] at inside found ⊢
      exact confined.scopes e c inside found p refers
  rcases within with reach | ⟨new, -⟩
  · exact apart reach
  · exact absurd bound (Nat.not_lt.mpr new)

end OutOfReach

/-- Values that a program can get at: those in hand, and those bound in what it reaches. -/
def Machine.Gets (m : Machine) (vs : List Value) (v : Value) : Prop :=
  v ∈ vs ∨ ∃ e c x, m.Reach vs e ∧ m.store.scopes[e]? = some c ∧ (x, v) ∈ c.bindings

theorem Machine.Reach.onChain {m : Machine} {vs : List Value} {d : ScopeId} (reach : m.Reach vs d) :
    m.store.OnChain m.current d ∨
      ∃ v e, m.Gets vs v ∧ v.captured? = some e ∧ m.store.OnChain e d := by
  induction reach with
  | root start =>
    rcases start with rfl | ⟨v, member, carries⟩
    · exact .inl .refl
    · exact .inr ⟨v, _, .inl member, carries, .refl⟩
  | @link e d c reach found refers ih =>
    rcases refers with parent | ⟨b, member, carries⟩
    · have up : m.store.OnChain e d := .up ((Store.parent?_of_getElem found).trans parent) .refl
      rcases ih with on | ⟨v, e', gets, carries, on⟩
      · exact .inl (on.trans up)
      · exact .inr ⟨v, e', gets, carries, on.trans up⟩
    · exact .inr ⟨b.2, d, .inr ⟨e, c, b.1, reach, found, member⟩, carries, .refl⟩

/-- What is run from `n` on, with the values `vs` in hand, has nothing to do with `d`. -/
structure Machine.Lost (vs : List Value) (n : Machine) (d : ScopeId) : Prop where
  unchanged : ∀ fuel ss,
    ((Stmt.execAll (Function.apply fuel) fuel ss).final n).store.scopes[d]? = n.store.scopes[d]?
  unread : ∀ fuel ss c, Stmt.execAll (Function.apply fuel) fuel ss (n.withScope d c) =
    onFinal (Machine.withScope d c) (Stmt.execAll (Function.apply fuel) fuel ss n)
  apart : ∀ fuel ss flow o, Stmt.execAll (Function.apply fuel) fuel ss n = .ok flow o →
    ¬ o.Reach (flow.result :: vs) d

theorem Machine.Heap.lost {n : Machine} {vs : List Value} {d : ScopeId} (heap : n.Heap)
    (owns : n.Owns vs) (bound : d < n.store.scopes.size) (apart : ¬ n.Reach vs d) :
    n.Lost vs d where
  unchanged fuel ss := (execAll_confined heap owns fuel ss).untouched d bound apart
  unread fuel ss _ := execAll_withScope heap owns apart bound fuel ss
  apart fuel ss _ _ result :=
    (execAll_confined heap owns fuel ss).stays_apart (execAll_keeps fuel n fuel ss) result bound apart

/-- Programs touch only what they can reach. So the locals of a block that no function in reach has
captured are lost when the block ends, and the functions made in separate calls of a function have
in common what is around that function. -/
theorem runs_stay_within_reach :
    (∀ (programs : List (List Stmt)) (x : Session), Session.Reached programs x →
      x.machine.Heap) ∧
    (∀ (m : Machine) (fuel : Nat), m.Heap →
      (∀ e : Expr, Confined [] id Renumbering.value (e.eval (Function.apply fuel)) m) ∧
      (∀ s : Stmt, Confined [] Flow.result Renumbering.flow (s.exec (Function.apply fuel) fuel) m) ∧
      ∀ (f : Function) (args : List Value), m.Owns (.function f :: args) →
        Confined (.function f :: args) id Renumbering.value (f.apply fuel args) m) ∧
    (∀ (m n : Machine) (fuel : Nat) (body : List Stmt) (vs : List Value) (d : ScopeId), m.Heap →
      ((Stmt.block body).exec (Function.apply fuel) fuel).final m = n → n.Owns vs →
      m.store.scopes.size ≤ d → d < n.store.scopes.size →
      (∀ v e, n.Gets vs v → v.captured? = some e → ¬ n.store.OnChain e d) → n.Lost vs d) ∧
    ∀ (k k' : Nat) (decl : FunDecl) (c : ScopeId) (args args' : List Value) (m m' n : Machine)
      (q q' : Moment) (v v' : Value) (e e' : ScopeId), n.Heap →
      Later (m.enter c (decl.bind args)) m' →
      (Moment.ofCall k decl c args m).Directly q →
      (Moment.ofCall k' decl c args' m').Directly q' →
      Later q.machine n → Later q'.machine n → q.Makes v → q'.Makes v' →
      v.captured? = some e → v'.captured? = some e' →
      ¬ n.store.OnChain e m'.store.scopes.size ∧ ¬ n.store.OnChain e' m.store.scopes.size ∧
      ∀ h, n.store.OnChain e h → n.store.OnChain e' h → n.store.OnChain c h := by
  refine ⟨fun _ _ reached => reached.heap, fun m fuel heap => ?_, ?_, ?_⟩
  · have owns : m.Owns [] := fun v member => absurd member List.not_mem_nil
    exact ⟨eval_confined heap owns fuel, exec_confined heap owns fuel,
      fun f args => apply_confined fuel heap⟩
  · intro m n fuel body vs d heap ended owns new bound free
    have calls := heaped.apply_obeys fuel
    have obeys := Discipline.exec_obeys calls fuel (d := 0) (.block body) heap trivial
    have kept := exec_keeps fuel m fuel (.block body)
    have heap' : n.Heap := ended ▸ obeys.final.1
    rw [ended] at kept
    refine heap'.lost owns bound fun reach => ?_
    rcases reach.onChain with on | ⟨v, e, gets, carries, on⟩
    · rw [kept.current] at on
      exact absurd heap.current (Nat.not_lt.mpr (Nat.le_trans new (heap'.formed.onChain_le on)))
    · exact free v e gets carries on
  · intro k k' decl c args args' m m' n q q' v v' e e' heap
    exact calls_meet heap.formed

/-- Every function that a run makes is made in a call, or outside all calls, as a moment there
makes it. -/
theorem functions_are_made_in_calls {start : Moment} {i : Nat}
    (old : start.machine.store.functions ≤ i)
    (new : i < ((start.task.run start.fuel).final start.machine).store.functions) :
    ∃ q f, q.Makes (.function f) ∧ f.id = i ∧
      (start.Directly q ∨ ∃ k decl scope args m,
        start.During (Moment.ofCall k decl scope args m) ∧
        (Moment.ofCall k decl scope args m).Directly q) := by
  obtain ⟨q, f, during, makes, same⟩ := (making start).task .start i old new
  exact ⟨q, f, makes, same, during.directly⟩

end Treewalk
