import Treewalk.Proofs.ScopeTree

namespace Treewalk

def Value.captured? : Value → Option ScopeId
  | function (.closure _ _ scope) => some scope
  | _ => none

/-- What a scope leads to: its parent, and the scope of every closure bound in it. -/
def Scope.Refers (c : Scope) (d : ScopeId) : Prop :=
  c.parent = some d ∨ ∃ b ∈ c.bindings, b.2.captured? = some d

inductive Store.Reach (s : Store) (roots : ScopeId → Prop) : ScopeId → Prop
  | root {d : ScopeId} : roots d → Reach s roots d
  | link {e d : ScopeId} {c : Scope} :
    Reach s roots e → s.scopes[e]? = some c → c.Refers d → Reach s roots d

namespace Value

def CountedIn (s : Store) (v : Value) : Prop := ∀ f, v = .function f → f.id < s.functions

variable {s s' : Store} {v : Value} {d : ScopeId}

theorem InStore.captured (inside : v.InStore s) (carries : v.captured? = some d) :
    d < s.scopes.size := by
  unfold captured? at carries
  split at carries
  · cases carries
    exact inside _ _ _ rfl
  · cases carries

theorem Plain.countedIn (plain : v.Plain) : v.CountedIn s := fun f same => absurd same (plain f)

theorem Plain.captured? (plain : v.Plain) : v.captured? = none := by
  cases v with
  | function f => exact absurd rfl (plain f)
  | _ => rfl

theorem CountedIn.mono (counted : v.CountedIn s) (le : s.functions ≤ s'.functions) :
    v.CountedIn s' := fun f same => Nat.lt_of_lt_of_le (counted f same) le

end Value

namespace Store

variable {s : Store} {roots : ScopeId → Prop} {e d : ScopeId} {c : Scope}

theorem All.imp {P Q : Value → Prop} (all : s.All P) (implies : ∀ v, P v → Q v) : s.All Q :=
  fun e c found b member => implies b.2 (all e c found b member)

theorem WellFormed.refers (formed : s.WellFormed) (found : s.scopes[e]? = some c)
    (refers : c.Refers d) : d < s.scopes.size := by
  rcases refers with parent | ⟨b, member, carries⟩
  · exact Nat.lt_trans (formed.parents e c found d parent) (lt_size found)
  · exact (formed.values e c found b member).captured carries

namespace Reach

theorem least {P : ScopeId → Prop} (reach : s.Reach roots d) (start : ∀ d, roots d → P d)
    (closed : ∀ e c d, P e → s.scopes[e]? = some c → c.Refers d → P d) : P d := by
  induction reach with
  | root holds => exact start _ holds
  | link _ found refers ih => exact closed _ _ _ ih found refers

theorem lt_size (reach : s.Reach roots d) (formed : s.WellFormed)
    (bound : ∀ d, roots d → d < s.scopes.size) : d < s.scopes.size :=
  reach.least bound fun _ _ _ _ found refers => formed.refers found refers

end Reach

end Store

namespace Machine

structure Heap (m : Machine) : Prop where
  formed : m.store.WellFormed
  counted : m.store.All (·.CountedIn m.store)
  current : m.current < m.store.scopes.size

end Machine

def heaped : Discipline where
  machine m := m.Heap
  after m n := m.store.Extends n.store ∧ m.store.functions ≤ n.store.functions
  value m v := v.InStore m.store ∧ v.CountedIn m.store
  code _ _ _ := True
  after_refl _ := ⟨.refl, Nat.le_refl _⟩
  after_trans first second := ⟨first.1.trans second.1, Nat.le_trans first.2 second.2⟩
  value_after _ after value := ⟨value.1.extend after.1, value.2.mono after.2⟩
  code_after _ _ _ := trivial
  part _ _ := trivial
  plain plain := ⟨plain.inStore, plain.countedIn⟩
  found ready result := ⟨ready.formed.found result, ready.counted.found result⟩
  assigned {m x h _ v} ready _ value := by
    have extended := Store.Extends.define m.store h x v
    exact ⟨⟨ready.formed.define h x value.1, ready.counted.define h x value.2,
      Nat.lt_of_lt_of_le ready.current extended.size⟩, extended, Nat.le_refl _⟩
  defined {_ m _ x v} ready _ _ value := by
    have extended := Store.Extends.define m.store m.current x v
    exact ⟨⟨ready.formed.define m.current x value.1, ready.counted.define m.current x value.2,
      Nat.lt_of_lt_of_le ready.current extended.size⟩, extended, Nat.le_refl _⟩
  closed {_ m name params ss} ready _ := by
    have counted : m.store.All (·.CountedIn (m.store.closure ⟨name, params, ss⟩ m.current).2) :=
      ready.counted.imp fun v counted => counted.mono (Nat.le_succ _)
    refine ⟨⟨⟨ready.formed.parents, ready.formed.closures⟩, counted, ready.current⟩,
      ⟨.closure m.store ⟨name, params, ss⟩ m.current, Nat.le_succ _⟩, ?_, ?_⟩
    · rintro id decl scope ⟨⟩
      exact ready.current
    · rintro f ⟨⟩
      exact Nat.lt_succ_self _
  block {_ m _} ready _ := by
    refine ⟨⟨ready.formed.add ready.current fun b member => absurd member List.not_mem_nil,
      ready.counted.add fun b member => absurd member List.not_mem_nil, ?_⟩, trivial⟩
    simp only [Machine.enter, Store.add, Array.size_push, Nat.lt_succ_self]
  body {m id decl scope args} ready function given := by
    have bound := function.1 id decl scope rfl
    refine ⟨⟨ready.formed.add bound fun b member => (given _ (mem_bind member)).1,
      ready.counted.add fun b member => (given _ (mem_bind member)).2, ?_⟩, trivial⟩
    simp only [Machine.enter, Store.add, Array.size_push, Nat.lt_succ_self]
  left {m n p bs} ready ready' after := by
    have extended : m.store.Extends n.store :=
      (Store.Extends.add m.store ⟨bs, some p⟩).trans after.1
    exact ⟨⟨ready'.formed, ready'.counted, Nat.lt_of_lt_of_le ready.current extended.size⟩,
      extended, after.2⟩
  value_left value := value
  printed _ ready := ⟨⟨ready.formed, ready.counted, ready.current⟩, .refl, Nat.le_refl _⟩
  asked _ ready := ⟨⟨ready.formed, ready.counted, ready.current⟩, .refl, Nat.le_refl _⟩

theorem Session.Reached.heap {programs : List (List Stmt)} {x : Session}
    (reached : Session.Reached programs x) : x.machine.Heap := by
  induction reached with
  | start sink clock =>
    obtain ⟨tree, bound⟩ := (Session.Reached.start sink clock).rooted
    refine ⟨tree.toWellFormed, ?_, bound⟩
    intro e c found b member
    change (Machine.start sink clock).store.scopes[e]? = some c at found
    rw [Machine.start_scopes] at found
    cases e with
    | zero =>
      cases found
      cases List.mem_singleton.mp member
      rintro f ⟨⟩
      exact Nat.zero_lt_one
    | succ e => cases found
  | ran fuel source _ clean ih =>
    rw [Session.run_clean clean]
    exact (Discipline.interpret_obeys (D := heaped) (d := 0) fuel _ ih trivial).final.1
  | refused fuel source _ errors ih =>
    rw [Session.run_refused errors]
    exact ih
  | drained _ ih => exact ⟨ih.formed, ih.counted, ih.current⟩
  | withClock clock _ ih => exact ⟨ih.formed, ih.counted, ih.current⟩

end Treewalk
