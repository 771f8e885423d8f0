import Treewalk.Machine

namespace Treewalk

namespace Store

theorem getElem?_define (s : Store) (e : ScopeId) (x : String) (v : Value) (d : ScopeId) :
    (s.define e x v).scopes[d]? = if e = d then s.scopes[d]?.map (·.set x v) else s.scopes[d]? := by
  simp only [define, Array.getElem?_modify]

theorem getElem?_add (s : Store) (c : Scope) (d : ScopeId) :
    (s.add c).2.scopes[d]? = if d = s.scopes.size then some c else s.scopes[d]? := by
  simp only [add, Array.getElem?_push]

theorem lt_size {s : Store} {e : ScopeId} {c : Scope} (found : s.scopes[e]? = some c) :
    e < s.scopes.size := (Array.getElem?_eq_some_iff.mp found).1

theorem find?_of_getElem {s : Store} {e : ScopeId} {c : Scope} (found : s.scopes[e]? = some c)
    {x : String} :
    s.find? e x =
      match c.get? x with
      | some v => some (e, v)
      | none =>
        match c.parent with
        | none => none
        | some p => if p < e then s.find? p x else none := by
  have unfolded := find?.eq_def s e x
  rw [found] at unfolded
  exact unfolded

theorem find?_mem {s : Store} {e h : ScopeId} {x : String} {v : Value}
    (result : s.find? e x = some (h, v)) : ∃ c, s.scopes[h]? = some c ∧ (x, v) ∈ c.bindings := by
  induction e using Nat.strongRecOn with
  | ind e ih =>
    cases found : s.scopes[e]? with
    | none =>
      rw [find?, found] at result
      cases result
    | some c =>
      rw [find?_of_getElem found] at result
      cases here : c.get? x with
      | some u =>
        rw [here] at result
        cases result
        refine ⟨c, found, ?_⟩
        obtain ⟨before, after, split, -⟩ := List.lookup_eq_some_iff.mp here
        rw [split]
        simp
      | none =>
        rw [here] at result
        cases up : c.parent with
        | none =>
          rw [up] at result
          cases result
        | some p =>
          simp only [up] at result
          split at result
          · exact ih p ‹_› result
          · cases result

theorem depth_eq (s : Store) (e : ScopeId) :
    s.depth e =
      match s.parent? e with
      | none => 0
      | some p => if p < e then s.depth p + 1 else 0 := depth.eq_def s e

theorem parent?_define (s : Store) (e : ScopeId) (x : String) (v : Value) (d : ScopeId) :
    (s.define e x v).parent? d = s.parent? d := by
  simp only [parent?, getElem?_define]
  split
  · cases s.scopes[d]? <;> rfl
  · rfl

/-- `s'` has the scopes of `s`, each with the same parent. -/
structure Extends (s s' : Store) : Prop where
  size : s.scopes.size ≤ s'.scopes.size
  parent : ∀ e, e < s.scopes.size → s'.parent? e = s.parent? e

namespace Extends

variable {s s' s'' : Store}

theorem refl : s.Extends s := ⟨Nat.le_refl _, fun _ _ => rfl⟩

theorem trans (first : s.Extends s') (second : s'.Extends s'') : s.Extends s'' where
  size := Nat.le_trans first.size second.size
  parent e bound :=
    (second.parent e (Nat.lt_of_lt_of_le bound first.size)).trans (first.parent e bound)

theorem define (s : Store) (e : ScopeId) (x : String) (v : Value) : s.Extends (s.define e x v) where
  size := by simp only [Store.define, Array.size_modify, Nat.le_refl]
  parent d _ := s.parent?_define e x v d

theorem add (s : Store) (c : Scope) : s.Extends (s.add c).2 where
  size := by simp only [Store.add, Array.size_push, Nat.le_succ]
  parent e bound := by simp only [parent?, getElem?_add, if_neg (Nat.ne_of_lt bound)]

theorem closure (s : Store) (decl : FunDecl) (e : ScopeId) : s.Extends (s.closure decl e).2 :=
  ⟨Nat.le_refl _, fun _ _ => rfl⟩

theorem depth (extended : s.Extends s') {e : ScopeId} (bound : e < s.scopes.size) :
    s'.depth e = s.depth e := by
  induction e using Nat.strongRecOn with
  | ind e ih =>
    have same := extended.parent e bound
    rw [depth_eq s' e, depth_eq s e, same]
    cases s.parent? e with
    | none => rfl
    | some p =>
      simp only
      split
      · rw [ih p ‹_› (Nat.lt_trans ‹_› bound)]
      · rfl

end Extends

theorem depth_add {s : Store} {bs : List (String × Value)} {p : ScopeId}
    (bound : p < s.scopes.size) :
    (s.add ⟨bs, some p⟩).2.depth s.scopes.size = s.depth p + 1 := by
  have parent : (s.add ⟨bs, some p⟩).2.parent? s.scopes.size = some p := by
    rw [parent?, getElem?_add, if_pos rfl]
    rfl
  rw [depth_eq, parent]
  simp only [if_pos bound, (Extends.add s _).depth bound]

/-- Parents are older, and no closure refers to a scope that is not there. -/
structure WellFormed (s : Store) : Prop where
  parents : ∀ (e : ScopeId) (c : Scope), s.scopes[e]? = some c → ∀ p, c.parent = some p → p < e
  closures : ∀ (e : ScopeId) (c : Scope), s.scopes[e]? = some c → ∀ x id decl scope,
    (x, Value.function (.closure id decl scope)) ∈ c.bindings → scope < s.scopes.size

end Store

theorem mem_setBinding {x : String} {v : Value} {bs : List (String × Value)} {b : String × Value}
    (member : b ∈ setBinding x v bs) : b = (x, v) ∨ b ∈ bs := by
  induction bs with
  | nil => exact .inl (List.mem_singleton.mp member)
  | cons first rest ih =>
    obtain ⟨y, u⟩ := first
    rw [setBinding] at member
    split at member
    · exact (List.mem_cons.mp member).imp id (List.mem_cons_of_mem _)
    · rcases List.mem_cons.mp member with rfl | member
      · exact .inr List.mem_cons_self
      · exact (ih member).imp id (List.mem_cons_of_mem _)

theorem lookup_map (f : Value → Value) (bs : List (String × Value)) (x : String) :
    (bs.map fun b => (b.1, f b.2)).lookup x = (bs.lookup x).map f := by
  induction bs with
  | nil => rfl
  | cons b bs ih =>
    rw [List.map_cons, List.lookup_cons, List.lookup_cons, ih]
    split <;> rfl

theorem setBinding_map (f : Value → Value) (x : String) (v : Value) (bs : List (String × Value)) :
    setBinding x (f v) (bs.map fun b => (b.1, f b.2)) =
      (setBinding x v bs).map fun b => (b.1, f b.2) := by
  induction bs with
  | nil => rfl
  | cons b bs ih =>
    rw [List.map_cons, setBinding, setBinding, ih]
    split <;> rfl

def Store.All (P : Value → Prop) (s : Store) : Prop :=
  ∀ (e : ScopeId) (c : Scope), s.scopes[e]? = some c → ∀ b ∈ c.bindings, P b.2

namespace Store.All

variable {P : Value → Prop} {s : Store}

theorem found (all : s.All P) {e h : ScopeId} {x : String} {v : Value}
    (result : s.find? e x = some (h, v)) : P v := by
  obtain ⟨c, found, member⟩ := find?_mem result
  exact all h c found _ member

theorem define (all : s.All P) (e : ScopeId) (x : String) {v : Value} (value : P v) :
    (s.define e x v).All P := by
  intro d c found b member
  rw [getElem?_define] at found
  split at found
  · obtain ⟨c', found', rfl⟩ := Option.map_eq_some_iff.mp found
    rcases mem_setBinding member with rfl | member
    · exact value
    · exact all d c' found' b member
  · exact all d c found b member

theorem add (all : s.All P) {bs : List (String × Value)} {p : Option ScopeId}
    (bindings : ∀ b ∈ bs, P b.2) : (s.add ⟨bs, p⟩).2.All P := by
  intro d c found b member
  rw [getElem?_add] at found
  split at found
  · cases found
    exact bindings b member
  · exact all d c found b member

end Store.All

namespace Machine

structure WellFormed (m : Machine) : Prop where
  store : m.store.WellFormed
  globals : m.globals < m.store.scopes.size
  current : m.current < m.store.scopes.size

theorem start_scopes (sink : Sink) (clock : Clock) :
    (start sink clock).store.scopes =
      #[⟨[(Native.clock.name, .function (.native 0 Native.clock))], none⟩] := rfl

end Machine

end Treewalk
