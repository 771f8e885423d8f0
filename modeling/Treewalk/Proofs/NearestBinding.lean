import Treewalk.Proofs.Passing
import Treewalk.Proofs.ScopeTree

namespace Treewalk

namespace Store

def own? (s : Store) (d : ScopeId) (x : String) : Option Value := s.scopes[d]?.bind (·.get? x)

/-- The chain from `e` reaches `d`, and no scope before `d` holds `x`. -/
inductive Clear (s : Store) (x : String) : ScopeId → ScopeId → Prop
  | refl {d : ScopeId} : Clear s x d d
  | up {e p d : ScopeId} :
    s.own? e x = none → s.parent? e = some p → Clear s x p d → Clear s x e d

def Nearest (s : Store) (x : String) (e d : ScopeId) : Prop :=
  s.Clear x e d ∧ (s.own? d x).isSome

/-- From `s` to `s'`, the lookups from a handle that `there` picks come to give `v`, and all others
give what they gave. -/
def Changes (s s' : Store) (handles : List ScopeId) (there : ScopeId → String → Prop) (v : Value) :
    Prop :=
  ∀ e ∈ handles, ∀ y,
    (there e y → s'.get? e y = some v) ∧ (¬ there e y → s'.get? e y = s.get? e y)

end Store

/-- Scopes, and the handles to them, that come from making scopes, sharing handles and binding names
through them. How many functions were made does not matter. -/
inductive Forest : Store → List ScopeId → Prop
  | empty : Forest {} []
  | new {s : Store} {handles : List ScopeId} :
    Forest s handles → Forest (s.add {}).2 ((s.add {}).1 :: handles)
  | enclosed {s : Store} {handles : List ScopeId} {e : ScopeId} :
    Forest s handles → e ∈ handles →
    Forest (s.add { parent := some e }).2 ((s.add { parent := some e }).1 :: handles)
  | enclosing {s : Store} {handles : List ScopeId} {e p : ScopeId} :
    Forest s handles → e ∈ handles → s.parent? e = some p → Forest s (p :: handles)
  | clone {s : Store} {handles : List ScopeId} {e : ScopeId} :
    Forest s handles → e ∈ handles → Forest s (e :: handles)
  | define {s : Store} {handles : List ScopeId} {e : ScopeId} (x : String) (v : Value) :
    Forest s handles → e ∈ handles → Forest (s.define e x v) handles
  | assign {s s' : Store} {handles : List ScopeId} {e : ScopeId} (x : String) (v : Value) :
    Forest s handles → e ∈ handles → s.assign? e x v = some s' → Forest s' handles
  | function {s : Store} {handles : List ScopeId} (n : Nat) :
    Forest s handles → Forest { s with functions := n } handles

namespace Store

variable {s s' : Store} {e d h p : ScopeId} {x y : String} {u v : Value}

theorem own?_of_getElem {c : Scope} (found : s.scopes[e]? = some c) : s.own? e x = c.get? x := by
  rw [own?, found, Option.bind_some]

theorem own?_isSome_iff : (s.own? d x).isSome ↔ x ∈ s.names d := by
  cases found : s.scopes[d]? with
  | none => simp [own?, names, found]
  | some c => rw [own?_of_getElem found, names_of_getElem found, Scope.get?_isSome]

theorem own?_define_other (other : ¬ (h = d ∧ y = x)) :
    (s.define h x v).own? d y = s.own? d y := by
  rw [own?, own?, getElem?_define]
  by_cases here : h = d
  · rw [if_pos here]
    cases s.scopes[d]? with
    | none => rfl
    | some c =>
      have name : y ≠ x := fun same => other ⟨here, same⟩
      rw [Option.map_some, Option.bind_some, Option.bind_some, Scope.get?, Scope.set,
        lookup_setBinding, if_neg name]
      rfl
  · rw [if_neg here]

theorem find?_here (own : s.own? e x = some u) : s.find? e x = some (e, u) := by
  obtain ⟨c, found, here⟩ := Option.bind_eq_some_iff.mp own
  rw [find?_of_getElem found, here]

theorem find?_top (own : s.own? e x = none) (link : s.parent? e = none) : s.find? e x = none := by
  cases found : s.scopes[e]? with
  | none => rw [find?, found]
  | some c =>
    rw [own?_of_getElem found] at own
    rw [parent?_of_getElem found] at link
    rw [find?_of_getElem found, own]
    simp only [link]

def Older (s : Store) : Prop := ∀ e p, s.parent? e = some p → p < e

theorem parent?_add (s : Store) (c : Scope) (d : ScopeId) :
    (s.add c).2.parent? d = if d = s.scopes.size then c.parent else s.parent? d := by
  rw [parent?, getElem?_add]
  split <;> rfl

namespace Older

theorem define (older : s.Older) : (s.define h x v).Older := by
  intro e p link
  rw [parent?_define] at link
  exact older e p link

theorem add (older : s.Older) {c : Scope} (bound : ∀ p, c.parent = some p → p < s.scopes.size) :
    (s.add c).2.Older := by
  intro e p link
  rw [parent?_add] at link
  split at link
  · next new =>
    rw [new]
    exact bound p link
  · exact older e p link

theorem find?_up (older : s.Older) (own : s.own? e x = none) (link : s.parent? e = some p) :
    s.find? e x = s.find? p x := by
  have less := older e p link
  obtain ⟨c, found, parent⟩ := Option.bind_eq_some_iff.mp link
  rw [own?_of_getElem found] at own
  rw [find?_of_getElem found, own]
  simp only [parent, if_pos less]

theorem find?_of_clear (older : s.Older) (clear : s.Clear x e d) : s.find? e x = s.find? d x := by
  induction clear with
  | refl => rfl
  | up own link _ ih => exact (older.find?_up own link).trans ih

theorem find?_eq_some_iff (older : s.Older) :
    s.find? e x = some (d, u) ↔ s.Clear x e d ∧ s.own? d x = some u := by
  constructor
  · intro result
    induction e using Nat.strongRecOn with
    | ind e ih =>
      cases own : s.own? e x with
      | some w =>
        rw [find?_here own] at result
        cases result
        exact ⟨.refl, own⟩
      | none =>
        cases link : s.parent? e with
        | none =>
          rw [find?_top own link] at result
          cases result
        | some p =>
          rw [older.find?_up own link] at result
          obtain ⟨clear, held⟩ := ih p (older e p link) result
          exact ⟨.up own link clear, held⟩
  · rintro ⟨clear, held⟩
    rw [older.find?_of_clear clear, find?_here held]

theorem find?_eq_none_iff (older : s.Older) :
    s.find? e x = none ↔ ∀ d, s.OnChain e d → s.own? d x = none := by
  induction e using Nat.strongRecOn with
  | ind e ih =>
    cases own : s.own? e x with
    | some w =>
      rw [find?_here own]
      refine iff_of_false (fun none => by cases none) fun free => ?_
      have held := free e .refl
      rw [own] at held
      cases held
    | none =>
      cases link : s.parent? e with
      | none =>
        refine iff_of_true (find?_top own link) fun d on => ?_
        rcases on.cases_on with rfl | ⟨p, up, -⟩
        · exact own
        · rw [link] at up
          cases up
      | some p =>
        rw [older.find?_up own link, ih p (older e p link)]
        constructor
        · intro free d on
          rcases on.cases_on with rfl | ⟨q, up, above⟩
          · exact own
          · obtain rfl : p = q := Option.some.inj (link.symm.trans up)
            exact free d above
        · exact fun free d above => free d (.up link above)

theorem get?_eq_some_iff (older : s.Older) :
    s.get? e x = some u ↔ ∃ d, s.Nearest x e d ∧ s.own? d x = some u := by
  rw [get?, Option.map_eq_some_iff]
  constructor
  · rintro ⟨⟨d, w⟩, result, rfl⟩
    obtain ⟨clear, held⟩ := older.find?_eq_some_iff.mp result
    exact ⟨d, ⟨clear, by rw [held]; rfl⟩, held⟩
  · rintro ⟨d, ⟨clear, -⟩, held⟩
    exact ⟨(d, u), older.find?_eq_some_iff.mpr ⟨clear, held⟩, rfl⟩

theorem nearest_unique (older : s.Older) {d' : ScopeId} (first : s.Nearest x e d)
    (second : s.Nearest x e d') : d = d' := by
  obtain ⟨u, held⟩ := Option.isSome_iff_exists.mp first.2
  obtain ⟨u', held'⟩ := Option.isSome_iff_exists.mp second.2
  have found := older.find?_eq_some_iff.mpr ⟨first.1, held⟩
  have found' := older.find?_eq_some_iff.mpr ⟨second.1, held'⟩
  rw [found] at found'
  exact congrArg Prod.fst (Option.some.inj found')

theorem get?_define_clear (older : s.Older) (bound : h < s.scopes.size)
    (clear : s.Clear x e h) : (s.define h x v).get? e x = some v := by
  induction clear with
  | refl => exact get?_define_self bound
  | @up e p h own link _ ih =>
    by_cases here : h = e
    · rw [here] at bound ⊢
      exact get?_define_self bound
    · have own' : (s.define h x v).own? e x = none := by
        rw [own?_define_other fun same => here same.1, own]
      have link' : (s.define h x v).parent? e = some p := by rw [parent?_define, link]
      rw [get?, older.define.find?_up own' link']
      exact ih bound

theorem get?_define_other (older : s.Older) (other : ¬ (y = x ∧ s.Clear x e h)) :
    (s.define h x v).get? e y = s.get? e y := by
  induction e using Nat.strongRecOn with
  | ind e ih =>
    -- The scope `e` is not the one that is bound in, or the name is another one.
    have same : (s.define h x v).own? e y = s.own? e y := by
      refine own?_define_other ?_
      rintro ⟨rfl, rfl⟩
      exact other ⟨rfl, .refl⟩
    cases own : s.own? e y with
    | some w =>
      rw [get?, get?, find?_here own, find?_here (same.trans own)]
    | none =>
      have link' := s.parent?_define h x v e
      cases link : s.parent? e with
      | none => rw [get?, get?, find?_top own link, find?_top (same.trans own) (link'.trans link)]
      | some p =>
        have later := ih p (older e p link) fun ⟨named, clear⟩ =>
          other ⟨named, .up (named ▸ own) link clear⟩
        rw [get?, get?, older.find?_up own link,
          older.define.find?_up (same.trans own) (link'.trans link)]
        exact later

end Older

theorem assign?_eq (s : Store) (e : ScopeId) (x : String) (v : Value) :
    s.assign? e x v = (s.find? e x).map fun found => s.define found.1 x v := by
  rw [assign?]
  cases s.find? e x <;> rfl

end Store

namespace Forest

variable {s s' : Store} {handles : List ScopeId} {e : ScopeId} {x : String} {v : Value}

theorem formed (forest : Forest s handles) :
    s.Older ∧ ∀ e ∈ handles, e < s.scopes.size := by
  have added {s : Store} {c : Scope} {handles : List ScopeId}
      (bounds : ∀ e ∈ handles, e < s.scopes.size) :
      ∀ e ∈ (s.add c).1 :: handles, e < (s.add c).2.scopes.size := by
    have size : (s.add c).2.scopes.size = s.scopes.size + 1 := Array.size_push ..
    rw [size]
    refine List.forall_mem_cons.mpr ⟨Nat.lt_succ_self _, fun e member => ?_⟩
    exact Nat.lt_succ_of_lt (bounds e member)
  have size (s : Store) (e : ScopeId) (x : String) (v : Value) :
      (s.define e x v).scopes.size = s.scopes.size := Array.size_modify
  induction forest with
  | empty =>
    refine ⟨fun e p link => ?_, fun e member => absurd member List.not_mem_nil⟩
    simp [Store.parent?] at link
  | new _ ih => exact ⟨ih.1.add (fun p never => by cases never), added ih.2⟩
  | enclosed _ handle ih =>
    refine ⟨ih.1.add ?_, added ih.2⟩
    rintro p ⟨⟩
    exact ih.2 _ handle
  | enclosing _ handle link ih =>
    refine ⟨ih.1, List.forall_mem_cons.mpr ⟨?_, ih.2⟩⟩
    exact Nat.lt_trans (ih.1 _ _ link) (ih.2 _ handle)
  | clone _ handle ih => exact ⟨ih.1, List.forall_mem_cons.mpr ⟨ih.2 _ handle, ih.2⟩⟩
  | define x v _ _ ih =>
    refine ⟨ih.1.define, ?_⟩
    rw [size]
    exact ih.2
  | assign x v _ _ assigned ih =>
    rw [Store.assign?_eq, Option.map_eq_some_iff] at assigned
    obtain ⟨found, -, rfl⟩ := assigned
    refine ⟨ih.1.define, ?_⟩
    rw [size]
    exact ih.2
  | function n _ ih => exact ih

theorem define_changes (forest : Forest s handles) (handle : e ∈ handles) :
    s.Changes (s.define e x v) handles (fun e' y => y = x ∧ s.Clear x e' e) v := by
  obtain ⟨older, bounds⟩ := forest.formed
  intro e' _ y
  constructor
  · rintro ⟨rfl, clear⟩
    exact older.get?_define_clear (bounds e handle) clear
  · exact older.get?_define_other

theorem assign_changes (forest : Forest s handles) (assigned : s.assign? e x v = some s') :
    (∀ d y, y ∈ s'.names d ↔ y ∈ s.names d) ∧
    s.Changes s' handles (fun e' y => y = x ∧ ∃ d, s.Nearest x e d ∧ s.Nearest x e' d) v := by
  obtain ⟨older, -⟩ := forest.formed
  rw [Store.assign?_eq, Option.map_eq_some_iff] at assigned
  obtain ⟨⟨h, u⟩, result, rfl⟩ := assigned
  obtain ⟨clear, held⟩ := older.find?_eq_some_iff.mp result
  have holds : (s.own? h x).isSome := by rw [held]; rfl
  have bound : h < s.scopes.size := by
    obtain ⟨c, found, -⟩ := Store.find?_mem result
    exact Store.lt_size found
  constructor
  · intro d y
    rw [Store.mem_names_define]
    refine or_iff_left_of_imp ?_
    rintro ⟨rfl, -, rfl⟩
    exact Store.own?_isSome_iff.mp holds
  · intro e' _ y
    constructor
    · rintro ⟨rfl, d, nearest, nearest'⟩
      obtain rfl := older.nearest_unique nearest ⟨clear, holds⟩
      exact older.get?_define_clear bound nearest'.1
    · intro other
      refine older.get?_define_other fun ⟨named, clear'⟩ => other ⟨named, h, ?_, ?_⟩
      · exact ⟨clear, holds⟩
      · exact ⟨clear', holds⟩

end Forest

theorem Eval.lookup_assign_none {m : Machine} {name : Token} (v : Value)
    (absent : m.store.find? m.current name.lexeme = none) :
    let undefined : Halt := .fault (.atToken name (.undefinedVariable name.lexeme))
    Eval.lookup name m = .error undefined m ∧ Eval.assign name v m = .error undefined m := by
  constructor
  · rw [lookup_apply, Store.get?, absent]
    rfl
  · rw [assign, absent]
    rfl

theorem Eval.assign_some {m : Machine} {name : Token} {v : Value} {s' : Store}
    (assigned : m.store.assign? m.current name.lexeme v = some s') :
    Eval.assign name v m = .ok () { m with store := s' } := by
  rw [Store.assign?_eq, Option.map_eq_some_iff] at assigned
  obtain ⟨found, result, rfl⟩ := assigned
  rw [assign, result]

/-- Lookup and update agree on the nearest binding and disturb nothing else. In any forest, a name
has the value that the first scope on the chain gives it. Assigning to it succeeds exactly where it
can be looked up, and changes exactly the lookups that end in the same scope; it gives no scope a
name. Binding it in a scope changes exactly the lookups that reach that scope. A name that no scope
of the chain holds is an undefined variable for both, and nothing changes. -/
theorem nearest_binding_is_read_and_set {s : Store} {handles : List ScopeId}
    (forest : Forest s handles) {e : ScopeId} (handle : e ∈ handles) (x : String) (v : Value) :
    (∀ u, s.get? e x = some u ↔ ∃ d, s.Nearest x e d ∧ s.own? d x = some u) ∧
    (s.get? e x = none ↔ ∀ d, s.OnChain e d → s.own? d x = none) ∧
    (s.assign? e x v = none ↔ s.get? e x = none) ∧
    (∀ s', s.assign? e x v = some s' →
      (∀ d y, y ∈ s'.names d ↔ y ∈ s.names d) ∧
      s.Changes s' handles (fun e' y => y = x ∧ ∃ d, s.Nearest x e d ∧ s.Nearest x e' d) v) ∧
    s.Changes (s.define e x v) handles (fun e' y => y = x ∧ s.Clear x e' e) v ∧
    ∀ (m : Machine) (name : Token), m.store = s → m.current = e → name.lexeme = x →
      (∀ u, s.get? e x = some u → Eval.lookup name m = .ok u m) ∧
      (∀ s', s.assign? e x v = some s' → Eval.assign name v m = .ok () { m with store := s' }) ∧
      (s.get? e x = none →
        Eval.lookup name m = .error (.fault (.atToken name (.undefinedVariable x))) m ∧
        Eval.assign name v m = .error (.fault (.atToken name (.undefinedVariable x))) m) ∧
      Eval.define name v m = .ok () { m with store := s.define e x v } := by
  obtain ⟨older, -⟩ := forest.formed
  have missing : s.get? e x = none ↔ s.find? e x = none := Option.map_eq_none_iff
  refine ⟨fun u => older.get?_eq_some_iff, missing.trans older.find?_eq_none_iff, ?_,
    fun s' => forest.assign_changes, forest.define_changes handle, ?_⟩
  · rw [missing, Store.assign?_eq, Option.map_eq_none_iff]
  · rintro m name rfl rfl rfl
    refine ⟨fun u found => ?_, fun s' => Eval.assign_some, fun absent => ?_, rfl⟩
    · rw [Eval.lookup_apply, found]
    · exact Eval.lookup_assign_none v (missing.mp absent)

def branchedStore : Store :=
  let s := (Store.add {} {}).2.define 0 "a" .nil
  let s := (s.add { parent := some 0 }).2
  let s := (s.add { parent := some 1 }).2.define 2 "a" .nil
  (s.add { parent := some 0 }).2

theorem branchedStore_forest : Forest branchedStore [3, 2, 1, 0] := by
  have outermost : Forest _ [0] := .define "a" .nil (.new .empty) List.mem_cons_self
  have first : Forest _ [1, 0] := outermost.enclosed List.mem_cons_self
  have hides : Forest _ [2, 1, 0] :=
    .define "a" .nil (first.enclosed List.mem_cons_self) List.mem_cons_self
  exact hides.enclosed (by decide)

theorem nearest_binding_is_read_and_set_branched :
    let s := branchedStore
    Forest s [3, 2, 1, 0] ∧ 1 ∈ [3, 2, 1, 0] ∧
    ∃ s', s.assign? 1 "a" (.bool true) = some s' ∧
      s'.get? 3 "a" = some (.bool true) ∧ s'.get? 2 "a" = s.get? 2 "a" := by
  intro s
  have forest : Forest s [3, 2, 1, 0] := branchedStore_forest
  have first : s.Nearest "a" 1 0 := ⟨.up rfl rfl .refl, rfl⟩
  have second : s.Nearest "a" 3 0 := ⟨.up rfl rfl .refl, rfl⟩
  have inner : s.Nearest "a" 2 2 := ⟨.refl, rfl⟩
  have older := forest.formed.1
  obtain ⟨reads, -, sets, assigns, -, -⟩ :=
    nearest_binding_is_read_and_set forest (e := 1) (by decide) "a" (.bool true)
  have found : s.get? 1 "a" = some .nil := (reads .nil).mpr ⟨0, first, rfl⟩
  cases assigned : s.assign? 1 "a" (.bool true) with
  | none =>
    rw [sets.mp assigned] at found
    cases found
  | some s' =>
    obtain ⟨-, changes⟩ := assigns s' assigned
    refine ⟨forest, by decide, s', rfl, (changes 3 (by decide) "a").1 ⟨rfl, 0, first, second⟩,
      (changes 2 (by decide) "a").2 ?_⟩
    rintro ⟨-, d, outer, own⟩
    cases older.nearest_unique first outer
    cases older.nearest_unique inner own

end Treewalk
