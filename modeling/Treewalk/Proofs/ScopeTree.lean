import Treewalk.Proofs.Names

namespace Treewalk

def Value.InStore (s : Store) (v : Value) : Prop :=
  ∀ id decl scope, v = .function (.closure id decl scope) → scope < s.scopes.size

theorem Value.Plain.inStore {s : Store} {v : Value} (plain : v.Plain) : v.InStore s :=
  fun _ _ _ same => absurd same (plain _)

theorem Value.InStore.extend {s s' : Store} {v : Value} (inside : v.InStore s)
    (extended : s.Extends s') : v.InStore s' :=
  fun id decl scope same => Nat.lt_of_lt_of_le (inside id decl scope same) extended.size

namespace Store

def ancestor? (s : Store) : Nat → ScopeId → Option ScopeId
  | 0, e => some e
  | n + 1, e => (s.parent? e).bind fun p => s.ancestor? n p

def OnChain (s : Store) (e d : ScopeId) : Prop := ∃ n, s.ancestor? n e = some d

/-- The search for `x` from `e` on, link by link, with what it finds: this is the way that looking
up a name and assigning to it go. -/
inductive Search (s : Store) (x : String) : ScopeId → Option (ScopeId × Value) → Prop
  | here {e : ScopeId} {c : Scope} {v : Value} :
    s.scopes[e]? = some c → c.get? x = some v → Search s x e (some (e, v))
  | up {e p : ScopeId} {c : Scope} {r : Option (ScopeId × Value)} :
    s.scopes[e]? = some c → c.get? x = none → c.parent = some p → Search s x p r → Search s x e r
  | top {e : ScopeId} {c : Scope} :
    s.scopes[e]? = some c → c.get? x = none → c.parent = none → Search s x e none

variable {s s' : Store} {e d p g : ScopeId} {x : String}

theorem parent?_of_getElem {c : Scope} (found : s.scopes[e]? = some c) :
    s.parent? e = c.parent := by
  rw [parent?, found, Option.bind_some]

theorem ancestor?_succ {n : Nat} (link : s.parent? e = some p) :
    s.ancestor? (n + 1) e = s.ancestor? n p := by
  rw [ancestor?, link, Option.bind_some]

namespace OnChain

theorem refl : s.OnChain e e := ⟨0, rfl⟩

theorem up (link : s.parent? e = some p) (above : s.OnChain p d) : s.OnChain e d := by
  obtain ⟨n, same⟩ := above
  exact ⟨n + 1, (ancestor?_succ link).trans same⟩

theorem trans (first : s.OnChain e p) (second : s.OnChain p d) : s.OnChain e d := by
  obtain ⟨n, climbs⟩ := first
  induction n generalizing e with
  | zero =>
    obtain rfl : e = p := Option.some.inj climbs
    exact second
  | succ n ih =>
    cases link : s.parent? e with
    | none =>
      rw [ancestor?, link] at climbs
      cases climbs
    | some q =>
      rw [ancestor?_succ link] at climbs
      exact up link (ih climbs)

theorem cases_on (on : s.OnChain e d) : d = e ∨ ∃ p, s.parent? e = some p ∧ s.OnChain p d := by
  obtain ⟨n, same⟩ := on
  cases n with
  | zero => exact .inl (Option.some.inj same).symm
  | succ n =>
    cases link : s.parent? e with
    | none =>
      rw [ancestor?, link] at same
      cases same
    | some p => exact .inr ⟨p, rfl, n, (ancestor?_succ link).symm.trans same⟩

end OnChain

namespace WellFormed

theorem older (formed : s.WellFormed) (link : s.parent? e = some p) : p < e := by
  cases found : s.scopes[e]? with
  | none =>
    rw [parent?, found] at link
    cases link
  | some c =>
    rw [parent?_of_getElem found] at link
    exact formed.parents e c found p link

theorem onChain_le (formed : s.WellFormed) (on : s.OnChain e d) : d ≤ e := by
  -- Here and below the induction is on the number of the scope: parents are older.
  induction e using Nat.strongRecOn with
  | ind e ih =>
    rcases on.cases_on with rfl | ⟨p, link, above⟩
    · exact Nat.le_refl d
    · have less := formed.older link
      exact Nat.le_trans (ih p less above) (Nat.le_of_lt less)

theorem not_mem_names (formed : s.WellFormed) (absent : s.find? e x = none)
    (on : s.OnChain e d) : x ∉ s.names d := by
  induction e using Nat.strongRecOn with
  | ind e ih =>
    cases found : s.scopes[e]? with
    | none =>
      rcases on.cases_on with rfl | ⟨p, link, -⟩
      · simp [names, found]
      · rw [parent?, found] at link
        cases link
    | some c =>
      rw [find?_of_getElem found] at absent
      cases here : c.get? x with
      | some v =>
        rw [here] at absent
        cases absent
      | none =>
        rcases on.cases_on with rfl | ⟨p, link, above⟩
        · rw [names_of_getElem found, ← Scope.get?_isSome, here]
          exact Bool.false_ne_true
        · have less := formed.older link
          rw [parent?_of_getElem found] at link
          simp only [here, link, if_pos less] at absent
          exact ih p less absent above

theorem values (formed : s.WellFormed) : s.All (·.InStore s) := by
  intro e c found b member id decl scope same
  exact formed.closures e c found b.1 id decl scope (same ▸ member)

theorem found (formed : s.WellFormed) {h : ScopeId} {v : Value}
    (result : s.find? e x = some (h, v)) : v.InStore s :=
  formed.values.found result

theorem define (formed : s.WellFormed) (h : ScopeId) (x : String) {v : Value}
    (inside : v.InStore s) :
    (s.define h x v).WellFormed := by
  have size : (s.define h x v).scopes.size = s.scopes.size := Array.size_modify
  constructor
  · intro e c found p link
    rw [getElem?_define] at found
    split at found
    · obtain ⟨c', found', rfl⟩ := Option.map_eq_some_iff.mp found
      exact formed.parents e c' found' p link
    · exact formed.parents e c found p link
  · intro e c found y id decl scope member
    rw [size]
    rw [getElem?_define] at found
    split at found
    · obtain ⟨c', found', rfl⟩ := Option.map_eq_some_iff.mp found
      rcases mem_setBinding member with same | member
      · exact inside id decl scope (congrArg Prod.snd same).symm
      · exact formed.closures e c' found' y id decl scope member
    · exact formed.closures e c found y id decl scope member

theorem add (formed : s.WellFormed) {bs : List (String × Value)} (bound : p < s.scopes.size)
    (inside : ∀ b ∈ bs, b.2.InStore s) :
    (s.add ⟨bs, some p⟩).2.WellFormed := by
  have size : (s.add ⟨bs, some p⟩).2.scopes.size = s.scopes.size + 1 := Array.size_push ..
  constructor
  · intro e c found q link
    rw [getElem?_add] at found
    split at found
    · rename_i same
      cases found
      cases link
      rw [same]
      exact bound
    · exact formed.parents e c found q link
  · intro e c found y id decl scope member
    rw [size]
    rw [getElem?_add] at found
    split at found
    · cases found
      exact Nat.lt_succ_of_lt (inside _ member id decl scope rfl)
    · exact Nat.lt_succ_of_lt (formed.closures e c found y id decl scope member)

end WellFormed

structure Rooted (s : Store) (g : ScopeId) : Prop extends s.WellFormed where
  root : g < s.scopes.size
  orphan : ∀ (e : ScopeId) (c : Scope), s.scopes[e]? = some c → (c.parent = none ↔ e = g)

namespace Rooted

theorem parent_none_iff (rooted : s.Rooted g) (bound : e < s.scopes.size) :
    s.parent? e = none ↔ e = g := by
  have found := Array.getElem?_eq_getElem bound
  rw [parent?_of_getElem found]
  exact rooted.orphan e _ found

theorem define (rooted : s.Rooted g) (h : ScopeId) (x : String) {v : Value}
    (inside : v.InStore s) :
    (s.define h x v).Rooted g := by
  refine ⟨rooted.toWellFormed.define h x inside, ?_, ?_⟩
  · exact Nat.lt_of_lt_of_le rooted.root (Extends.define s h x v).size
  · intro e c found
    rw [getElem?_define] at found
    split at found
    · obtain ⟨c', found', rfl⟩ := Option.map_eq_some_iff.mp found
      exact rooted.orphan e c' found'
    · exact rooted.orphan e c found

theorem add (rooted : s.Rooted g) {bs : List (String × Value)} (bound : p < s.scopes.size)
    (inside : ∀ b ∈ bs, b.2.InStore s) :
    (s.add ⟨bs, some p⟩).2.Rooted g := by
  have root := rooted.root
  refine ⟨rooted.toWellFormed.add bound inside, ?_, ?_⟩
  · exact Nat.lt_of_lt_of_le root (Extends.add s ⟨bs, some p⟩).size
  · intro e c found
    rw [getElem?_add] at found
    split at found
    · rename_i same
      cases found
      refine iff_of_false (fun none => ?_) (fun here => ?_)
      · cases none
      · rw [← here, same] at root
        exact Nat.lt_irrefl _ root
    · exact rooted.orphan e c found

theorem climbs (rooted : s.Rooted g) (bound : e < s.scopes.size) :
    s.ancestor? (s.depth e) e = some g ∧ s.ancestor? (s.depth e + 1) e = none := by
  induction e using Nat.strongRecOn with
  | ind e ih =>
    rw [depth_eq]
    cases link : s.parent? e with
    | none =>
      have same := (rooted.parent_none_iff bound).mp link
      exact ⟨congrArg some same, by rw [ancestor?, link]; rfl⟩
    | some p =>
      have less := rooted.older link
      simp only [if_pos less, ancestor?_succ link]
      exact ih p less (Nat.lt_trans less bound)

theorem search (rooted : s.Rooted g) (x : String) (bound : e < s.scopes.size) :
    s.Search x e (s.find? e x) := by
  induction e using Nat.strongRecOn with
  | ind e ih =>
    have found := Array.getElem?_eq_getElem bound
    rw [find?_of_getElem found]
    cases here : (s.scopes[e]).get? x with
    | some v => exact .here found here
    | none =>
      cases link : (s.scopes[e]).parent with
      | none => exact .top found here link
      | some p =>
        have less := rooted.parents e _ found p link
        simp only [if_pos less]
        exact .up found here link (ih p less (Nat.lt_trans less bound))

theorem sees_global (rooted : s.Rooted g) {v : Value} (bound : e < s.scopes.size)
    (global : s.get? g x = some v)
    (free : ∀ d, s.OnChain e d → d ≠ g → x ∉ s.names d) : s.get? e x = some v := by
  induction e using Nat.strongRecOn with
  | ind e ih =>
    by_cases top : e = g
    · rw [top]
      exact global
    · cases link : s.parent? e with
      | none => exact absurd ((rooted.parent_none_iff bound).mp link) top
      | some p =>
        have less := rooted.older link
        have found := Array.getElem?_eq_getElem bound
        have here : (s.scopes[e]).get? x = none := by
          have absent := free e .refl top
          rw [names_of_getElem found, ← Scope.get?_isSome] at absent
          exact Option.not_isSome_iff_eq_none.mp absent
        rw [parent?_of_getElem found] at link
        rw [get?, find?_of_getElem found]
        simp only [here, link, if_pos less]
        refine ih p less (Nat.lt_trans less bound) fun d above => free d (above.up ?_)
        rw [parent?_of_getElem found, link]

end Rooted

theorem Search.unique {r r' : Option (ScopeId × Value)} (first : s.Search x e r)
    (second : s.Search x e r') : r = r' := by
  induction first with
  | here found bound =>
    cases second with
    | here found' bound' => grind
    | up found' free' link' above' => grind
    | top found' free' none' => grind
  | up found free link above ih =>
    cases second with
    | here found' bound' => grind
    | up found' free' link' above' =>
      obtain rfl : _ = _ := Option.some.inj (found.symm.trans found')
      obtain rfl : _ = _ := Option.some.inj (link.symm.trans link')
      exact ih above'
    | top found' free' none' => grind
  | top found free none =>
    cases second with
    | here found' bound' => grind
    | up found' free' link' above' => grind
    | top found' free' none' => rfl

end Store

def rooted : Discipline where
  machine m := m.store.Rooted m.globals ∧ m.current < m.store.scopes.size
  after m n := m.store.Extends n.store
  value m v := v.InStore m.store
  code _ _ _ := True
  after_refl _ := .refl
  after_trans first second := first.trans second
  value_after _ after value := value.extend after
  code_after _ _ _ := trivial
  part _ _ := trivial
  plain := Value.Plain.inStore
  found ready result := ready.1.found result
  assigned {m x h _ v} ready _ value := by
    have extended := Store.Extends.define m.store h x v
    exact ⟨⟨ready.1.define h x value, Nat.lt_of_lt_of_le ready.2 extended.size⟩, extended⟩
  defined {_ m _ x v} ready _ _ value := by
    have extended := Store.Extends.define m.store m.current x v
    exact ⟨⟨ready.1.define m.current x value, Nat.lt_of_lt_of_le ready.2 extended.size⟩, extended⟩
  closed {_ m name params ss} ready _ := by
    refine ⟨⟨⟨⟨ready.1.parents, ready.1.closures⟩, ready.1.root, ready.1.orphan⟩, ready.2⟩,
      .closure m.store ⟨name, params, ss⟩ m.current, ?_⟩
    rintro id decl scope ⟨⟩
    exact ready.2
  block {_ m _} ready _ := by
    refine ⟨⟨ready.1.add ready.2 fun b member => absurd member List.not_mem_nil, ?_⟩, trivial⟩
    simp only [Machine.enter, Store.add, Array.size_push, Nat.lt_succ_self]
  body {m id decl scope args} ready function given := by
    have bound := function id decl scope rfl
    refine ⟨⟨ready.1.add bound fun b member => given _ (mem_bind member), ?_⟩, trivial⟩
    simp only [Machine.enter, Store.add, Array.size_push, Nat.lt_succ_self]
  left {m n p bs} ready ready' after := by
    have extended : m.store.Extends n.store :=
      (Store.Extends.add m.store ⟨bs, some p⟩).trans after
    exact ⟨⟨ready'.1, Nat.lt_of_lt_of_le ready.2 extended.size⟩, extended⟩
  value_left value := value
  printed _ ready := ⟨ready, .refl⟩
  asked _ ready := ⟨ready, .refl⟩

theorem Session.Reached.rooted {programs : List (List Stmt)} {x : Session}
    (reached : Session.Reached programs x) : Treewalk.rooted.machine x.machine := by
  induction reached with
  | start sink clock =>
    refine ⟨⟨(Session.Reached.start sink clock).wellFormed.store, Nat.zero_lt_one, ?_⟩,
      Nat.zero_lt_one⟩
    intro e c found
    change (Machine.start sink clock).store.scopes[e]? = some c at found
    rw [Machine.start_scopes] at found
    cases e with
    | zero =>
      cases found
      exact iff_of_true rfl rfl
    | succ e => cases found
  | ran fuel source _ clean ih =>
    rw [Session.run_clean clean]
    exact (Discipline.interpret_obeys (D := Treewalk.rooted) (d := 0) fuel _ ih trivial).final.1
  | refused fuel source _ errors ih =>
    rw [Session.run_refused errors]
    exact ih
  | drained _ ih => exact ih
  | withClock clock _ ih => exact ih

/-- What it means that the scopes of a machine form a tree rooted at the outermost one. -/
structure Machine.ScopeTree (m : Machine) : Prop where
  older : ∀ {e p}, m.store.parent? e = some p → p < e
  globals : m.globals < m.store.scopes.size
  orphan : ∀ e < m.store.scopes.size, m.store.parent? e = none ↔ e = m.globals
  climbs : ∀ e < m.store.scopes.size,
    m.store.ancestor? (m.store.depth e) e = some m.globals ∧
    m.store.ancestor? (m.store.depth e + 1) e = none
  closures : ∀ id decl scope, m.Holds (.function (.closure id decl scope)) →
    scope < m.store.scopes.size
  searches : ∀ e < m.store.scopes.size, ∀ x r, m.store.Search x e r ↔ r = m.store.find? e x
  sees : ∀ id decl scope, m.Holds (.function (.closure id decl scope)) → ∀ x v,
    m.store.get? m.globals x = some v →
    (∀ d, m.store.OnChain scope d → d ≠ m.globals → x ∉ m.store.names d) →
    m.store.get? scope x = some v

theorem Store.Rooted.scopeTree {m : Machine} (rooted : m.store.Rooted m.globals) :
    m.ScopeTree := by
  have closures (id : Nat) (decl : FunDecl) (scope : ScopeId)
      (held : m.Holds (.function (.closure id decl scope))) : scope < m.store.scopes.size := by
    obtain ⟨e, c, x, found, member⟩ := held
    exact rooted.closures e c found x id decl scope member
  refine ⟨rooted.older, rooted.root, fun e => rooted.parent_none_iff, fun e => rooted.climbs,
    closures, ?_, ?_⟩
  · intro e bound x r
    refine ⟨fun search => search.unique (rooted.search x bound), ?_⟩
    rintro rfl
    exact rooted.search x bound
  · intro id decl scope held x v global free
    exact rooted.sees_global (closures id decl scope held) global free

theorem extends_lasts (s : Store) : Lasting fun m => s.Extends m.store where
  defined e x v extended := extended.trans (.define _ e x v)
  closed decl e extended := extended.trans (.closure _ decl e)
  entered p bs extended := extended.trans (.add _ ⟨bs, some p⟩)
  moved _ extended := extended
  printed _ extended := extended
  asked _ extended := extended

/-- The scopes of every session form a tree rooted at the outermost one, between runs and at every
moment of every run, and no link of it ever changes. -/
theorem scopes_form_a_tree :
    (∀ (m n : Machine), Later m n → m.store.scopes.size ≤ n.store.scopes.size ∧
      ∀ e < m.store.scopes.size, n.store.parent? e = m.store.parent? e) ∧
    ∀ (programs : List (List Stmt)) (x : Session), Session.Reached programs x →
      x.machine.ScopeTree ∧
      ∀ (fuel : Nat) (source : String) (q : Moment),
        Moment.During ⟨fuel, 0, .program (parseSource source).statements, x.machine⟩ q →
        q.machine.ScopeTree ∧ q.final.ScopeTree := by
  constructor
  · intro m n later
    have extended := later.lasts (extends_lasts m.store) .refl
    exact ⟨extended.size, extended.parent⟩
  · intro programs x reached
    refine ⟨reached.rooted.1.scopeTree, ?_⟩
    intro fuel source q during
    have program : rooted.task 0 x.machine (.program (parseSource source).statements) := trivial
    obtain ⟨ready, task⟩ := Discipline.during during reached.rooted program
    have ended := (Discipline.run_obeys q.fuel q.task ready task).final.1
    exact ⟨ready.1.scopeTree, ended.1.scopeTree⟩

end Treewalk
