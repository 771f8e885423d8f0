import Treewalk.Proofs.Lasting

namespace Treewalk

theorem mem_names_setBinding {x y : String} {v : Value} (bs : List (String × Value)) :
    x ∈ (setBinding y v bs).map Prod.fst ↔ x ∈ bs.map Prod.fst ∨ x = y := by
  induction bs with
  | nil => simp [setBinding]
  | cons b bs ih =>
    obtain ⟨z, u⟩ := b
    by_cases same : z = y
    · rw [setBinding, if_pos same, List.map_cons, List.map_cons, List.mem_cons, List.mem_cons, same]
      exact ⟨fun member => member.symm.imp .inr id, fun member => member.elim id .inl⟩
    · rw [setBinding, if_neg same, List.map_cons, List.map_cons, List.mem_cons, List.mem_cons, ih,
        or_assoc]

theorem Scope.get?_isSome {c : Scope} {x : String} : (c.get? x).isSome ↔ x ∈ c.names := by
  cases found : c.get? x with
  | none =>
    have absent := List.lookup_eq_none_iff.mp found
    simp only [Option.isSome_none, Bool.false_eq_true, false_iff, names, List.mem_map, not_exists]
    rintro b ⟨member, rfl⟩
    simpa using absent b member
  | some v =>
    obtain ⟨before, after, split, -⟩ := List.lookup_eq_some_iff.mp found
    simp [names, split]

namespace Store

def names (s : Store) (e : ScopeId) : List String := (s.scopes[e]?.map Scope.names).getD []

variable {s s' : Store} {e d h : ScopeId} {x y : String} {v : Value}

theorem names_of_getElem {c : Scope} (found : s.scopes[e]? = some c) : s.names e = c.names := by
  simp [names, found]

theorem mem_names_define :
    x ∈ (s.define h y v).names d ↔ x ∈ s.names d ∨ (h = d ∧ d < s.scopes.size ∧ x = y) := by
  rw [names, names, getElem?_define]
  by_cases here : h = d
  · rw [if_pos here]
    cases found : s.scopes[d]? with
    | none =>
      have absent : ¬ d < s.scopes.size := by simpa using found
      simp [absent]
    | some c =>
      have present := lt_size found
      simp only [Option.map_some, Option.getD_some, Scope.names, Scope.set,
        mem_names_setBinding, here, present, true_and]
  · simp [here]

theorem names_add {c : Scope} (bound : d < s.scopes.size) : (s.add c).2.names d = s.names d := by
  rw [names, getElem?_add, if_neg (Nat.ne_of_lt bound), names]

theorem mem_names_of_find? {u : Value} (result : s.find? e x = some (h, u)) : x ∈ s.names h := by
  obtain ⟨c, found, member⟩ := find?_mem result
  rw [names_of_getElem found, Scope.names]
  exact List.mem_map_of_mem member

/-- The scopes of `s` hold in `s'` the names they held, and `e` may hold more of them, all from
`new`. -/
structure Gains (s s' : Store) (e : ScopeId) (new : List String) : Prop where
  size : s.scopes.size ≤ s'.scopes.size
  kept : ∀ d x, d < s.scopes.size → x ∈ s.names d → x ∈ s'.names d
  gained : ∀ d x, d < s.scopes.size → x ∈ s'.names d → x ∈ s.names d ∨ (d = e ∧ x ∈ new)

namespace Gains

variable {new : List String}

theorem refl : s.Gains s e new := ⟨Nat.le_refl _, fun _ _ _ => id, fun _ _ _ => .inl⟩

theorem define (gains : s.Gains s' e new) (v : Value)
    (allowed : h < s.scopes.size → y ∈ s'.names h ∨ (h = e ∧ y ∈ new)) :
    s.Gains (s'.define h y v) e new where
  size := by simpa only [Store.define, Array.size_modify] using gains.size
  kept d x bound member := mem_names_define.mpr (.inl (gains.kept d x bound member))
  gained d x bound member := by
    rcases mem_names_define.mp member with before | ⟨rfl, -, rfl⟩
    · exact gains.gained d x bound before
    · rcases allowed bound with before | new
      · exact gains.gained h x bound before
      · exact .inr new

theorem add (gains : s.Gains s' e new) (c : Scope) : s.Gains (s'.add c).2 e new where
  size := Nat.le_trans gains.size (Extends.add s' c).size
  kept d x bound member := by
    rw [names_add (Nat.lt_of_lt_of_le bound gains.size)]
    exact gains.kept d x bound member
  gained d x bound member := by
    rw [names_add (Nat.lt_of_lt_of_le bound gains.size)] at member
    exact gains.gained d x bound member

end Gains

end Store

/-- Names since the store was `s`, as what single actions keep: where a scope of `s` is the current
one, it is `e` and only names of `new` are declared. -/
def naming (s : Store) (e : ScopeId) (new : List String) : Discipline where
  machine m := s.Gains m.store e new
  after := Machine.Keeps
  value _ _ := True
  code _ m c := m.current < s.scopes.size → m.current = e ∧ c.declared ⊆ new
  after_refl _ := .refl
  after_trans := Machine.Keeps.trans
  value_after _ _ _ := trivial
  code_after _ after code := by
    rw [after.current]
    exact code
  part code part bound := ⟨(code bound).1, fun _ member => (code bound).2 (part.declared_subset member)⟩
  plain _ := trivial
  found _ _ := trivial
  assigned ready result _ :=
    ⟨ready.define _ fun _ => .inl (Store.mem_names_of_find? result), rfl, rfl⟩
  defined ready code declared _ :=
    ⟨ready.define _ fun bound => .inr ⟨(code bound).1, (code bound).2 declared⟩, rfl, rfl⟩
  closed ready _ := ⟨⟨ready.size, ready.kept, ready.gained⟩, ⟨rfl, rfl⟩, trivial⟩
  block ready _ := ⟨ready.add _, fun bound => absurd bound (Nat.not_lt.mpr ready.size)⟩
  body ready _ _ := ⟨ready.add _, fun bound => absurd bound (Nat.not_lt.mpr ready.size)⟩
  left _ ready after := ⟨ready, rfl, after.globals⟩
  value_left _ := trivial
  printed _ ready := ⟨ready, rfl, rfl⟩
  asked _ ready := ⟨ready, rfl, rfl⟩

section Evaluation

variable (fuel : Nat) (m : Machine)

theorem eval_gains (e : Expr) :
    m.store.Gains ((e.eval (Function.apply fuel)).final m).store m.current [] := by
  have calls := (naming m.store m.current []).apply_obeys fuel
  have obeys := Discipline.eval_obeys (d := 0) calls e (m := m) .refl
    fun _ => ⟨rfl, List.nil_subset _⟩
  exact obeys.final.1

theorem exec_gains (turns : Nat) (s : Stmt) :
    m.store.Gains ((s.exec (Function.apply fuel) turns).final m).store m.current s.declared := by
  have calls := (naming m.store m.current s.declared).apply_obeys fuel
  have obeys := Discipline.exec_obeys calls turns (d := 0) (m := m) s .refl
    fun _ => ⟨rfl, List.Subset.refl _⟩
  exact obeys.final.1

end Evaluation

namespace Store

variable {s s' : Store} {e : ScopeId} {x : String}

theorem get?_isSome_of_names (extended : s.Extends s')
    (kept : ∀ d x, d < s.scopes.size → x ∈ s.names d → x ∈ s'.names d)
    (bound : (s.get? e x).isSome) : (s'.get? e x).isSome := by
  rw [get?, Option.isSome_map] at bound ⊢
  induction e using Nat.strongRecOn with
  | ind e ih =>
    cases found : s.scopes[e]? with
    | none =>
      rw [find?, found] at bound
      cases bound
    | some c =>
      have size := lt_size found
      obtain ⟨c', found'⟩ : ∃ c', s'.scopes[e]? = some c' :=
        ⟨_, Array.getElem?_eq_getElem (Nat.lt_of_lt_of_le size extended.size)⟩
      have parent : c'.parent = c.parent := by
        have same := extended.parent e size
        rwa [parent?, parent?, found, found', Option.bind_some, Option.bind_some] at same
      rw [find?_of_getElem found']
      cases here' : c'.get? x with
      | some u => rfl
      | none =>
        -- Not in `c'`, so not in `c` either, and the search goes on to the same parent.
        have here : ¬ (c.get? x).isSome := by
          rw [Scope.get?_isSome, ← names_of_getElem found]
          intro member
          have member' := kept e x size member
          rw [names_of_getElem found', ← Scope.get?_isSome, here'] at member'
          cases member'
        rw [find?_of_getElem found, Option.not_isSome_iff_eq_none.mp here] at bound
        simp only [parent]
        cases up : c.parent with
        | none =>
          rw [up] at bound
          cases bound
        | some p =>
          simp only [up] at bound ⊢
          split at bound
          · rw [if_pos ‹_›]
            exact ih p ‹_› bound
          · cases bound

end Store

theorem lookup_lasts (e : ScopeId) (x : String) :
    Lasting fun m => (m.store.get? e x).isSome where
  defined {m} h y v bound :=
    Store.get?_isSome_of_names (.define m.store h y v)
      (fun _ _ _ member => Store.mem_names_define.mpr (.inl member)) bound
  closed {m} decl h bound :=
    Store.get?_isSome_of_names (.closure m.store decl h) (fun _ _ _ member => member) bound
  entered {m} parent bindings bound := by
    refine Store.get?_isSome_of_names (.add m.store ⟨bindings, some parent⟩) ?_ bound
    intro d y size member
    change y ∈ (m.store.add _).2.names d
    rw [Store.names_add size]
    exact member
  moved _ bound := bound
  printed _ bound := bound
  asked _ bound := bound

/-- Names do not leak between scopes and do not disappear. -/
theorem names_stay_in_their_scopes :
    (∀ (fuel : Nat) (e : Expr) (m : Machine),
      let n := (e.eval (Function.apply fuel)).final m
      ∀ d < m.store.scopes.size, ∀ x, x ∈ n.store.names d ↔ x ∈ m.store.names d) ∧
    (∀ (fuel turns : Nat) (s : Stmt) (m : Machine),
      let n := (s.exec (Function.apply fuel) turns).final m
      (∀ d < m.store.scopes.size, d ≠ m.current →
        ∀ x, x ∈ n.store.names d ↔ x ∈ m.store.names d) ∧
      (m.current < m.store.scopes.size →
        (∀ x ∈ m.store.names m.current, x ∈ n.store.names m.current) ∧
        ∀ x ∈ n.store.names m.current, x ∈ m.store.names m.current ∨ x ∈ s.declared)) ∧
    ∀ (m n : Machine), Later m n → ∀ e x,
      (m.store.get? e x).isSome → (n.store.get? e x).isSome := by
  refine ⟨?_, ?_, ?_⟩
  · intro fuel e m n d bound x
    have gains := eval_gains fuel m e
    refine ⟨fun after => ?_, gains.kept d x bound⟩
    rcases gains.gained d x bound after with before | ⟨-, never⟩
    · exact before
    · cases never
  · intro fuel turns s m n
    have gains := exec_gains fuel m turns s
    refine ⟨fun d bound elsewhere x => ⟨fun after => ?_, gains.kept d x bound⟩, fun bound =>
      ⟨fun x => gains.kept m.current x bound, fun x after => ?_⟩⟩
    · rcases gains.gained d x bound after with before | ⟨here, -⟩
      · exact before
      · exact absurd here elsewhere
    · exact (gains.gained m.current x bound after).imp id And.right
  · intro m n later e x bound
    exact later.lasts (lookup_lasts e x) bound

theorem names_stay_in_their_scopes_beside_blocks :
    let m := ((Session.start {} default).run 3 nestedSource).2.machine
    let e := Expr.assign innerName (.constant .nil)
    let s := Stmt.varDecl innerName none
    let n := (s.exec (Function.apply 3) 3).final m
    (∀ y, y ∈ ((e.eval (Function.apply 3)).final m).store.names 2 ↔ y ∈ m.store.names 2) ∧
    (2 < m.store.scopes.size ∧ 2 ≠ m.current ∧ m.store.names 2 = ["x"] ∧
      ∀ y, y ∈ n.store.names 2 ↔ y ∈ m.store.names 2) ∧
    (m.current < m.store.scopes.size ∧ "x" ∈ n.store.names m.current ∧
      ∀ y ∈ n.store.names m.current, y ∈ m.store.names m.current ∨ y ∈ ["x"]) ∧
    (m.store.get? 2 "clock").isSome ∧ (n.store.get? 2 "clock").isSome := by
  intro m e s n
  have scopes : 2 < m.store.scopes.size ∧ 2 ≠ m.current ∧ m.store.names 2 = ["x"] ∧
      m.current < m.store.scopes.size := by decide +kernel
  have gained : "x" ∈ n.store.names m.current := by decide +kernel
  have native : (m.store.get? 2 "clock").isSome := by decide +kernel
  have later : Later m n := by
    have ended := Later.ended (q := ⟨3, 0, .code (.stmt s), m⟩) .same
    rwa [Moment.final, Task.run, Eval.final_map] at ended
  obtain ⟨expression, statement, lookup⟩ := names_stay_in_their_scopes
  obtain ⟨elsewhere, here⟩ := statement 3 3 s m
  exact ⟨expression 3 e m 2 scopes.1, ⟨scopes.1, scopes.2.1, scopes.2.2.1, elsewhere 2 scopes.1 scopes.2.1⟩,
    ⟨scopes.2.2.2, gained, (here scopes.2.2.2).2⟩, native, lookup m n later 2 "clock" native⟩

end Treewalk
