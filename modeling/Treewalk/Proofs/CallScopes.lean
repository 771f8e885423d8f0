import Treewalk.Proofs.Reach
import Treewalk.Proofs.Restoration

namespace Treewalk

namespace Store

variable {s s' : Store} {e e' h c d d' : ScopeId}

theorem OnChain.linear (formed : s.WellFormed) (first : s.OnChain e d) (second : s.OnChain e d') :
    s.OnChain d d' ∨ s.OnChain d' d := by
  induction e using Nat.strongRecOn with
  | ind e ih =>
    rcases first.cases_on with rfl | ⟨p, link, above⟩
    · exact .inl second
    · rcases second.cases_on with rfl | ⟨p', link', above'⟩
      · exact .inr first
      · -- Both chains go on through the one parent, which is older.
        obtain rfl := Option.some.inj (link.symm.trans link')
        exact ih p (formed.older link) above above'

theorem WellFormed.not_onChain (formed : s.WellFormed) (link : s.parent? d = some c)
    (link' : s.parent? d' = some c) (apart : d ≠ d') : ¬ s.OnChain d d' := by
  intro on
  rcases on.cases_on with same | ⟨p, up, above⟩
  · exact apart same.symm
  · obtain rfl := Option.some.inj (link.symm.trans up)
    exact absurd (formed.older link') (Nat.not_lt.mpr (formed.onChain_le above))

namespace OnChain

theorem inner_or_outer (formed : s.WellFormed) (link : s.parent? d = some c)
    (through : s.OnChain e d) (on : s.OnChain e h) : s.OnChain h d ∨ s.OnChain c h := by
  rcases on.linear formed through with inner | outer
  · exact .inl inner
  · rcases outer.cases_on with rfl | ⟨p, up, above⟩
    · exact .inl .refl
    · obtain rfl := Option.some.inj (link.symm.trans up)
      exact .inr above

theorem meet (formed : s.WellFormed) (link : s.parent? d = some c) (link' : s.parent? d' = some c)
    (apart : d ≠ d') (through : s.OnChain e d) (through' : s.OnChain e' d') (on : s.OnChain e h)
    (on' : s.OnChain e' h) : s.OnChain c h := by
  rcases through.inner_or_outer formed link on with inner | outer
  · rcases through'.inner_or_outer formed link' on' with inner' | outer'
    · -- The scope would lie inside both, and then one of them inside the other.
      rcases inner.linear formed inner' with above | above
      · exact absurd above (formed.not_onChain link link' apart)
      · exact absurd above (formed.not_onChain link' link apart.symm)
    · exact outer'
  · exact outer

theorem extend (on : s.OnChain e d) (extended : s.Extends s') : s'.OnChain e d := by
  obtain ⟨n, climbs⟩ := on
  induction n generalizing e with
  | zero => exact ⟨0, climbs⟩
  | succ n ih =>
    cases link : s.parent? e with
    | none =>
      rw [ancestor?, link] at climbs
      cases climbs
    | some p =>
      have bound : e < s.scopes.size := by
        obtain ⟨c, found, -⟩ := Option.bind_eq_some_iff.mp link
        exact lt_size found
      rw [ancestor?_succ link] at climbs
      exact .up ((extended.parent e bound).trans link) (ih climbs)

end OnChain

end Store

theorem Machine.parent?_enter (m : Machine) (c : ScopeId) (bs : List (String × Value)) :
    (m.enter c bs).store.parent? m.store.scopes.size = some c := by
  rw [Store.parent?, Machine.enter, Store.getElem?_add, if_pos rfl]
  rfl

/-- The moments of a task itself, without those of the functions that it calls. -/
inductive Moment.Directly (start : Moment) : Moment → Prop
  | start : Directly start start
  | next {q q' : Moment} :
    Directly start q → (∀ f args, q.task ≠ .call f args) → q.Next q' → Directly start q'

namespace Moment

/-- A moment of a run belongs to its task itself or to one call that the run makes. -/
theorem During.directly {start q : Moment} (during : start.During q) :
    start.Directly q ∨ ∃ k decl scope args m, start.During (ofCall k decl scope args m) ∧
      (ofCall k decl scope args m).Directly q := by
  induction during with
  | start => exact .inl .start
  | @next q q' during step ih =>
    by_cases own : ∀ f args, q.task ≠ .call f args
    · rcases ih with directly | ⟨k, decl, scope, args, m, called, directly⟩
      · exact .inl (directly.next own step)
      · exact .inr ⟨k, decl, scope, args, m, called, directly.next own step⟩
    · cases step with
      | @body k d m id decl scope args =>
        exact .inr ⟨k, decl, scope, args, m, during.next .body, .start⟩
      | _ =>
        refine absurd ?_ own
        intro f args same
        cases same

section Current

variable {k : Nat} {m n : Machine}

theorem current_of_eval {e : Expr} {v : Value}
    (result : e.eval (Function.apply k) m = .ok v n) : n.current = m.current := by
  rw [← Eval.final_ok result]
  exact (eval_keeps k m e).current

theorem current_of_evalAll {es : List Expr} {vs : List Value}
    (result : Expr.evalAll (Function.apply k) es m = .ok vs n) : n.current = m.current := by
  rw [← Eval.final_ok result]
  exact (evalAll_keeps k m es).current

theorem current_of_exec {s : Stmt} {flow : Flow}
    (result : s.exec (Function.apply k) k m = .ok flow n) : n.current = m.current := by
  rw [← Eval.final_ok result]
  exact (exec_keeps k m k s).current

end Current

/-- Code that is not called runs in the scope of the code around it or in a new scope inside it. -/
theorem Next.scope {q q' : Moment} (step : q.Next q') (own : ∀ f args, q.task ≠ .call f args) :
    q'.machine.current = q.machine.current ∨ q'.machine = q.machine.enter q.machine.current [] := by
  cases step
  case body => exact absurd rfl (own _ _)
  case block => exact .inr rfl
  case right result | args result | restExprs result => exact .inl (current_of_eval result)
  case second result _ | thenBranch result _ | elseBranch result _ | turn result _ =>
    exact .inl (current_of_eval result)
  case call result results _ =>
    exact .inl ((current_of_evalAll results).trans (current_of_eval result))
  case restStmts result | restOfProgram result => exact .inl (current_of_exec result)
  case again result _ turned => exact .inl ((current_of_exec turned).trans (current_of_eval result))
  all_goals exact .inl rfl

theorem Directly.extends {start q : Moment} (directly : start.Directly q) :
    start.machine.store.Extends q.machine.store := by
  induction directly with
  | start => exact .refl
  | next _ _ step ih => exact (extends_lasts start.machine.store).begun step ih

theorem Directly.onChain {start q : Moment} (directly : start.Directly q) :
    q.machine.store.OnChain q.machine.current start.machine.current := by
  induction directly with
  | start => exact .refl
  | @next q q' _ own step ih =>
    -- What the step runs before it starts the next task only adds to the store.
    have extended := (extends_lasts q.machine.store).begun step .refl
    rcases step.scope own with same | entered
    · rw [same]
      exact ih.extend extended
    · rw [entered] at extended ⊢
      exact .up (q.machine.parent?_enter _ []) (ih.extend extended)

theorem Makes.captured {q : Moment} {v : Value} (makes : q.Makes v) :
    v.captured? = some q.machine.current := by
  obtain ⟨name, params, body, -, rfl⟩ := makes
  rfl

theorem Directly.call {k : Nat} {decl : FunDecl} {c : ScopeId} {args : List Value} {m n : Machine}
    {q : Moment} (directly : (ofCall k decl c args m).Directly q) (later : Later q.machine n) :
    n.store.parent? m.store.scopes.size = some c ∧
      n.store.OnChain q.machine.current m.store.scopes.size := by
  have extended := later.lasts (extends_lasts q.machine.store) .refl
  have bound : m.store.scopes.size < (m.enter c (decl.bind args)).store.scopes.size := by
    simp only [Machine.enter, Store.add, Array.size_push, Nat.lt_succ_self]
  have whole := directly.extends.trans extended
  exact ⟨(whole.parent _ bound).trans (m.parent?_enter c _), directly.onChain.extend extended⟩

end Moment

/-- Functions made in two calls of one function see in common what is around that function, and
neither sees the scope of the other call. -/
theorem calls_meet {k k' : Nat} {decl : FunDecl} {c : ScopeId} {args args' : List Value}
    {m m' n : Machine} {q q' : Moment} {v v' : Value} {e e' : ScopeId} (formed : n.store.WellFormed)
    (order : Later (m.enter c (decl.bind args)) m')
    (first : (Moment.ofCall k decl c args m).Directly q)
    (second : (Moment.ofCall k' decl c args' m').Directly q') (later : Later q.machine n)
    (later' : Later q'.machine n) (makes : q.Makes v) (makes' : q'.Makes v')
    (carries : v.captured? = some e) (carries' : v'.captured? = some e') :
    ¬ n.store.OnChain e m'.store.scopes.size ∧ ¬ n.store.OnChain e' m.store.scopes.size ∧
    ∀ h, n.store.OnChain e h → n.store.OnChain e' h → n.store.OnChain c h := by
  obtain rfl := Option.some.inj (makes.captured.symm.trans carries)
  obtain rfl := Option.some.inj (makes'.captured.symm.trans carries')
  obtain ⟨link, through⟩ := first.call later
  obtain ⟨link', through'⟩ := second.call later'
  have apart : m.store.scopes.size ≠ m'.store.scopes.size := by
    have extended := order.lasts (extends_lasts (m.enter c (decl.bind args)).store) .refl
    have size := extended.size
    simp only [Machine.enter, Store.add, Array.size_push] at size
    exact Nat.ne_of_lt size
  have common (h : ScopeId) (on : n.store.OnChain q.machine.current h)
      (on' : n.store.OnChain q'.machine.current h) : n.store.OnChain c h :=
    through.meet formed link link' apart through' on on'
  refine ⟨fun on => ?_, fun on => ?_, common⟩
  · exact absurd (formed.older link') (Nat.not_lt.mpr (formed.onChain_le (common _ on through')))
  · exact absurd (formed.older link) (Nat.not_lt.mpr (formed.onChain_le (common _ through on)))

end Treewalk
