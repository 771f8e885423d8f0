import Treewalk.Proofs.TokenSteps

namespace Treewalk.Parse

open Grammar Grammar.Rules

theorem HolesSpell.of_nil {inside : Bool} {holes : List Hole} (none : holes = []) :
    HolesSpell relaxed inside holes [] := by
  rw [none]
  exact .nil

namespace State

variable {s s' : State} {t : Token} {w known : List Token}

def Lists (known : List Token) (s : State) : Prop :=
  ∃ u v, u ++ v ⊆ known ∧ OuterSpells relaxed s.outer u ∧
    Forms relaxed (.declarations (inBody s.outer) s.layer.done.toList) v

/-- Some of the known tokens, not always all that were read, spell all that is kept. -/
def Kept (known : List Token) (s : State) : Prop :=
  (∃ w, w ⊆ known ∧ s.Spells relaxed w) ∨
    (s.mode = .recovery ∧ s.layer.holes = [] ∧ s.Lists known)

theorem Spells.lists (spells : s.Spells relaxed w) (subset : w ⊆ known) : s.Lists known := by
  obtain ⟨u, v, x, y, rfl, around, done, _, _⟩ := spells
  refine ⟨u, v, List.Subset.trans ?_ subset, around, done⟩
  rw [← List.append_assoc]
  exact List.subset_append_left _ _

theorem Kept.lists (kept : s.Kept known) : s.Lists known := by
  rcases kept with ⟨w, subset, spells⟩ | ⟨_, _, lists⟩
  · exact spells.lists subset
  · exact lists

theorem Lists.drops (lists : s.Lists known) (drops : Drops s s') : s'.Kept known := by
  obtain ⟨u, v, subset, around, done⟩ := lists
  obtain ⟨outer, layer, mode⟩ := drops
  have holes : s'.layer.holes = [] := by rw [layer]
  have around' : OuterSpells relaxed s'.outer u := by rwa [outer]
  have done' : Forms relaxed (.declarations (inBody s'.outer) s'.layer.done.toList) v := by
    rw [outer, layer]
    exact done
  rcases mode with resting | skipping
  · refine .inl ⟨u ++ v, subset, u, v, [], [], by simp, around', done', .of_nil holes, ?_⟩
    rw [resting]
    exact .declaration holes
  · exact .inr ⟨skipping, holes, u, v, subset, around', done'⟩

theorem Spells.closed (spells : s.Spells relaxed w) : s.closed.Spells relaxed w := by
  obtain ⟨layer, outer, mode, errors⟩ := s
  cases mode with
  | afterThen condition thenBranch =>
    obtain ⟨u, v, x, y, rfl, around, done, heads, spelled⟩ := spells
    cases spelled with
    | afterThen head body =>
      exact completeAll_spells (s := ⟨layer, outer, _, errors⟩) around done heads
        (then_fill head body)
  | _ => exact spells

theorem Kept.closed (kept : s.Kept known) : s.closed.Lists known := by
  rcases kept with ⟨w, subset, spells⟩ | ⟨skipping, _, lists⟩
  · exact spells.closed.lists subset
  · have same : s.closed = s := by simp [State.closed, skipping]
    rwa [same]

theorem Kept.feed (kept : s.Kept known) (member : t ∈ known) : (s.feed t).Kept known := by
  obtain ⟨es, s', step, _, soft | drops⟩ := s.feed_steps t
  · -- Earlier errors do not matter, and without them the token is accepted.
    have here : s.feed t = { s' with errors := s.errors ++ es } := step s.errors
    have clean : State.feed { s with errors := #[] } t = { s' with errors := #[] ++ es } := step #[]
    have accepted : (State.feed { s with errors := #[] } t).Accepted relaxed := by
      rw [clean]
      exact fun e member => soft e (by simpa using member)
    have same (later : (State.feed { s with errors := #[] } t).Kept known) :
        (s.feed t).Kept known := by
      rw [clean] at later
      rw [here]
      exact later
    have single : [t] ⊆ known := List.cons_subset.mpr ⟨member, List.nil_subset _⟩
    apply same
    rcases kept with ⟨w, subset, spells⟩ | ⟨skipping, free, lists⟩
    · have alike : State.Spells relaxed { s with errors := #[] } w := spells
      exact .inl ⟨_, List.append_subset.mpr ⟨subset, single⟩, feed_spells alike accepted⟩
    · obtain ⟨layer, outer, mode, errors⟩ := s
      cases skipping
      obtain ⟨u, v, subset, around, done⟩ := lists
      simp only [State.feed] at accepted ⊢
      by_cases starts : t.kind.startsStatement = true
      · simp only [starts, if_true] at accepted ⊢
        have spells := startDeclaration_spells (s := ⟨layer, outer, .recovery, #[]⟩)
          around done free accepted
        rw [← List.append_assoc] at spells
        exact .inl ⟨_, List.append_subset.mpr ⟨subset, single⟩, spells⟩
      · by_cases ends : t.is .semicolon = true
        · simp only [starts, ends, if_true]
          exact .inl ⟨u ++ v, subset, u, v, [], [], by simp, around, done, .of_nil free,
            .declaration free⟩
        · simp only [starts, ends]
          exact .inr ⟨rfl, free, u, v, subset, around, done⟩
  · have lists := kept.closed.drops drops
    have here : s.feed t = { s' with errors := s.errors ++ es } := step s.errors
    rw [here]
    exact lists

theorem Kept.run (kept : s.Kept known) (subset : w ⊆ known) :
    (w.foldl State.feed s).Kept known := by
  induction w generalizing s with
  | nil => exact kept
  | cons t w ih =>
    obtain ⟨member, subset⟩ := List.cons_subset.mp subset
    exact ih (kept.feed member) subset

theorem Lists.program (lists : s.Lists known) :
    ∃ w, w ⊆ known ∧ Program relaxed s.program.done.toList w := by
  obtain ⟨layer, outer, mode, errors⟩ := s
  obtain ⟨u, v, subset, around, done⟩ := lists
  obtain ⟨below, here⟩ := List.append_subset.mp subset
  clear subset
  change Forms relaxed (.declarations (inBody outer) layer.done.toList) v at done
  change OuterSpells relaxed outer u at around
  induction around generalizing layer v with
  | nil => exact ⟨v, here, done⟩
  | @cons opener outermost outer u' v' _ _ _ before _ _ _ ih =>
    obtain ⟨below, rest⟩ := List.append_subset.mp below
    have inner := (List.append_subset.mp rest).1
    obtain ⟨w, subset, program⟩ := ih outermost v' below inner before
    refine ⟨w, subset, ?_⟩
    cases outer with
    | nil => exact program
    | cons pair outer =>
      have found := List.getLast?_eq_some_getLast (List.cons_ne_nil pair outer)
      simp only [State.program, List.getLast?_cons_cons, found] at program ⊢
      exact program

theorem Kept.finish (kept : s.Kept known) (member : t ∈ known) :
    ∃ w, w ⊆ known ∧ Program relaxed (s.finish t).program.done.toList w := by
  obtain ⟨layer, outer, mode, errors⟩ := s
  cases mode with
  | declaration | recovery => exact kept.lists.program
  | afterThen condition thenBranch => exact kept.closed.program
  | statement | header | value => exact (kept.feed member).lists.program

end State

/-- The trees recovered from any tokens are the trees of a program, which some of these tokens
spell. -/
theorem recovered_program (tokens : List Token) :
    ∃ w, w ⊆ body tokens ++ [ending tokens] ∧ Program relaxed (parse tokens).statements w := by
  have start : State.Kept (body tokens ++ [ending tokens]) {} :=
    .inl ⟨[], List.nil_subset _, State.spells_empty⟩
  have run := start.run (List.subset_append_left _ _)
  exact run.finish (List.mem_append_right _ List.mem_cons_self)

end Treewalk.Parse
