import Treewalk.Proofs.Descent
import Treewalk.Proofs.StatementReading

namespace Treewalk

open Token (Kind)
open Parse (State OpenExpr Mode Goal)

theorem Token.is_eq_false {t : Token} {k : Kind} : t.is k = false ↔ t.kind ≠ k := by
  simp [Token.is]

namespace Descent

/-- Tokens up to their first end of the input, and what stands behind it. -/
structure Input where
  body : List Token
  ending : Token
  rest : List Token
  plain : ∀ t ∈ body, t.kind ≠ .eof
  ends : ending.kind = .eof

namespace Input

variable (i : Input) {pos : Nat} {s s' : State}

def tokens : List Token := i.body ++ i.ending :: i.rest

def stop : Nat := i.body.length

def token (pos : Nat) : Token := i.body[pos]?.getD i.ending

def next (pos : Nat) : Nat := if pos < i.stop then pos + 1 else pos

theorem getElem?_tokens (inside : pos ≤ i.stop) : i.tokens[pos]? = some (i.token pos) := by
  unfold tokens token stop at *
  by_cases before : pos < i.body.length
  · rw [List.getElem?_append_left before]
    simp [before]
  · have last : pos = i.body.length := by omega
    simp [last]

theorem kind_token_of_lt (before : pos < i.stop) : (i.token pos).kind ≠ .eof := by
  have found : i.body[pos]? = some i.body[pos] := List.getElem?_eq_getElem before
  rw [token, found]
  exact i.plain _ (List.getElem_mem _)

theorem token_stop : i.token i.stop = i.ending := by
  simp [token, stop]

theorem kind_token_eq_eof_iff (inside : pos ≤ i.stop) :
    (i.token pos).kind = .eof ↔ pos = i.stop := by
  constructor
  · intro eof
    by_cases before : pos < i.stop
    · exact absurd eof (i.kind_token_of_lt before)
    · omega
  · rintro rfl
    rw [token_stop]
    exact i.ends

theorem lt_of_is {kind : Kind} (inside : pos ≤ i.stop) (other : kind ≠ .eof)
    (here : (i.token pos).kind = kind) : pos < i.stop := by
  have notEnd : pos ≠ i.stop := by
    intro last
    have eof := (i.kind_token_eq_eof_iff inside).mpr last
    exact other (here.symm.trans eof)
  omega

/-- What is read in the end, from the state `s` on, when the tokens from `pos` on are still to be
read. -/
def outcome (s : State) (pos : Nat) : Parsed :=
  let s := ((i.body.drop pos).foldl State.feed s).finish i.ending
  { statements := s.program.done.toList, errors := s.errors.toList }

theorem outcome_of_lt (s : State) (before : pos < i.stop) :
    i.outcome s pos = i.outcome (s.feed (i.token pos)) (pos + 1) := by
  have found : i.body[pos]? = some i.body[pos] := List.getElem?_eq_getElem before
  have split : i.body.drop pos = i.token pos :: i.body.drop (pos + 1) := by
    rw [token, found]
    exact List.drop_eq_getElem_cons before
  rw [outcome, split]
  rfl

theorem outcome_stop (s : State) :
    i.outcome s i.stop =
      { statements := (s.finish i.ending).program.done.toList
        errors := (s.finish i.ending).errors.toList } := by
  simp [outcome, stop]

def Busy (s : State) : Prop :=
  s.mode = .statement ∨ (∃ due, s.mode = .header due) ∨ ∃ goal read, s.mode = .value goal read

theorem finish_of_busy (busy : Busy s) (eof : Token) :
    s.finish eof =
      { s.feed eof with errors := (s.feed eof).errors ++
          List.replicate (s.feed eof).outer.length (SyntaxError.atToken eof .blockEnd) } := by
  unfold State.finish
  rcases busy with mode | ⟨due, mode⟩ | ⟨goal, read, mode⟩ <;> rw [mode]

theorem outcome_congr (busy : Busy s) (busy' : Busy s') (inside : pos ≤ i.stop)
    (same : s.feed (i.token pos) = s'.feed (i.token pos)) : i.outcome s pos = i.outcome s' pos := by
  by_cases before : pos < i.stop
  · rw [i.outcome_of_lt s before, i.outcome_of_lt s' before, same]
  · have last : pos = i.stop := by omega
    subst last
    rw [token_stop] at same
    rw [outcome_stop, outcome_stop, finish_of_busy busy, finish_of_busy busy', same]

/-- A token that ends what is being read is skipped, but for the end of the input. -/
theorem outcome_fail {base : State} {problem : Problem} (busy : Busy s) (inside : pos ≤ i.stop)
    (fails : s.feed (i.token pos) = base.fail (i.token pos) problem) :
    i.outcome s pos = i.outcome (base.fail (i.token pos) problem) (i.next pos) := by
  by_cases before : pos < i.stop
  · rw [i.outcome_of_lt s before, fails, next, if_pos before]
  · have last : pos = i.stop := by omega
    subst last
    have mode : (base.fail i.ending problem).mode = .recovery := by
      simp [State.fail, Token.is, i.ends]
    rw [token_stop] at fails ⊢
    rw [next, if_neg before, outcome_stop, outcome_stop, finish_of_busy busy, fails]
    simp only [State.finish, mode]

theorem outcome_closed (s : State) (inside : pos ≤ i.stop)
    (other : (i.token pos).kind ≠ .kwElse) : i.outcome s pos = i.outcome s.closed pos := by
  by_cases before : pos < i.stop
  · rw [i.outcome_of_lt s before, i.outcome_of_lt s.closed before, s.feed_closed other]
  · have last : pos = i.stop := by omega
    subst last
    have same : s.finish i.ending = s.closed.finish i.ending := by
      obtain ⟨layer, outer, mode, errors⟩ := s
      cases mode <;> rfl
    rw [outcome_stop, outcome_stop, same]

end Input

/-- The procedure gives a value, or fails at the token under the cursor. -/
def Returns {α : Type} (i : Input) (x : Read α) (c : Cursor) (good : α → Cursor → Prop)
    (bad : Problem → Cursor → Prop) : Prop :=
  (∃ a c', x i.tokens c = .ok a c' ∧ good a c') ∨
  ∃ problem c', x i.tokens c = .error (.failed (.atToken (i.token c'.pos) problem)) c' ∧
    bad problem c'

section Procedures

variable {α β : Type} {i : Input} {c : Cursor} {x : Read α} {f : α → Read β}
  {good : β → Cursor → Prop} {bad : Problem → Cursor → Prop}

theorem run_bind_ok {tokens : List Token} {a : α} {c' : Cursor} (first : x tokens c = .ok a c') :
    (x >>= f) tokens c = f a tokens c' := by
  change EStateM.bind (x tokens) (fun a => f a tokens) c = _
  rw [EStateM.bind, first]

theorem run_bind_error {tokens : List Token} {stop : Stop} {c' : Cursor}
    (first : x tokens c = .error stop c') : (x >>= f) tokens c = .error stop c' := by
  change EStateM.bind (x tokens) (fun a => f a tokens) c = _
  rw [EStateM.bind, first]

namespace Returns

theorem pure {a : β} (holds : good a c) : Returns i (Pure.pure a) c good bad :=
  .inl ⟨a, c, rfl, holds⟩

theorem of_run {x y : Read β} {c' : Cursor} (same : x i.tokens c = y i.tokens c')
    (returns : Returns i y c' good bad) : Returns i x c good bad := by
  unfold Returns
  rw [same]
  exact returns

theorem step {a : α} {c' : Cursor} (first : x i.tokens c = .ok a c')
    (then_ : Returns i (f a) c' good bad) : Returns i (x >>= f) c good bad :=
  of_run (run_bind_ok first) then_

theorem bind {good' : α → Cursor → Prop} (first : Returns i x c good' bad)
    (then_ : ∀ a c', good' a c' → Returns i (f a) c' good bad) :
    Returns i (x >>= f) c good bad := by
  rcases first with ⟨a, c', ran, holds⟩ | ⟨problem, c', ran, holds⟩
  · exact step ran (then_ a c' holds)
  · exact .inr ⟨problem, c', run_bind_error ran, holds⟩

theorem imp {good' : β → Cursor → Prop} {x : Read β} (returns : Returns i x c good' bad)
    (onGood : ∀ a c', good' a c' → good a c') : Returns i x c good bad := by
  rcases returns with ⟨a, c', ran, holds⟩ | failed
  · exact .inl ⟨a, c', ran, onGood a c' holds⟩
  · exact .inr failed

theorem mono {good' : β → Cursor → Prop} {bad' : Problem → Cursor → Prop} {x : Read β}
    (returns : Returns i x c good' bad') (onGood : ∀ a c', good' a c' → good a c')
    (onBad : ∀ problem c', bad' problem c' → bad problem c') : Returns i x c good bad := by
  rcases returns with ⟨a, c', ran, holds⟩ | ⟨problem, c', ran, holds⟩
  · exact .inl ⟨a, c', ran, onGood a c' holds⟩
  · exact .inr ⟨problem, c', ran, onBad problem c' holds⟩

end Returns

section Moving

variable (inside : c.pos ≤ i.stop)

include inside

theorem run_peek : peek i.tokens c = .ok (i.token c.pos) c := by
  have found := i.getElem?_tokens inside
  change tokenAt c.pos i.tokens c = _
  simp only [tokenAt, found]

theorem run_previous : previous i.tokens c = .ok (i.token (c.pos - 1)) c := by
  have earlier : c.pos - 1 ≤ i.stop := by omega
  have found := i.getElem?_tokens earlier
  change tokenAt (c.pos - 1) i.tokens c = _
  simp only [tokenAt, found]

theorem run_atEnd : atEnd i.tokens c = .ok ((i.token c.pos).is .eof) c := by
  rw [atEnd, run_bind_ok (run_peek inside)]
  rfl

theorem run_advance (before : c.pos < i.stop) :
    advance i.tokens c = .ok (i.token c.pos) { c with pos := c.pos + 1 } := by
  have other : (i.token c.pos).is .eof = false := by
    simpa [Token.is] using i.kind_token_of_lt before
  have after : ({ c with pos := c.pos + 1 } : Cursor).pos ≤ i.stop := before
  rw [advance, run_bind_ok (run_atEnd inside), other]
  change previous i.tokens { c with pos := c.pos + 1 } = _
  rw [run_previous after]
  rfl

omit inside in
theorem run_advance_end (last : c.pos = i.stop) :
    advance i.tokens c = .ok (i.token (c.pos - 1)) c := by
  have inside : c.pos ≤ i.stop := by omega
  have ends : (i.token c.pos).is .eof = true :=
    Token.is_eq_true.mpr ((i.kind_token_eq_eof_iff inside).mpr last)
  rw [advance, run_bind_ok (run_atEnd inside), ends]
  exact run_previous inside

theorem run_check {kind : Kind} (other : kind ≠ .eof) :
    check kind i.tokens c = .ok ((i.token c.pos).is kind) c := by
  rw [check, run_bind_ok (run_atEnd inside)]
  by_cases last : (i.token c.pos).is .eof = true
  · have no : (i.token c.pos).is kind = false := by
      rw [Token.is_eq_true] at last
      simpa [Token.is, last] using other.symm
    rw [last, no]
    rfl
  · have more := eq_false_of_ne_true last
    rw [more]
    change (peek >>= fun t => Pure.pure (t.is kind)) i.tokens c = _
    rw [run_bind_ok (run_peek inside)]
    rfl

theorem run_accept {kind : Kind} (other : kind ≠ .eof) (here : (i.token c.pos).is kind = true) :
    accept kind i.tokens c = .ok true { c with pos := c.pos + 1 } := by
  have before := i.lt_of_is inside other (Token.is_eq_true.mp here)
  rw [accept, run_bind_ok (run_check inside other), here]
  change (advance >>= fun _ => Pure.pure true) i.tokens c = _
  rw [run_bind_ok (run_advance inside before)]
  rfl

theorem run_accept_not {kind : Kind} (other : kind ≠ .eof)
    (elsewhere : (i.token c.pos).is kind = false) : accept kind i.tokens c = .ok false c := by
  rw [accept, run_bind_ok (run_check inside other), elsewhere]
  rfl

theorem run_acceptAny {kinds : List Kind} (others : ∀ kind ∈ kinds, kind ≠ .eof) :
    acceptAny kinds i.tokens c =
      if (i.token c.pos).kind ∈ kinds then .ok true { c with pos := c.pos + 1 }
      else .ok false c := by
  induction kinds with
  | nil => rfl
  | cons kind kinds ih =>
    have other : kind ≠ .eof := others kind List.mem_cons_self
    have rest := ih fun k member => others k (List.mem_cons_of_mem _ member)
    by_cases here : (i.token c.pos).is kind = true
    · have among : (i.token c.pos).kind ∈ kind :: kinds := by
        rw [Token.is_eq_true.mp here]
        exact List.mem_cons_self
      rw [acceptAny, run_bind_ok (run_accept inside other here), if_pos among]
      rfl
    · have no := eq_false_of_ne_true here
      have same : (i.token c.pos).kind ∈ kind :: kinds ↔ (i.token c.pos).kind ∈ kinds := by
        have different : (i.token c.pos).kind ≠ kind := by simpa [Token.is] using no
        simp [different]
      rw [acceptAny, run_bind_ok (run_accept_not inside other no)]
      simp only [same]
      exact rest

theorem run_expect {kind : Kind} (problem : Problem) (other : kind ≠ .eof)
    (here : (i.token c.pos).is kind = true) :
    expect kind problem i.tokens c = .ok (i.token c.pos) { c with pos := c.pos + 1 } := by
  have before := i.lt_of_is inside other (Token.is_eq_true.mp here)
  rw [expect, run_bind_ok (run_check inside other), here]
  exact run_advance inside before

theorem run_fail (problem : Problem) :
    (fail problem : Read α) i.tokens c = .error (.failed (.atToken (i.token c.pos) problem)) c := by
  rw [fail, run_bind_ok (run_peek inside)]
  rfl

theorem run_expect_not {kind : Kind} (problem : Problem) (other : kind ≠ .eof)
    (elsewhere : (i.token c.pos).is kind = false) :
    expect kind problem i.tokens c =
      .error (.failed (.atToken (i.token c.pos) problem)) c := by
  rw [expect, run_bind_ok (run_check inside other), elsewhere]
  exact run_fail inside problem

end Moving

theorem run_report {tokens : List Token} (e : SyntaxError) :
    report e tokens c = .ok () { c with errors := c.errors ++ [e] } := rfl

namespace Returns

theorem taken {f : Token → Read β} {c : Cursor} (before : c.pos < i.stop)
    (then_ : Returns i (f (i.token c.pos)) { c with pos := c.pos + 1 } good bad) :
    Returns i (Descent.previous >>= f) { c with pos := c.pos + 1 } good bad :=
  step (run_previous (c := { c with pos := c.pos + 1 }) before) then_

variable {kind : Kind} {p q : Read β} (inside : c.pos ≤ i.stop) (other : kind ≠ .eof)

include inside

theorem previous {f : Token → Read β} (then_ : Returns i (f (i.token (c.pos - 1))) c good bad) :
    Returns i (Descent.previous >>= f) c good bad := step (run_previous inside) then_

theorem peek {f : Token → Read β} (then_ : Returns i (f (i.token c.pos)) c good bad) :
    Returns i (Descent.peek >>= f) c good bad := step (run_peek inside) then_

theorem fail {problem : Problem} (holds : bad problem c) :
    Returns i (Descent.fail problem) c good bad := .inr ⟨problem, c, run_fail inside problem, holds⟩

include other

theorem accept
    (hit : (i.token c.pos).kind = kind → c.pos < i.stop →
      Returns i p { c with pos := c.pos + 1 } good bad)
    (miss : (i.token c.pos).kind ≠ kind → Returns i q c good bad) :
    Returns i (Descent.accept kind >>= fun b => if b = true then p else q) c good bad := by
  by_cases here : (i.token c.pos).is kind = true
  · have same := Token.is_eq_true.mp here
    exact step (run_accept inside other here) (hit same (i.lt_of_is inside other same))
  · have different : (i.token c.pos).kind ≠ kind := fun same => here (Token.is_eq_true.mpr same)
    exact step (run_accept_not inside other (eq_false_of_ne_true here)) (miss different)

theorem check
    (hit : (i.token c.pos).kind = kind → c.pos < i.stop → Returns i p c good bad)
    (miss : (i.token c.pos).kind ≠ kind → Returns i q c good bad) :
    Returns i (Descent.check kind >>= fun b => if b = true then p else q) c good bad := by
  refine step (run_check inside other) ?_
  by_cases here : (i.token c.pos).is kind = true
  · have same := Token.is_eq_true.mp here
    rw [if_pos here]
    exact hit same (i.lt_of_is inside other same)
  · rw [if_neg here]
    exact miss fun same => here (Token.is_eq_true.mpr same)

theorem expect {problem : Problem} {f : Token → Read β}
    (hit : (i.token c.pos).kind = kind → c.pos < i.stop →
      Returns i (f (i.token c.pos)) { c with pos := c.pos + 1 } good bad)
    (miss : (i.token c.pos).kind ≠ kind → bad problem c) :
    Returns i (Descent.expect kind problem >>= f) c good bad := by
  by_cases here : (i.token c.pos).is kind = true
  · have same := Token.is_eq_true.mp here
    exact step (run_expect inside problem other here) (hit same (i.lt_of_is inside other same))
  · have different : (i.token c.pos).kind ≠ kind := fun same => here (Token.is_eq_true.mpr same)
    have failed := run_expect_not inside problem other (eq_false_of_ne_true here)
    exact .inr ⟨problem, c, run_bind_error failed, miss different⟩

omit other

theorem acceptAny {kinds : List Kind} (others : ∀ kind ∈ kinds, kind ≠ .eof)
    (hit : (i.token c.pos).kind ∈ kinds → c.pos < i.stop →
      Returns i p { c with pos := c.pos + 1 } good bad)
    (miss : (i.token c.pos).kind ∉ kinds → Returns i q c good bad) :
    Returns i (Descent.acceptAny kinds >>= fun b => if b = true then p else q) c good bad := by
  have ran := run_acceptAny inside others
  by_cases here : (i.token c.pos).kind ∈ kinds
  · rw [if_pos here] at ran
    exact step ran (hit here (i.lt_of_is inside (others _ here) rfl))
  · rw [if_neg here] at ran
    exact step ran (miss here)

end Returns

end Procedures

structure Moves (i : Input) (c c' : Cursor) : Prop where
  le : c.pos ≤ c'.pos
  inside : c'.pos ≤ i.stop
  depth : c'.depth = c.depth

namespace Moves

variable {i : Input} {a b c : Cursor}

theorem refl (inside : c.pos ≤ i.stop) : Moves i c c := ⟨Nat.le_refl _, inside, rfl⟩

theorem trans (first : Moves i a b) (second : Moves i b c) : Moves i a c :=
  ⟨Nat.le_trans first.le second.le, second.inside, second.depth.trans first.depth⟩

theorem one (before : c.pos < i.stop) : Moves i c { c with pos := c.pos + 1 } :=
  ⟨Nat.le_succ _, before, rfl⟩

theorem leave (moves : Moves i { a with depth := a.depth + 1 } b) :
    Moves i a { b with depth := b.depth - 1 } := by
  have depth := moves.depth
  exact ⟨moves.le, moves.inside, by simp only at depth ⊢; omega⟩

theorem reported (moves : Moves i a b) (errors : Array SyntaxError) :
    Moves i a { b with errors } := ⟨moves.le, moves.inside, moves.depth⟩

end Moves

/-- What was being read in the list of `s` is given up at the cursor, and that leads to `p`. -/
structure GivesUp (i : Input) (p : Parsed) (s : State) (c : Cursor) (problem : Problem)
    (c' : Cursor) : Prop where
  moves : Moves i c c'
  outcome : i.outcome ({ s with errors := c'.errors }.fail (i.token c'.pos) problem)
    (i.next c'.pos) = p

theorem GivesUp.after {i : Input} {p : Parsed} {s : State} {a b c : Cursor} {problem : Problem}
    (givesUp : GivesUp i p s b problem c) (moves : Moves i a b) : GivesUp i p s a problem c :=
  ⟨moves.trans givesUp.moves, givesUp.outcome⟩

theorem Returns.after {α : Type} {i : Input} {p : Parsed} {s : State} {x : Read α} {a c : Cursor}
    {good : α → Cursor → Prop} (returns : Returns i x c good (GivesUp i p s c))
    (moves : Moves i a c) : Returns i x c good (GivesUp i p s a) :=
  returns.mono (fun _ _ holds => holds) fun _ _ givesUp => givesUp.after moves

end Descent

end Treewalk
