import Treewalk.Proofs.DescentExpressions

namespace Treewalk.Descent

open Token (Kind)
open Parse (State OpenExpr Goal Header Hole Opener Site maxArguments startOperand)

/-- Going on from `s` at the cursor, with the errors found so far, leads to `p`. -/
def Resumes (i : Input) (p : Parsed) (s : State) (c : Cursor) : Prop :=
  i.outcome { s with errors := c.errors } c.pos = p

namespace Resumes

variable {i : Input} {p : Parsed} {s s' base : State} {c : Cursor} {goal : Goal}
  (resumes : Resumes i p s c)

include resumes

theorem step {errors : Array SyntaxError} (before : c.pos < i.stop)
    (fed : { s with errors := c.errors }.feed (i.token c.pos) = { s' with errors }) :
    Resumes i p s' { c with pos := c.pos + 1, errors } := by
  unfold Resumes at resumes
  rw [i.outcome_of_lt _ before, fed] at resumes
  exact resumes

theorem givesUp {problem : Problem} {errors : Array SyntaxError} (busy : Input.Busy s)
    (inside : c.pos ≤ i.stop)
    (fed : { s with errors := c.errors }.feed (i.token c.pos) =
      { base with errors }.fail (i.token c.pos) problem) :
    GivesUp i p base c problem { c with errors } := by
  have busy : Input.Busy { s with errors := c.errors } := busy
  refine ⟨(Moves.refl inside).reported errors, ?_⟩
  rw [← resumes, i.outcome_fail busy inside fed]

theorem begins (busy : Input.Busy s) (inside : c.pos ≤ i.stop)
    (fed : { s with errors := c.errors }.feed (i.token c.pos) =
      { base with errors := c.errors }.feedValue goal {} (i.token c.pos)) :
    Begins i p base goal [] c := by
  have busy : Input.Busy { s with errors := c.errors } := busy
  refine Begins.of_feed busy inside ?_ resumes
  rw [fed, feedValue_eq, Parse.feed_start (by intros; simp), Array.appendList_nil]

theorem swap (busy : Input.Busy s) (busy' : Input.Busy s') (inside : c.pos ≤ i.stop)
    (same : { s with errors := c.errors }.feed (i.token c.pos) =
      { s' with errors := c.errors }.feed (i.token c.pos)) : Resumes i p s' c := by
  have here : Input.Busy { s with errors := c.errors } := busy
  have there : Input.Busy { s' with errors := c.errors } := busy'
  exact (i.outcome_congr here there inside same).symm.trans resumes

omit resumes in
theorem value (resumes : Resumes i p (s.expectValue goal) c) (inside : c.pos ≤ i.stop) :
    Begins i p s goal [] c := Begins.of_start inside (by intros; simp) resumes

end Resumes

theorem busy_header (s : State) (due : Header) : Input.Busy (s.expectHeader due) :=
  .inr (.inl ⟨due, rfl⟩)

section Parts

variable {i : Input} {p : Parsed} {s : State} {a c : Cursor} {fuel : Nat} {goal : Goal}
  (moves : Moves i a c)

include moves

theorem expect_returns {β : Type} {good : β → Cursor → Prop} {f : Token → Read β} {due : Header}
    {kind : Kind} {problem : Problem} (next : State)
    (resumes : Resumes i p (s.expectHeader due) c) (other : kind ≠ .eof)
    (fed : ∀ errors, { s.expectHeader due with errors }.feedHeader (i.token c.pos) due =
      if (i.token c.pos).is kind = true then { next with errors }
      else { s with errors }.fail (i.token c.pos) problem)
    (then_ : Moves i a { c with pos := c.pos + 1 } →
      Resumes i p next { c with pos := c.pos + 1 } →
      Returns i (f (i.token c.pos)) { c with pos := c.pos + 1 } good (GivesUp i p s a)) :
    Returns i (expect kind problem >>= f) c good (GivesUp i p s a) := by
  apply Returns.expect moves.inside other
  · intro here before
    have fed := fed c.errors
    rw [if_pos (Token.is_eq_true.mpr here)] at fed
    exact then_ (moves.trans (.one before)) (resumes.step before fed)
  · intro elsewhere
    have no : (i.token c.pos).is kind = false := Token.is_eq_false.mpr elsewhere
    have fed := fed c.errors
    rw [no] at fed
    exact (resumes.givesUp (busy_header s due) moves.inside fed).after moves

structure After (i : Input) (p : Parsed) (a c : Cursor) (next : State) (c' : Cursor) : Prop where
  moves : Moves i a c'
  further : c.pos < c'.pos
  resumes : Resumes i p next c'

omit moves in
theorem After.back {next : State} {c' : Cursor}
    (after : After i p a { c with pos := c.pos + 1 } next c') : After i p a c next c' :=
  ⟨after.moves, Nat.lt_of_succ_lt after.further, after.resumes⟩

omit moves in
theorem kind_closer (goal : Goal) : goal.closer.1 ≠ .eof := by
  cases goal <;> simp [Goal.closer]

theorem closedExpression_returns (begins : Begins i p s goal [] c)
    (enough : 16 * (i.stop - c.pos) + 9 < fuel) :
    Returns i (closedExpression fuel goal.closer) c (fun v => After i p a c (s.reach v goal))
      (GivesUp i p s a) := by
  have first := right_of_fuel i fuel .assignment p s goal [] c
    ⟨moves.inside, enough, Nat.zero_le _, begins⟩
  unfold closedExpression
  refine (first.after moves).bind ?_
  intro v c' reads
  have onward := moves.trans reads.moves
  have further := reads.advances rfl
  have landing := feed_reading s goal { operand := some v } c' (i.token c'.pos)
  rw [reads.follows.whole, Array.appendList_nil] at landing
  have leads : i.outcome (reading s goal { operand := some v } c') c'.pos = p := reads.leads
  apply Returns.expect onward.inside (kind_closer goal)
  · intro closes before
    simp only [landed, if_pos (Token.is_eq_true.mpr closes)] at landing
    rw [i.outcome_of_lt _ before, landing, State.reach_errors] at leads
    exact .pure ⟨onward.trans (.one before), Nat.lt_succ_of_lt further, leads⟩
  · intro other
    have no : ¬ (i.token c'.pos).is goal.closer.1 = true := fun same =>
      other (Token.is_eq_true.mp same)
    simp only [landed, if_neg no] at landing
    rw [i.outcome_fail busy_reading onward.inside landing] at leads
    exact ⟨onward, leads⟩

theorem optionalExpression_returns {due : Header} (goal : Goal) (after : Option Expr → State)
    (resumes : Resumes i p (s.expectHeader due) c) (enough : 16 * (i.stop - c.pos) + 9 < fuel)
    (fed : ∀ errors, { s.expectHeader due with errors }.feedHeader (i.token c.pos) due =
      if (i.token c.pos).is goal.closer.1 = true then { after none with errors }
      else { s.expectHeader due with errors }.feedValue goal {} (i.token c.pos))
    (reaches : ∀ v, s.reach v goal = after (some v)) :
    Returns i (optionalExpression fuel goal.closer) c (fun v => After i p a c (after v))
      (GivesUp i p s a) := by
  have fed := fed c.errors
  unfold optionalExpression
  apply Returns.check moves.inside (kind_closer goal)
  · intro here before
    rw [if_pos (Token.is_eq_true.mpr here)] at fed
    have taken := Token.is_eq_true.mpr here
    refine Returns.step (run_expect moves.inside _ (kind_closer goal) taken) ?_
    exact .pure ⟨moves.trans (.one before), Nat.lt_succ_self _, resumes.step before fed⟩
  · intro other
    have no : ¬ (i.token c.pos).is goal.closer.1 = true := fun same =>
      other (Token.is_eq_true.mp same)
    rw [if_neg no] at fed
    have fed := fed.trans ({ s with errors := c.errors }.feedValue_mode (.header due) goal {} _)
    have begins := resumes.begins (busy_header s due) moves.inside fed
    refine (closedExpression_returns moves begins enough).bind ?_
    intro v c' after
    rw [reaches] at after
    exact .pure after

def declared (s : State) (x : Stmt) : Site → State
  | .declaration => s.complete x
  | .forClause => s.expectHeader (.forCondition (some x))

omit moves in
theorem declared_errors (s : State) (x : Stmt) (site : Site) (mode : Parse.Mode)
    (errors : Array SyntaxError) :
    declared { s with mode, errors } x site = { declared s x site with errors } := by
  cases site with
  | declaration =>
    change { { s with errors } with mode }.complete x = { s.complete x with errors }
    rw [State.complete_mode, State.complete_errors]
  | forClause => rfl

theorem variableDeclaration_returns {site : Site}
    (resumes : Resumes i p (s.expectHeader (.variableName site)) c)
    (enough : 16 * (i.stop - c.pos) + 9 < fuel) :
    Returns i (variableDeclaration fuel) c (fun x => After i p a c (declared s x site))
      (GivesUp i p s a) := by
  unfold variableDeclaration
  refine expect_returns moves (s.expectHeader (.variableEnd site (i.token c.pos))) resumes
    (by decide) (fun _ => rfl) ?_
  intro moves resumes
  have stop := moves.inside
  simp only at stop
  apply Returns.accept moves.inside (by decide)
  · intro equal before
    have fed : { s.expectHeader (.variableEnd site (i.token c.pos)) with errors := c.errors }.feed
        (i.token (c.pos + 1)) =
          { s.expectValue (.variableValue site (i.token c.pos)) with errors := c.errors } := by
      simp [State.feed, State.feedHeader, State.expectHeader, State.expectValue, equal]
    have moves := moves.trans (.one before)
    have begins := (resumes.step before fed).value moves.inside
    have enough : 16 * (i.stop - (c.pos + 1 + 1)) + 9 < fuel := by omega
    refine (closedExpression_returns moves begins enough).bind ?_
    intro v c' after
    have further := after.further
    refine .pure ⟨after.moves, by simp only at further; omega, ?_⟩
    cases site <;> exact after.resumes
  · intro noEqual
    have no : (i.token (c.pos + 1)).is .equal = false := Token.is_eq_false.mpr noEqual
    have fed (errors : Array SyntaxError) :
        { s.expectHeader (.variableEnd site (i.token c.pos)) with errors }.feedHeader
          (i.token (c.pos + 1)) (.variableEnd site (i.token c.pos)) =
          if (i.token (c.pos + 1)).is .semicolon = true then
            { declared s (.varDecl (i.token c.pos) none) site with errors }
          else { s with errors }.fail (i.token (c.pos + 1)) .variableEnd := by
      rw [← declared_errors s _ site (.header (.variableEnd site (i.token c.pos)))]
      simp only [State.feedHeader, no]
      cases site <;> rfl
    refine expect_returns moves (declared s (.varDecl (i.token c.pos) none) site) resumes
      (by decide) fed ?_
    intro moves resumes
    exact .pure ⟨moves, by simp only; omega, resumes⟩

structure Named (i : Input) (p : Parsed) (s : State) (a c : Cursor) (name : Token)
    (params : Array Token) (c' : Cursor) : Prop where
  moves : Moves i a c'
  further : c.pos ≤ c'.pos
  noComma : (i.token c'.pos).kind ≠ .comma
  resumes : Resumes i p (s.expectHeader (.parameterEnd name params)) c'

theorem parameters_returns {name : Token} {params : Array Token}
    (resumes : Resumes i p (s.expectHeader (.parameter name params)) c)
    (notEmpty : params.isEmpty = true → (i.token c.pos).kind ≠ .rightParen)
    (enough : i.stop - c.pos < fuel) :
    Returns i (parameters fuel params) c (Named i p s a c name) (GivesUp i p s a) := by
  induction fuel generalizing params c with
  | zero => exact absurd enough (Nat.not_lt_zero _)
  | succ fuel ih =>
    -- The name itself, once the number of names has been looked at.
    have parameter (errors : Array SyntaxError)
        (fed : { s.expectHeader (.parameter name params) with errors := c.errors }.feed
            (i.token c.pos) =
          if (i.token c.pos).is .identifier = true then
            { s.expectHeader (.parameterEnd name (params.push (i.token c.pos))) with errors }
          else { s with errors }.fail (i.token c.pos) .parameterName) :
        Returns i (do
          let x ← expect .identifier .parameterName
          if ← accept .comma then parameters fuel (params.push x) else return params.push x)
          { c with errors } (Named i p s a c name) (GivesUp i p s a) := by
      apply Returns.expect (c := { c with errors }) moves.inside (by decide)
      · intro here before
        rw [if_pos (Token.is_eq_true.mpr here)] at fed
        have resumes := resumes.step before fed
        have moves : Moves i a { c with pos := c.pos + 1, errors } :=
          (moves.trans (.one before)).reported errors
        apply Returns.accept moves.inside (by decide)
        · intro comma before
          have fed : { s.expectHeader (.parameterEnd name (params.push (i.token c.pos))) with
              errors }.feed (i.token (c.pos + 1)) =
              { s.expectHeader (.parameter name (params.push (i.token c.pos))) with errors } := by
            simp [State.feed, State.feedHeader, State.expectHeader, comma]
          have rest := ih (moves.trans (.one before)) (resumes.step before fed) (by simp)
            (by simp only at before ⊢; omega)
          refine rest.imp ?_
          intro params c' named
          have onward := named.further
          exact ⟨named.moves, by simp only at onward; omega, named.noComma, named.resumes⟩
        · intro noComma
          exact .pure ⟨moves, Nat.le_succ _, noComma, resumes⟩
      · intro other
        have no : (i.token c.pos).is .identifier = false := Token.is_eq_false.mpr other
        rw [no] at fed
        exact (resumes.givesUp (busy_header s _) moves.inside fed).after moves
    have closes := not_closing notEmpty
    rw [parameters]
    by_cases many : maxArguments ≤ params.size
    · rw [if_pos many]
      refine .peek moves.inside ?_
      refine .step (run_report _) ?_
      apply parameter
      simp only [State.feed, State.expectHeader, State.feedHeader, State.feedParameter, closes,
        if_pos many]
      rfl
    · rw [if_neg many]
      apply parameter
      simp only [State.feed, State.expectHeader, State.feedHeader, State.feedParameter, closes,
        if_neg many]
      rfl

theorem forInitial_returns (resumes : Resumes i p (s.expectHeader .forInitial) c)
    (enough : 16 * (i.stop - c.pos) + 9 < fuel) :
    Returns i (forInitial fuel) c
      (fun initial => After i p a c (s.expectHeader (.forCondition initial)))
      (GivesUp i p s a) := by
  unfold forInitial
  apply Returns.accept moves.inside (by decide)
  · intro semicolon before
    have fed : { s.expectHeader .forInitial with errors := c.errors }.feed (i.token c.pos) =
        { s.expectHeader (.forCondition none) with errors := c.errors } := by
      simp [State.feed, State.feedHeader, State.expectHeader, semicolon]
    exact .pure ⟨moves.trans (.one before), Nat.lt_succ_self _, resumes.step before fed⟩
  · intro noSemicolon
    have no : (i.token c.pos).is .semicolon = false := Token.is_eq_false.mpr noSemicolon
    apply Returns.accept moves.inside (by decide)
    · intro var before
      have fed : { s.expectHeader .forInitial with errors := c.errors }.feed (i.token c.pos) =
          { s.expectHeader (.variableName .forClause) with errors := c.errors } := by
        simp [State.feed, State.feedHeader, State.expectHeader, var]
      have enough : 16 * (i.stop - (c.pos + 1)) + 9 < fuel := by omega
      refine (variableDeclaration_returns (moves.trans (.one before)) (resumes.step before fed)
        enough).bind ?_
      intro x c' after
      exact .pure after.back
    · intro noVar
      have noKeyword : (i.token c.pos).is .kwVar = false := Token.is_eq_false.mpr noVar
      have fed : { s.expectHeader .forInitial with errors := c.errors }.feed (i.token c.pos) =
          { s with errors := c.errors }.feedValue .forInitial {} (i.token c.pos) := by
        rw [← State.feedValue_mode _ (.header .forInitial)]
        simp [State.feed, State.feedHeader, State.expectHeader, no, noKeyword]
      have begins := resumes.begins (busy_header s _) moves.inside fed
      refine (closedExpression_returns moves begins enough).bind ?_
      intro v c' after
      exact .pure after

end Parts

theorem addDone_nil (s : State) : s.addDone [] = s := by
  obtain ⟨⟨done, holes⟩, outer, mode, errors⟩ := s
  simp [State.addDone]

theorem addDone_append (s : State) (xs ys : List Stmt) :
    (s.addDone xs).addDone ys = s.addDone (xs ++ ys) := by
  simp only [State.addDone, Parse.appendList_append]

/-- Statements, declarations and lists of them are read or given up as the reader that takes one
token at a time reads them or gives them up. -/
structure Walks (i : Input) (fuel : Nat) : Prop where
  statement : ∀ {p : Parsed} {s : State} {c : Cursor}, c.pos ≤ i.stop →
    16 * (i.stop - c.pos) + 10 < fuel → s.inFunction = (c.depth != 0) →
    Resumes i p { s with mode := .statement } c →
    Returns i (statement fuel) c (fun x => After i p c c (s.complete x)) (GivesUp i p s c)
  declaration : ∀ {p : Parsed} {s : State} {c : Cursor} {bad : Problem → Cursor → Prop},
    c.pos < i.stop → 16 * (i.stop - c.pos) + 11 < fuel → s.AwaitsDeclaration (c.depth != 0) →
    ((i.token c.pos).kind = .rightBrace → s.outer = []) → Resumes i p s c →
    Returns i (declaration fuel) c (fun x => After i p c c (s.addDone x.toList)) bad
  block : ∀ {p : Parsed} {s : State} {opener : Opener} {done : List Stmt} {c : Cursor},
    c.pos ≤ i.stop → 16 * (i.stop - c.pos) + 12 < fuel →
    (s.enter opener).inFunction = (c.depth != 0) →
    Resumes i p ((s.enter opener).addDone done) c →
    Returns i (block fuel done) c (fun xs => After i p c c (s.complete (opener.close xs)))
      (GivesUp i p s c)

namespace Walks

variable {i : Input} {p : Parsed} {s : State} {a c : Cursor} {fuel : Nat}
  (walks : Walks i fuel) (moves : Moves i a c) (within : s.inFunction = (a.depth != 0))

include walks moves within

theorem body {hole : Hole} (resumes : Resumes i p (s.expectStatement hole) c)
    (enough : 16 * (i.stop - c.pos) + 10 < fuel) :
    Returns i (Descent.statement fuel) c
      (fun x => After i p a c ((s.expectStatement hole).complete x)) (GivesUp i p s a) := by
  have same : (s.expectStatement hole).inFunction = (c.depth != 0) := by
    rw [moves.depth]
    exact within
  refine (walks.statement moves.inside enough same resumes).mono ?_ ?_
  · intro x c' after
    exact ⟨moves.trans after.moves, after.further, after.resumes⟩
  · intro problem c' givesUp
    exact ⟨moves.trans givesUp.moves, givesUp.outcome⟩

theorem whileStatement (resumes : Resumes i p (s.expectHeader .whileParen) c)
    (enough : 16 * (i.stop - c.pos) + 10 < fuel) :
    Returns i (Descent.whileStatement fuel (Descent.statement fuel)) c
      (fun x => After i p a c (s.complete x)) (GivesUp i p s a) := by
  unfold Descent.whileStatement
  refine expect_returns moves (s.expectValue .whileCondition) resumes (by decide) (fun _ => rfl) ?_
  intro moves resumes
  have enough' : 16 * (i.stop - (c.pos + 1)) + 9 < fuel := by omega
  refine (closedExpression_returns moves (resumes.value moves.inside) enough').bind ?_
  intro v c' head
  have further := head.further
  simp only at further
  refine (walks.body head.moves within head.resumes (by omega)).bind ?_
  intro x c'' after
  have onward := after.further
  have resumes := after.resumes
  rw [State.complete_expectStatement s x (by simp)] at resumes
  exact .pure ⟨after.moves, by omega, resumes⟩

theorem ifStatement (resumes : Resumes i p (s.expectHeader .ifParen) c)
    (enough : 16 * (i.stop - c.pos) + 10 < fuel) :
    Returns i (Descent.ifStatement fuel (Descent.statement fuel)) c
      (fun x => After i p a c (s.complete x)) (GivesUp i p s a) := by
  unfold Descent.ifStatement
  refine expect_returns moves (s.expectValue .ifCondition) resumes (by decide) (fun _ => rfl) ?_
  intro moves resumes
  have enough' : 16 * (i.stop - (c.pos + 1)) + 9 < fuel := by omega
  refine (closedExpression_returns moves (resumes.value moves.inside) enough').bind ?_
  intro v c' head
  have further := head.further
  simp only at further
  refine (walks.body head.moves within head.resumes (by omega)).bind ?_
  intro first c'' after
  have onward := after.further
  have resumes := after.resumes
  rw [State.complete_thenBranch] at resumes
  apply Returns.accept after.moves.inside (by decide)
  · intro kwElse before
    have fed : { s with mode := .afterThen v first, errors := c''.errors }.feed (i.token c''.pos) =
        { s.expectStatement (.elseBranch v first) with errors := c''.errors } := by
      simp [State.feed, State.expectStatement, kwElse]
    refine (walks.body (after.moves.trans (.one before)) within (resumes.step before fed)
      (by simp only; omega)).bind ?_
    intro second c₃ last
    have end_ := last.further
    have resumes := last.resumes
    rw [State.complete_expectStatement s second (by simp)] at resumes
    exact .pure ⟨last.moves, by simp only at end_; omega, resumes⟩
  · intro noElse
    -- The other reader still waits for an `else`; the next token is none, which closes every
    -- conditional that waits.
    refine .pure ⟨after.moves, by omega, ?_⟩
    have closed := State.closed_complete { s with errors := c''.errors } (.ifElse v first none)
    unfold Resumes at resumes ⊢
    rw [i.outcome_closed _ after.moves.inside noElse] at resumes ⊢
    rw [← State.complete_errors, closed]
    exact resumes

theorem forStatement (resumes : Resumes i p (s.expectHeader .forParen) c)
    (enough : 16 * (i.stop - c.pos) + 10 < fuel) :
    Returns i (Descent.forStatement fuel (Descent.statement fuel)) c
      (fun x => After i p a c (s.complete x)) (GivesUp i p s a) := by
  unfold Descent.forStatement
  refine expect_returns moves (s.expectHeader .forInitial) resumes (by decide) (fun _ => rfl) ?_
  intro moves resumes
  have enough' : 16 * (i.stop - (c.pos + 1)) + 9 < fuel := by omega
  refine (forInitial_returns moves resumes enough').bind ?_
  intro initial c₁ first
  have further₁ := first.further
  simp only at further₁
  refine (optionalExpression_returns first.moves (.forCondition initial)
    (fun v => s.expectHeader (.forIncrement initial (v.getD (.constant (.bool true)))))
    first.resumes (by omega) (fun _ => rfl) (fun _ => rfl)).bind ?_
  intro condition c₂ second
  have further₂ := second.further
  refine (optionalExpression_returns second.moves (.forIncrement initial _)
    (fun v => s.expectStatement (.forBody initial (condition.getD (.constant (.bool true))) v))
    second.resumes (by omega) (fun _ => rfl) (fun _ => rfl)).bind ?_
  intro increment c₃ third
  have further₃ := third.further
  refine (walks.body third.moves within third.resumes (by omega)).bind ?_
  intro x c₄ after
  have further₄ := after.further
  have resumes := after.resumes
  rw [State.complete_expectStatement s x (by simp)] at resumes
  exact .pure ⟨after.moves, by omega, resumes⟩

theorem blockStatement (resumes : Resumes i p (s.enter .block) c)
    (enough : 16 * (i.stop - c.pos) + 12 < fuel) :
    Returns i (do let body ← Descent.block fuel []; return .block body) c
      (fun x => After i p a c (s.complete x)) (GivesUp i p s a) := by
  have same : (s.enter .block).inFunction = (c.depth != 0) := by
    rw [moves.depth]
    exact within
  rw [← addDone_nil (s.enter .block)] at resumes
  refine ((walks.block moves.inside enough same resumes).after moves).bind ?_
  intro xs c' after
  exact .pure ⟨moves.trans after.moves, after.further, after.resumes⟩

end Walks

section Simple

variable {i : Input} {p : Parsed} {s : State} {c : Cursor} {fuel : Nat}

theorem printStatement_returns (before : c.pos < i.stop)
    (resumes : Resumes i p (s.expectValue (.printed (i.token c.pos))) { c with pos := c.pos + 1 })
    (enough : 16 * (i.stop - (c.pos + 1)) + 9 < fuel) :
    Returns i (printStatement fuel) { c with pos := c.pos + 1 }
      (fun x => After i p c { c with pos := c.pos + 1 } (s.complete x)) (GivesUp i p s c) := by
  unfold printStatement
  refine .taken before ?_
  refine (closedExpression_returns (.one before) (resumes.value before) enough).bind ?_
  intro v c' after
  exact .pure after

theorem returnStatement_returns (before : c.pos < i.stop)
    (kind : (i.token c.pos).kind = .kwReturn) (within : s.inFunction = (c.depth != 0))
    (resumes : Resumes i p { s with mode := .statement } c)
    (enough : 16 * (i.stop - (c.pos + 1)) + 9 < fuel) :
    Returns i (returnStatement fuel) { c with pos := c.pos + 1 }
      (fun x => After i p c { c with pos := c.pos + 1 } (s.complete x)) (GivesUp i p s c) := by
  unfold returnStatement
  refine .taken before ?_
  -- The value, once the place of the keyword has been looked at.
  have value (errors : Array SyntaxError)
      (resumes : Resumes i p (s.expectHeader (.returnValue (i.token c.pos)))
        { c with pos := c.pos + 1, errors }) :
      Returns i (do
        let value ← optionalExpression fuel (.semicolon, .returnEnd)
        return .ret (i.token c.pos) value) { c with pos := c.pos + 1, errors }
        (fun x => After i p c { c with pos := c.pos + 1 } (s.complete x)) (GivesUp i p s c) := by
    refine (optionalExpression_returns ((Moves.one before).reported errors)
      (.returned (i.token c.pos)) (fun v => s.complete (.ret (i.token c.pos) v)) resumes enough
      ?_ (fun _ => rfl)).bind ?_
    · intro errors
      rw [← State.complete_errors,
        ← State.complete_mode _ _ (.header (.returnValue (i.token c.pos)))]
      rfl
    · intro v c' after
      exact .pure ⟨after.moves, after.further, after.resumes⟩
  have start := State.startStatement_return
    (s := { s with mode := .statement, errors := c.errors }) kind
  have same : State.inFunction { s with mode := .statement, errors := c.errors } = (c.depth != 0) :=
    within
  rw [same] at start
  refine .step (a := { c with pos := c.pos + 1 }) rfl ?_
  by_cases outside : c.depth = 0
  · rw [if_pos outside]
    refine .step (run_report _) ?_
    refine value _ (resumes.step before (start.trans ?_))
    rw [outside]
    rfl
  · have inside : (c.depth != 0) = true := by simpa using outside
    rw [if_neg outside]
    refine value _ (resumes.step before (start.trans ?_))
    rw [inside]
    rfl

theorem expressionStatement_returns (inside : c.pos ≤ i.stop)
    (begins : Begins i p s .expression [] c) (enough : 16 * (i.stop - c.pos) + 9 < fuel) :
    Returns i (expressionStatement fuel) c (fun x => After i p c c (s.complete x))
      (GivesUp i p s c) := by
  unfold expressionStatement
  refine (closedExpression_returns (.refl inside) begins enough).bind ?_
  intro v c' after
  exact .pure after

end Simple

theorem statement_succ {i : Input} {p : Parsed} {s : State} {c : Cursor} {fuel : Nat}
    (walks : Walks i fuel) (inside : c.pos ≤ i.stop)
    (enough : 16 * (i.stop - c.pos) + 10 < fuel + 1) (within : s.inFunction = (c.depth != 0))
    (resumes : Resumes i p { s with mode := .statement } c) :
    Returns i (statement (fuel + 1)) c (fun x => After i p c c (s.complete x))
      (GivesUp i p s c) := by
  rw [statement]
  apply Returns.accept inside (by decide)
  · intro kind before
    have fed : { s with mode := .statement, errors := c.errors }.feed (i.token c.pos) =
        { s.expectHeader .forParen with errors := c.errors } := by
      simp [State.feed, State.startStatement, State.expectHeader, kind]
    have head := walks.forStatement (.one before) within (resumes.step before fed)
      (by simp only; omega)
    exact head.imp fun _ _ after => after.back
  intro noFor
  apply Returns.accept inside (by decide)
  · intro kind before
    have fed : { s with mode := .statement, errors := c.errors }.feed (i.token c.pos) =
        { s.expectHeader .ifParen with errors := c.errors } := by
      simp [State.feed, State.startStatement, State.expectHeader, kind]
    have head := walks.ifStatement (.one before) within (resumes.step before fed)
      (by simp only; omega)
    exact head.imp fun _ _ after => after.back
  intro noIf
  apply Returns.accept inside (by decide)
  · intro kind before
    have fed : { s with mode := .statement, errors := c.errors }.feed (i.token c.pos) =
        { s.expectValue (.printed (i.token c.pos)) with errors := c.errors } := by
      simp [State.feed, State.startStatement, State.expectValue, kind]
    have whole := printStatement_returns before (resumes.step before fed)
      (show 16 * (i.stop - (c.pos + 1)) + 9 < fuel by omega)
    exact whole.imp fun _ _ after => after.back
  intro noPrint
  apply Returns.accept inside (by decide)
  · intro kind before
    have whole := returnStatement_returns before kind within resumes
      (show 16 * (i.stop - (c.pos + 1)) + 9 < fuel by omega)
    exact whole.imp fun _ _ after => after.back
  intro noReturn
  apply Returns.accept inside (by decide)
  · intro kind before
    have fed : { s with mode := .statement, errors := c.errors }.feed (i.token c.pos) =
        { s.expectHeader .whileParen with errors := c.errors } := by
      simp [State.feed, State.startStatement, State.expectHeader, kind]
    have head := walks.whileStatement (.one before) within (resumes.step before fed)
      (by simp only; omega)
    exact head.imp fun _ _ after => after.back
  intro noWhile
  apply Returns.accept inside (by decide)
  · intro kind before
    have fed : { s with mode := .statement, errors := c.errors }.feed (i.token c.pos) =
        { s.enter .block with errors := c.errors } := by
      simp [State.feed, State.startStatement, State.enter, kind]
    have list := walks.blockStatement (.one before) within (resumes.step before fed)
      (by simp only; omega)
    exact list.imp fun _ _ after => after.back
  intro noBrace
  have fed : { s with mode := .statement, errors := c.errors }.feed (i.token c.pos) =
      { s with errors := c.errors }.feedValue .expression {} (i.token c.pos) := by
    rw [← State.feedValue_mode _ .statement]
    simp only [State.feed, State.startStatement]
  have begins := resumes.begins (.inl rfl) inside fed
  exact expressionStatement_returns inside begins (by omega)

section Declarations

variable {i : Input} {p : Parsed} {s : State} {c : Cursor} {fuel : Nat}

theorem Returns.inBody {α : Type} {x : Read α} {good good' : α → Cursor → Prop}
    {bad bad' : Problem → Cursor → Prop}
    (inner : Returns i x { c with depth := c.depth + 1 } good' bad')
    (onGood : ∀ a c', good' a c' → good a { c' with depth := c'.depth - 1 })
    (onBad : ∀ problem c', bad' problem c' → bad problem { c' with depth := c'.depth - 1 }) :
    Returns i (Descent.inBody x) c good bad := by
  unfold Returns Descent.inBody
  rcases inner with ⟨a, c', ran, holds⟩ | ⟨problem, c', ran, holds⟩
  · rw [ran]
    exact .inl ⟨a, _, rfl, onGood a c' holds⟩
  · rw [ran]
    exact .inr ⟨problem, _, rfl, onBad problem c' holds⟩

theorem parameterList_returns {name : Token} {a : Cursor} (moves : Moves i a c)
    (resumes : Resumes i p (s.expectHeader (.parameter name #[])) c)
    (enough : i.stop - c.pos < fuel) :
    Returns i (parameterList fuel) c (Named i p s a c name) (GivesUp i p s a) := by
  unfold parameterList
  apply Returns.check moves.inside (by decide)
  · intro closes before
    refine .pure ⟨moves, Nat.le_refl _, by rw [closes]; decide, ?_⟩
    apply resumes.swap (busy_header s _) (busy_header s _) moves.inside
    simp [State.feed, State.feedHeader, State.feedParameter, State.expectHeader, closes]
  · intro other
    exact parameters_returns moves resumes (fun _ => other) enough

theorem functionBody_returns {a : Cursor} {name : Token} {params : List Token}
    (walks : Walks i fuel) (moves : Moves i a c)
    (resumes : Resumes i p (s.enter (.body name params)) c)
    (enough : 16 * (i.stop - c.pos) + 12 < fuel) :
    Returns i (inBody (block fuel [])) c
      (fun xs => After i p a c (s.complete (.funDecl name params xs))) (GivesUp i p s a) := by
  have inside : (s.enter (.body name params)).inFunction = (c.depth + 1 != 0) := by
    simp [State.inFunction, State.enter, Opener.isBody]
  rw [← addDone_nil (s.enter _)] at resumes
  have list := walks.block (c := { c with depth := c.depth + 1 }) moves.inside enough inside resumes
  apply list.inBody
  · intro xs c' after
    exact ⟨moves.trans after.moves.leave, after.further, after.resumes⟩
  · intro problem c' givesUp
    exact ⟨moves.trans givesUp.moves.leave, givesUp.outcome⟩

theorem functionDeclaration_returns {a : Cursor} (walks : Walks i fuel) (moves : Moves i a c)
    (resumes : Resumes i p (s.expectHeader .functionName) c)
    (enough : 16 * (i.stop - c.pos) + 12 < fuel) :
    Returns i (functionDeclaration fuel (block fuel [])) c
      (fun x => After i p a c (s.complete x)) (GivesUp i p s a) := by
  unfold functionDeclaration
  refine expect_returns moves (s.expectHeader (.functionParen (i.token c.pos))) resumes
    (by decide) (fun _ => rfl) ?_
  intro moves resumes
  refine expect_returns moves (s.expectHeader (.parameter (i.token c.pos) #[])) resumes
    (by decide) (fun _ => rfl) ?_
  intro moves resumes
  have short : i.stop - (c.pos + 1 + 1) < fuel := by omega
  refine (parameterList_returns moves resumes short).bind ?_
  intro params c' named
  have further := named.further
  simp only at further
  have noComma : (i.token c'.pos).is .comma = false := Token.is_eq_false.mpr named.noComma
  refine expect_returns named.moves (s.expectHeader (.bodyBrace (i.token c.pos) params))
    named.resumes (by decide) ?_ ?_
  · intro errors
    simp only [State.feedHeader, noComma]
    rfl
  intro moves resumes
  refine expect_returns moves (s.enter (.body (i.token c.pos) params.toList)) resumes (by decide)
    (fun _ => rfl) ?_
  intro moves resumes
  refine (functionBody_returns walks moves resumes (by simp only; omega)).bind ?_
  intro xs c'' after
  have onward := after.further
  exact .pure ⟨after.moves, by simp only at onward; omega, after.resumes⟩

theorem Resumes.rest {mode : Parse.Mode} (last : c.pos = i.stop)
    (rests : mode = .declaration ∨ mode = .recovery) (resumes : Resumes i p { s with mode } c) :
    Resumes i p { s with mode := .declaration } c := by
  unfold Resumes at resumes ⊢
  rw [last, i.outcome_stop] at resumes ⊢
  rcases rests with rfl | rfl <;> exact resumes

def skipping (t : Token) : Parse.Mode := if t.is .semicolon then .declaration else .recovery

theorem skipping_rests (t : Token) : skipping t = .declaration ∨ skipping t = .recovery := by
  unfold skipping
  by_cases semicolon : t.is .semicolon = true
  · exact .inl (if_pos semicolon)
  · exact .inr (if_neg semicolon)

theorem startStatement_mode (s : State) (mode : Parse.Mode) (t : Token) :
    { s with mode }.startStatement t = s.startStatement t := by
  have same : State.inFunction { s with mode } = s.inFunction := rfl
  unfold State.startStatement
  rw [same]
  cases t.kind with
  | kwReturn => cases s.inFunction <;> rfl
  | _ => rfl

theorem startDeclaration_mode (s : State) (mode : Parse.Mode) (t : Token) :
    { s with mode }.startDeclaration t = s.startDeclaration t := by
  have plain := startStatement_mode s mode t
  unfold State.startDeclaration
  cases t.kind with
  | kwFun => rfl
  | kwVar => rfl
  | rightBrace =>
    obtain ⟨layer, outer, mode', errors⟩ := s
    cases outer with
    | nil => exact plain
    | cons head outer => exact State.complete_mode ⟨head.2, outer, mode', errors⟩ _ mode
  | _ => exact plain

theorem skip_returns {bad : Problem → Cursor → Prop} {t : Token} (inside : c.pos ≤ i.stop)
    (enough : i.stop - c.pos < fuel) (last : c.pos < i.stop → i.token (c.pos - 1) = t)
    (resumes : Resumes i p { s with mode := skipping t } c) :
    Returns i (skip fuel) c
      (fun _ c' => Moves i c c' ∧ Resumes i p { s with mode := .declaration } c') bad := by
  induction fuel generalizing c t with
  | zero => exact absurd enough (Nat.not_lt_zero _)
  | succ fuel ih =>
    rw [skip]
    refine .step (run_atEnd inside) ?_
    by_cases ends : (i.token c.pos).is .eof = true
    · have last := (i.kind_token_eq_eof_iff inside).mp (Token.is_eq_true.mp ends)
      rw [if_pos ends]
      exact .pure ⟨.refl inside, resumes.rest last (skipping_rests _)⟩
    · have other : (i.token c.pos).kind ≠ .eof := fun eof => ends (Token.is_eq_true.mpr eof)
      have before := i.lt_of_is inside other rfl
      rw [if_neg ends]
      refine .previous inside ?_
      rw [last before]
      by_cases closed : t.is .semicolon = true
      · rw [skipping, if_pos closed] at resumes
        rw [if_pos closed]
        exact .pure ⟨.refl inside, resumes⟩
      · rw [skipping, if_neg closed] at resumes
        rw [if_neg closed]
        refine .peek inside ?_
        by_cases starts : (i.token c.pos).kind.startsStatement = true
        · rw [if_pos starts]
          refine .pure ⟨.refl inside, ?_⟩
          have fed : { s with mode := .recovery, errors := c.errors }.feed (i.token c.pos) =
              { s with mode := .declaration, errors := c.errors }.feed (i.token c.pos) := by
            simp only [State.feed, if_pos starts]
            exact startDeclaration_mode { s with mode := .declaration, errors := c.errors } _ _
          unfold Resumes at resumes ⊢
          rw [i.outcome_of_lt _ before, ← fed, ← i.outcome_of_lt _ before]
          exact resumes
        · rw [if_neg starts]
          have fed : { s with mode := .recovery, errors := c.errors }.feed (i.token c.pos) =
              { s with mode := skipping (i.token c.pos), errors := c.errors } := by
            simp only [State.feed, if_neg starts, skipping]
            by_cases semicolon : (i.token c.pos).is .semicolon = true
            · rw [if_pos semicolon, if_pos semicolon]
            · rw [if_neg semicolon, if_neg semicolon]
          refine .step (run_advance inside before) ?_
          have rest := ih (c := { c with pos := c.pos + 1 }) before (by simp only; omega)
            (fun _ => rfl) (resumes.step before fed)
          refine rest.imp ?_
          intro _ c' skipped
          exact ⟨(Moves.one before).trans skipped.1, skipped.2⟩

theorem fail_of_free (free : s.layer.holes = []) (errors : Array SyntaxError) (t : Token)
    (problem : Problem) :
    { s with errors }.fail t problem =
      { s with mode := skipping t, errors := errors ++ [SyntaxError.atToken t problem] } := by
  obtain ⟨⟨done, holes⟩, outer, mode, errors'⟩ := s
  cases free
  rfl

theorem recover_returns {x : Read Stmt} {bad : Problem → Cursor → Prop} (before : c.pos < i.stop)
    (awaits : s.AwaitsDeclaration (c.depth != 0)) (enough : i.stop - c.pos < fuel)
    (reads : Returns i x c (fun x => After i p c c (s.complete x)) (GivesUp i p s c)) :
    Returns i (recover fuel x) c (fun x => After i p c c (s.addDone x.toList)) bad := by
  rcases reads with ⟨x, c', ran, after⟩ | ⟨problem, c', ran, givesUp⟩
  · have whole : s.complete x = s.addDone [x] := by
      rw [State.complete_of_free awaits.holes, awaits.finishDeclaration]
    rw [whole] at after
    exact .inl ⟨some x, c', by simp only [recover, ran], after⟩
  · have moves := givesUp.moves
    have outcome := givesUp.outcome
    rw [fail_of_free awaits.holes] at outcome
    have run : recover fuel x i.tokens c =
        (do report (.atToken (i.token c'.pos) problem); let _ ← advance; skip fuel; return none :
          Read (Option Stmt)) i.tokens c' := by simp only [recover, ran]
    apply Returns.of_run run
    -- The token that could not be read is skipped, whatever it is, unless the input ends there.
    have skipped (c₂ : Cursor) (t : Token) (moves : Moves i c c₂) (further : c.pos < c₂.pos)
        (last : c₂.pos < i.stop → i.token (c₂.pos - 1) = t)
        (resumes : Resumes i p { s with mode := skipping t } c₂) :
        Returns i (do skip fuel; return none : Read (Option Stmt)) c₂
          (fun x => After i p c c (s.addDone x.toList)) bad := by
      refine (skip_returns moves.inside (by omega) last resumes).bind ?_
      intro _ c₃ rest
      have resumes := rest.2
      rw [awaits.mode_eq, ← addDone_nil s] at resumes
      have onward := rest.1.le
      exact .pure ⟨moves.trans rest.1, by omega, resumes⟩
    refine .step (run_report _) ?_
    by_cases inner : c'.pos < i.stop
    · rw [Input.next, if_pos inner] at outcome
      have le := moves.le
      refine .step (run_advance moves.inside inner) ?_
      exact skipped _ _ ((moves.trans (.one inner)).reported _) (by simp only; omega)
        (fun _ => rfl) outcome
    · rw [Input.next, if_neg inner] at outcome
      have last : c'.pos = i.stop := by have := moves.inside; omega
      refine .step (run_advance_end last) ?_
      exact skipped _ _ (moves.reported _) (by simp only; omega) (fun no => absurd no inner) outcome

theorem startDeclaration_plain {t : Token} (noFun : t.kind ≠ .kwFun) (noVar : t.kind ≠ .kwVar)
    (brace : t.kind = .rightBrace → s.outer = []) :
    s.startDeclaration t = s.startStatement t := by
  unfold State.startDeclaration
  split
  · exact absurd ‹_› noFun
  · exact absurd ‹_› noVar
  · next closes some =>
    rw [brace closes] at some
    cases some
  · rfl

theorem declaration_succ {bad : Problem → Cursor → Prop} (walks : Walks i fuel)
    (before : c.pos < i.stop) (enough : 16 * (i.stop - c.pos) + 11 < fuel + 1)
    (awaits : s.AwaitsDeclaration (c.depth != 0))
    (brace : (i.token c.pos).kind = .rightBrace → s.outer = []) (resumes : Resumes i p s c) :
    Returns i (declaration (fuel + 1)) c (fun x => After i p c c (s.addDone x.toList)) bad := by
  have inside := Nat.le_of_lt before
  rw [declaration]
  apply recover_returns before awaits (by omega)
  apply Returns.accept inside (by decide)
  · intro kind _
    have fed : { s with errors := c.errors }.feed (i.token c.pos) =
        { s.expectHeader .functionName with errors := c.errors } := by
      rw [awaits.feed]
      simp [State.startDeclaration, State.expectHeader, kind]
    have whole := functionDeclaration_returns walks (.one before) (resumes.step before fed)
      (by simp only; omega)
    exact whole.imp fun _ _ after => after.back
  intro noFun
  apply Returns.accept inside (by decide)
  · intro kind _
    have fed : { s with errors := c.errors }.feed (i.token c.pos) =
        { s.expectHeader (.variableName .declaration) with errors := c.errors } := by
      rw [awaits.feed]
      simp [State.startDeclaration, State.expectHeader, kind]
    have enough : 16 * (i.stop - (c.pos + 1)) + 9 < fuel := by omega
    have whole := variableDeclaration_returns (.one before) (resumes.step before fed) enough
    exact whole.imp fun _ _ after => after.back
  intro noVar
  have fed : { s with errors := c.errors }.feed (i.token c.pos) =
      { s with mode := .statement, errors := c.errors }.feed (i.token c.pos) := by
    have plain := startDeclaration_plain (s := { s with errors := c.errors }) noFun noVar brace
    have same := startStatement_mode { s with errors := c.errors } .statement (i.token c.pos)
    rw [awaits.feed, plain]
    exact same.symm
  refine walks.statement inside (by omega) awaits.inFunction ?_
  unfold Resumes at resumes ⊢
  rw [i.outcome_of_lt _ before, ← fed, ← i.outcome_of_lt _ before]
  exact resumes

theorem run_listEnds (inside : c.pos ≤ i.stop) :
    listEnds i.tokens c =
      .ok ((i.token c.pos).is .rightBrace || (i.token c.pos).is .eof) c := by
  rw [listEnds, run_bind_ok (run_check inside (by decide)), run_bind_ok (run_atEnd inside)]
  rfl

theorem Resumes.unclosed {opener : Opener} {done : List Stmt} (last : c.pos = i.stop)
    (resumes : Resumes i p ((s.enter opener).addDone done) c) : GivesUp i p s c .blockEnd c := by
  have inside : c.pos ≤ i.stop := Nat.le_of_eq last
  have noNext : i.next c.pos = i.stop := by simp [Input.next, last]
  have ending : i.token c.pos = i.ending := by rw [last, i.token_stop]
  have notOver : i.ending.is .semicolon = false := by simp [Token.is, i.ends]
  refine ⟨.refl inside, ?_⟩
  unfold Resumes at resumes
  rw [last, i.outcome_stop] at resumes
  rw [noNext, i.outcome_stop, ← resumes]
  -- One brace is missing for each open list: the innermost is reported now, the others later.
  obtain ⟨layer, outer, mode, errors⟩ := s
  simp only [State.finish, State.fail, State.addDone, State.enter, ending, notOver]
  cases outer <;> simp [State.program, List.replicate_succ, List.getLast?_cons]

theorem feed_closes {t : Token} (s : State) (opener : Opener) (done : List Stmt)
    (closes : t.kind = .rightBrace) (errors : Array SyntaxError) :
    { (s.enter opener).addDone done with errors }.feed t =
      { s.complete (opener.close done) with errors } := by
  simp only [State.feed, State.addDone, State.enter, State.startDeclaration, closes]
  rw [← State.complete_mode s _ .declaration, ← State.complete_errors]
  simp

theorem block_succ {opener : Opener} {done : List Stmt} (walks : Walks i fuel)
    (inside : c.pos ≤ i.stop) (enough : 16 * (i.stop - c.pos) + 12 < fuel + 1)
    (within : (s.enter opener).inFunction = (c.depth != 0))
    (resumes : Resumes i p ((s.enter opener).addDone done) c) :
    Returns i (block (fuel + 1) done) c (fun xs => After i p c c (s.complete (opener.close xs)))
      (GivesUp i p s c) := by
  have awaits : ((s.enter opener).addDone done).AwaitsDeclaration (c.depth != 0) :=
    ⟨rfl, rfl, within⟩
  rw [block]
  refine .step (run_listEnds inside) ?_
  by_cases ends : ((i.token c.pos).is .rightBrace || (i.token c.pos).is .eof) = true
  · rw [if_pos ends]
    apply Returns.expect inside (by decide)
    · intro closes before
      have fed := feed_closes s opener done closes c.errors
      exact .pure ⟨.one before, Nat.lt_succ_self _, resumes.step before fed⟩
    · intro open_
      have eof : (i.token c.pos).kind = .eof := by simpa [Token.is, open_] using ends
      exact resumes.unclosed ((i.kind_token_eq_eof_iff inside).mp eof)
  · rw [if_neg ends]
    have other : (i.token c.pos).kind ≠ .rightBrace ∧ (i.token c.pos).kind ≠ .eof := by
      simpa [Token.is] using ends
    have before := i.lt_of_is inside other.2 rfl
    refine (walks.declaration before (by omega) awaits (fun closes => absurd closes other.1)
      resumes).bind ?_
    intro next c' after
    -- The loop has no guard of its own: a token was taken, so there is fuel for the rest.
    have further := after.further
    have depth := after.moves.depth
    have resumes := after.resumes
    rw [addDone_append] at resumes
    have later := walks.block after.moves.inside (by omega) (by rwa [depth]) resumes
    refine (later.after after.moves).imp ?_
    intro xs c'' rest
    have onward := rest.further
    exact ⟨after.moves.trans rest.moves, by omega, rest.resumes⟩

theorem walks_of_fuel (i : Input) (fuel : Nat) : Walks i fuel := by
  induction fuel with
  | zero =>
    constructor
    · intro p s c _ enough
      exact absurd enough (Nat.not_lt_zero _)
    · intro p s c bad _ enough
      exact absurd enough (Nat.not_lt_zero _)
    · intro p s opener done c _ enough
      exact absurd enough (Nat.not_lt_zero _)
  | succ fuel walks =>
    constructor
    · exact fun inside enough within resumes => statement_succ walks inside enough within resumes
    · exact fun before enough awaits brace resumes =>
        declaration_succ walks before enough awaits brace resumes
    · exact fun inside enough within resumes => block_succ walks inside enough within resumes

theorem program_returns {done : List Stmt} {bad : Problem → Cursor → Prop}
    (inside : c.pos ≤ i.stop) (enough : 16 * (i.stop - c.pos) + 12 < fuel) (outside : c.depth = 0)
    (resumes : Resumes i p (State.addDone {} done) c) :
    Returns i (program fuel done) c
      (fun xs c' => p = { statements := xs, errors := c'.errors.toList }) bad := by
  induction fuel generalizing c done with
  | zero => exact absurd enough (Nat.not_lt_zero _)
  | succ fuel ih =>
    rw [program]
    refine .step (run_atEnd inside) ?_
    by_cases ends : (i.token c.pos).is .eof = true
    · have last := (i.kind_token_eq_eof_iff inside).mp (Token.is_eq_true.mp ends)
      rw [if_pos ends]
      refine .pure ?_
      unfold Resumes at resumes
      rw [last, i.outcome_stop] at resumes
      rw [← resumes]
      simp [State.finish, State.addDone, State.program]
    · have other : (i.token c.pos).kind ≠ .eof := fun eof => ends (Token.is_eq_true.mpr eof)
      have before := i.lt_of_is inside other rfl
      have awaits : (State.addDone {} done).AwaitsDeclaration (c.depth != 0) := by
        rw [outside]
        exact ⟨rfl, rfl, rfl⟩
      rw [if_neg ends]
      refine ((walks_of_fuel i fuel).declaration before (by omega) awaits (fun _ => rfl)
        resumes).bind ?_
      intro next c' after
      have further := after.further
      have resumes := after.resumes
      rw [addDone_append] at resumes
      exact ih after.moves.inside (by omega) (after.moves.depth.trans outside) resumes

end Declarations

end Treewalk.Descent
