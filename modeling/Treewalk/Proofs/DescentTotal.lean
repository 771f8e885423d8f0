import Treewalk.Proofs.DescentStatements
import Treewalk.Proofs.ParseExact

namespace Treewalk

open Token (Kind)
open Parse (maxArguments primary?)

namespace Descent

/-- The cursor has moved on, though not past `stop`; by a token at least where it must. -/
structure Forward (stop : Nat) (takes : Bool) (c c' : Cursor) : Prop where
  le : c.pos ≤ c'.pos
  inside : c'.pos ≤ stop
  further : takes = true → c.pos < stop → c.pos < c'.pos

/-- From every place up to `stop` the procedure moves forward without passing `stop`. It gives a
value, or fails if it may, unless the fuel does not suffice; it never looks outside the tokens. -/
def Stays {α : Type} (tokens : List Token) (stop : Nat) (fails takes : Bool) (x : Read α) : Prop :=
  ∀ c, c.pos ≤ stop →
    (∃ a c', x tokens c = .ok a c' ∧ Forward stop takes c c') ∨
    ∃ why c', x tokens c = .error why c' ∧
      (why = .exhausted ∨ fails = true ∧ ∃ e, why = .failed e) ∧ Forward stop false c c'

namespace Forward

variable {stop : Nat} {takes : Bool} {a b c : Cursor}

theorem refl (inside : c.pos ≤ stop) : Forward stop false c c :=
  ⟨Nat.le_refl _, inside, by simp⟩

theorem trans (first : Forward stop takes a b) (second : Forward stop false b c) :
    Forward stop takes a c := by
  have le := second.le
  refine ⟨Nat.le_trans first.le le, second.inside, ?_⟩
  intro must before
  have := first.further must before
  omega

theorem later (first : Forward stop false a b) (second : Forward stop takes b c) :
    Forward stop takes a c := by
  have le := first.le
  have le' := second.le
  refine ⟨Nat.le_trans le le', second.inside, ?_⟩
  intro must before
  by_cases inner : b.pos < stop
  · have := second.further must inner
    omega
  · omega

theorem one (before : c.pos < stop) : Forward stop takes c { c with pos := c.pos + 1 } :=
  ⟨Nat.le_succ _, before, fun _ _ => Nat.lt_succ_self _⟩

theorem loosen (forward : Forward stop takes a b) : Forward stop false a b :=
  ⟨forward.le, forward.inside, by simp⟩

end Forward

namespace Stays

variable {α β : Type} {i : Input} {fails takes : Bool} {x : Read α} {f : α → Read β}

theorem bind (first : Stays i.tokens i.stop fails takes x)
    (then_ : ∀ a, Stays i.tokens i.stop fails false (f a)) :
    Stays i.tokens i.stop fails takes (x >>= f) := by
  intro c inside
  rcases first c inside with ⟨a, c', ran, forward⟩ | ⟨why, c', ran, allowed, forward⟩
  · rcases then_ a c' forward.inside with ⟨b, c'', ran', rest⟩ | ⟨why, c'', ran', allowed, rest⟩
    · exact .inl ⟨b, c'', by rw [run_bind_ok ran, ran'], forward.trans rest⟩
    · exact .inr ⟨why, c'', by rw [run_bind_ok ran, ran'], allowed, forward.loosen.trans rest⟩
  · exact .inr ⟨why, c', run_bind_error ran, allowed, forward⟩

theorem later (first : Stays i.tokens i.stop fails false x)
    (then_ : ∀ a, Stays i.tokens i.stop fails takes (f a)) :
    Stays i.tokens i.stop fails takes (x >>= f) := by
  intro c inside
  rcases first c inside with ⟨a, c', ran, forward⟩ | ⟨why, c', ran, allowed, forward⟩
  · rcases then_ a c' forward.inside with ⟨b, c'', ran', rest⟩ | ⟨why, c'', ran', allowed, rest⟩
    · exact .inl ⟨b, c'', by rw [run_bind_ok ran, ran'], forward.later rest⟩
    · exact .inr ⟨why, c'', by rw [run_bind_ok ran, ran'], allowed, forward.trans rest⟩
  · exact .inr ⟨why, c', run_bind_error ran, allowed, forward⟩

theorem loosen (stays : Stays i.tokens i.stop fails takes x) :
    Stays i.tokens i.stop fails false x := by
  intro c inside
  rcases stays c inside with ⟨a, c', ran, forward⟩ | failed
  · exact .inl ⟨a, c', ran, forward.loosen⟩
  · exact .inr failed

theorem allow (stays : Stays i.tokens i.stop false takes x) :
    Stays i.tokens i.stop true takes x := by
  intro c inside
  rcases stays c inside with returned | ⟨why, c', ran, allowed, forward⟩
  · exact .inl returned
  · have only : why = .exhausted := by simpa using allowed
    exact .inr ⟨why, c', ran, .inl only, forward⟩

theorem pure (a : α) : Stays i.tokens i.stop fails false (Pure.pure a) :=
  fun c inside => .inl ⟨a, c, rfl, .refl inside⟩

theorem exhausted : Stays i.tokens i.stop fails takes (throw .exhausted : Read α) :=
  fun c inside => .inr ⟨_, c, rfl, .inl rfl, .refl inside⟩

theorem ite {p : Prop} [Decidable p] {y : Read α} (yes : Stays i.tokens i.stop fails takes x)
    (no : Stays i.tokens i.stop fails takes y) :
    Stays i.tokens i.stop fails takes (if p then x else y) := by
  by_cases holds : p
  · rwa [if_pos holds]
  · rwa [if_neg holds]

theorem peek : Stays i.tokens i.stop fails false Descent.peek :=
  fun c inside => .inl ⟨_, c, run_peek inside, .refl inside⟩

theorem previous : Stays i.tokens i.stop fails false Descent.previous :=
  fun c inside => .inl ⟨_, c, run_previous inside, .refl inside⟩

theorem get : Stays i.tokens i.stop fails false (MonadState.get : Read Cursor) :=
  fun c inside => .inl ⟨c, c, rfl, .refl inside⟩

theorem atEnd : Stays i.tokens i.stop fails false Descent.atEnd :=
  fun c inside => .inl ⟨_, c, run_atEnd inside, .refl inside⟩

theorem advance : Stays i.tokens i.stop fails true Descent.advance := by
  intro c inside
  by_cases before : c.pos < i.stop
  · exact .inl ⟨_, _, run_advance inside before, .one before⟩
  · have last : c.pos = i.stop := by omega
    exact .inl ⟨_, c, run_advance_end last, Nat.le_refl _, inside, fun _ no => absurd no before⟩

theorem report (e : SyntaxError) : Stays i.tokens i.stop fails false (Descent.report e) :=
  fun c inside => .inl ⟨(), _, run_report e, Nat.le_refl _, inside, by simp⟩

theorem fail (problem : Problem) :
    Stays i.tokens i.stop true takes (Descent.fail problem : Read α) :=
  fun c inside => .inr ⟨_, c, run_fail inside problem, .inr ⟨rfl, _, rfl⟩, .refl inside⟩

variable {kind : Kind} {y z : Read β} (other : kind ≠ .eof)

include other

theorem check : Stays i.tokens i.stop fails false (Descent.check kind) :=
  fun c inside => .inl ⟨_, c, run_check inside other, .refl inside⟩

theorem expect (problem : Problem) :
    Stays i.tokens i.stop true true (Descent.expect kind problem) := by
  intro c inside
  by_cases here : (i.token c.pos).is kind = true
  · have before := i.lt_of_is inside other (Token.is_eq_true.mp here)
    exact .inl ⟨_, _, run_expect inside problem other here, .one before⟩
  · have no := eq_false_of_ne_true here
    exact .inr ⟨_, c, run_expect_not inside problem other no, .inr ⟨rfl, _, rfl⟩, .refl inside⟩

theorem accept (hit : Stays i.tokens i.stop fails false y)
    (miss : Stays i.tokens i.stop fails takes z) :
    Stays i.tokens i.stop fails takes
      (Descent.accept kind >>= fun b => if b = true then y else z) := by
  intro c inside
  by_cases here : (i.token c.pos).is kind = true
  · have before := i.lt_of_is inside other (Token.is_eq_true.mp here)
    have ran := run_bind_ok (f := fun b => if b = true then y else z) (run_accept inside other here)
    rw [ran, if_pos rfl]
    rcases hit { c with pos := c.pos + 1 } before with
      ⟨b, c', ran', rest⟩ | ⟨why, c', ran', allowed, rest⟩
    · exact .inl ⟨b, c', ran', (Forward.one before).trans rest⟩
    · exact .inr ⟨why, c', ran', allowed, (Forward.one before).trans rest⟩
  · have no := eq_false_of_ne_true here
    have ran := run_bind_ok (f := fun b => if b = true then y else z)
      (run_accept_not inside other no)
    rw [ran]
    exact miss c inside

omit other

theorem acceptAny {kinds : List Kind} (others : ∀ kind ∈ kinds, kind ≠ .eof) :
    Stays i.tokens i.stop fails false (Descent.acceptAny kinds) := by
  induction kinds with
  | nil => exact .pure _
  | cons kind kinds ih =>
    have rest := ih fun k member => others k (List.mem_cons_of_mem _ member)
    exact accept (others kind List.mem_cons_self) (.pure true) rest

end Stays

section Procedures

variable {i : Input} {fuel : Nat}

theorem read_stays (i : Input) (fuel : Nat) (rule : Rule) :
    Stays i.tokens i.stop true false (read fuel rule) := by
  induction fuel generalizing rule with
  | zero => exact .exhausted
  | succ fuel ih =>
    cases rule with
    | assignment =>
      rw [read]
      apply Stays.later (ih _)
      intro target
      apply Stays.accept (by decide)
      · apply Stays.later .previous
        intro equals
        apply Stays.later (ih _)
        intro value
        split
        · exact .pure _
        · exact .later (.report _) fun _ => .pure _
      · exact .pure _
    | level l =>
      rw [read_level]
      exact .later (ih _) fun left => ih _
    | more l left =>
      rw [read]
      apply Stays.later (.acceptAny (noEof_kinds l))
      intro found
      apply Stays.ite
      · apply Stays.later .previous
        intro op
        exact .later (ih _) fun right => ih _
      · exact .pure _
    | unary =>
      rw [read]
      apply Stays.later (.acceptAny (by decide))
      intro found
      apply Stays.ite
      · apply Stays.later .previous
        intro op
        exact .later (ih _) fun operand => .pure _
      · exact ih _
    | call =>
      rw [read]
      exact .later (ih _) fun callee => ih _
    | moreCalls callee =>
      rw [read]
      apply Stays.accept (by decide)
      · apply Stays.later (.check (by decide))
        intro closes
        apply Stays.ite
        · exact .later (Stays.expect (by decide) _).loosen fun paren => ih _
        · exact .later (ih _) fun value => ih _
      · exact .pure _
    | arguments callee args =>
      have argument : Stays i.tokens i.stop true false (do
          let arg ← read fuel .assignment
          if ← accept .comma then read fuel (.arguments callee (args.push arg))
          else
            let paren ← expect .rightParen .argumentsEnd
            return .call callee paren (args.push arg).toList) := by
        apply Stays.later (ih _)
        intro arg
        apply Stays.accept (by decide) (ih _)
        exact .later (Stays.expect (by decide) _).loosen fun paren => .pure _
      rw [read]
      apply Stays.ite
      · apply Stays.later .peek
        intro here
        exact .later (.report _) fun _ => argument
      · exact argument
    | primary =>
      rw [read]
      apply Stays.later .peek
      intro here
      cases primary? here with
      | some value => exact .later Stays.advance.loosen fun _ => .pure _
      | none =>
        apply Stays.accept (by decide)
        · apply Stays.later (ih _)
          intro inner
          exact .later (Stays.expect (by decide) _).loosen fun _ => .pure _
        · exact .fail _

theorem closedExpression_stays {closer : Kind × Problem} (other : closer.1 ≠ .eof) :
    Stays i.tokens i.stop true true (closedExpression fuel closer) := by
  unfold closedExpression
  apply Stays.later (read_stays i fuel _)
  intro value
  exact .bind (.expect other _) fun _ => .pure _

theorem optionalExpression_stays {closer : Kind × Problem} (other : closer.1 ≠ .eof) :
    Stays i.tokens i.stop true true (optionalExpression fuel closer) := by
  unfold optionalExpression
  apply Stays.later (.check other)
  intro closes
  apply Stays.ite
  · exact .bind (.expect other _) fun _ => .pure _
  · exact .bind (closedExpression_stays other) fun value => .pure _

theorem variableDeclaration_stays : Stays i.tokens i.stop true true (variableDeclaration fuel) := by
  unfold variableDeclaration
  apply Stays.bind (.expect (by decide) _)
  intro name
  apply Stays.accept (by decide)
  · exact .later (closedExpression_stays (by decide)).loosen fun value => .pure _
  · exact .later (Stays.expect (by decide) _).loosen fun _ => .pure _

theorem parameters_stays (params : Array Token) :
    Stays i.tokens i.stop true false (parameters fuel params) := by
  induction fuel generalizing params with
  | zero => exact .exhausted
  | succ fuel ih =>
    have parameter : Stays i.tokens i.stop true false (do
        let x ← expect .identifier .parameterName
        if ← accept .comma then parameters fuel (params.push x) else return params.push x) := by
      apply Stays.later (Stays.expect (by decide) _).loosen
      intro x
      exact .accept (by decide) (ih _) (.pure _)
    rw [parameters]
    apply Stays.ite
    · apply Stays.later .peek
      intro here
      exact .later (.report _) fun _ => parameter
    · exact parameter

theorem parameterList_stays : Stays i.tokens i.stop true false (parameterList fuel) := by
  unfold parameterList
  apply Stays.later (.check (by decide))
  intro closes
  exact .ite (.pure _) (parameters_stays _)

theorem inBody_stays {α : Type} {x : Read α} (stays : Stays i.tokens i.stop true false x) :
    Stays i.tokens i.stop true false (inBody x) := by
  intro c inside
  unfold inBody
  rcases stays { c with depth := c.depth + 1 } inside with
    ⟨a, c', ran, forward⟩ | ⟨why, c', ran, allowed, forward⟩
  · rw [ran]
    exact .inl ⟨a, _, rfl, forward.le, forward.inside, by simp⟩
  · rw [ran]
    exact .inr ⟨why, _, rfl, allowed, forward.le, forward.inside, by simp⟩

theorem functionDeclaration_stays {list : Read (List Stmt)}
    (stays : Stays i.tokens i.stop true false list) :
    Stays i.tokens i.stop true true (functionDeclaration fuel list) := by
  unfold functionDeclaration
  apply Stays.bind (.expect (by decide) _)
  intro name
  apply Stays.later (Stays.expect (by decide) _).loosen
  intro _
  apply Stays.later parameterList_stays
  intro params
  apply Stays.later (Stays.expect (by decide) _).loosen
  intro _
  apply Stays.later (Stays.expect (by decide) _).loosen
  intro _
  exact .later (inBody_stays stays) fun body => .pure _

theorem printStatement_stays : Stays i.tokens i.stop true true (printStatement fuel) := by
  unfold printStatement
  apply Stays.later .previous
  intro keyword
  exact .bind (closedExpression_stays (by decide)) fun value => .pure _

theorem returnStatement_stays : Stays i.tokens i.stop true true (returnStatement fuel) := by
  unfold returnStatement
  apply Stays.later .previous
  intro keyword
  have value : Stays i.tokens i.stop true true (do
      let value ← optionalExpression fuel (.semicolon, .returnEnd)
      return Stmt.ret keyword value) :=
    .bind (optionalExpression_stays (by decide)) fun value => .pure _
  apply Stays.later .get
  intro c
  apply Stays.ite
  · exact .later (.report _) fun _ => value
  · exact value

theorem forInitial_stays : Stays i.tokens i.stop true false (forInitial fuel) := by
  unfold forInitial
  apply Stays.accept (by decide) (.pure _)
  apply Stays.accept (by decide)
  · exact .later variableDeclaration_stays.loosen fun x => .pure _
  · exact .later (closedExpression_stays (by decide)).loosen fun value => .pure _

section Nested

variable {body : Read Stmt} (stays : Stays i.tokens i.stop true false body)

include stays

theorem forStatement_stays : Stays i.tokens i.stop true true (forStatement fuel body) := by
  unfold forStatement
  apply Stays.bind (.expect (by decide) _)
  intro _
  apply Stays.later forInitial_stays
  intro initial
  apply Stays.later (optionalExpression_stays (by decide)).loosen
  intro condition
  apply Stays.later (optionalExpression_stays (by decide)).loosen
  intro increment
  exact .later stays fun x => .pure _

theorem ifStatement_stays : Stays i.tokens i.stop true true (ifStatement fuel body) := by
  unfold ifStatement
  apply Stays.bind (.expect (by decide) _)
  intro _
  apply Stays.later (closedExpression_stays (by decide)).loosen
  intro condition
  apply Stays.later stays
  intro first
  apply Stays.accept (by decide)
  · exact .later stays fun second => .pure _
  · exact .pure _

theorem whileStatement_stays : Stays i.tokens i.stop true true (whileStatement fuel body) := by
  unfold whileStatement
  apply Stays.bind (.expect (by decide) _)
  intro _
  apply Stays.later (closedExpression_stays (by decide)).loosen
  intro condition
  exact .later stays fun x => .pure _

end Nested

theorem expressionStatement_stays : Stays i.tokens i.stop true true (expressionStatement fuel) := by
  unfold expressionStatement
  exact .bind (closedExpression_stays (by decide)) fun value => .pure _

theorem skip_stays : Stays i.tokens i.stop false false (skip fuel) := by
  induction fuel with
  | zero => exact .exhausted
  | succ fuel ih =>
    rw [skip]
    apply Stays.later .atEnd
    intro ends
    apply Stays.ite (.pure _)
    apply Stays.later .previous
    intro last
    apply Stays.ite (.pure _)
    apply Stays.later .peek
    intro here
    apply Stays.ite (.pure _)
    exact .later Stays.advance.loosen fun _ => ih

theorem recover_stays {x : Read Stmt} (stays : Stays i.tokens i.stop true true x) :
    Stays i.tokens i.stop false true (recover fuel x) := by
  intro c inside
  rcases stays c inside with ⟨x, c', ran, forward⟩ | ⟨why, c', ran, allowed, forward⟩
  · exact .inl ⟨some x, c', by simp only [recover, ran], forward⟩
  · rcases allowed with rfl | ⟨_, e, rfl⟩
    · exact .inr ⟨_, c', by simp only [recover, ran], .inl rfl, forward⟩
    · have skipped : Stays i.tokens i.stop false true
          (do report e; let _ ← advance; skip fuel; return none : Read (Option Stmt)) := by
        apply Stays.later (.report e)
        intro _
        apply Stays.bind .advance
        intro _
        exact .later skip_stays fun _ => .pure _
      have run : recover fuel x i.tokens c =
          (do report e; let _ ← advance; skip fuel; return none :
            Read (Option Stmt)) i.tokens c' := by
        simp only [recover, ran]
      rw [run]
      rcases skipped c' forward.inside with ⟨x, c'', ran', rest⟩ | ⟨why, c'', ran', allowed, rest⟩
      · exact .inl ⟨x, c'', ran', forward.later rest⟩
      · exact .inr ⟨why, c'', ran', allowed, forward.trans rest⟩

theorem listEnds_stays : Stays i.tokens i.stop true false listEnds := by
  unfold listEnds
  apply Stays.later (.check (by decide))
  intro closes
  exact .later .atEnd fun ends => .pure _

end Procedures

/-- Where the first end of the input is at `stop`, no procedure passes it, and a statement or a
declaration takes a token at least. A declaration does not fail. -/
structure Progresses (tokens : List Token) (stop fuel : Nat) : Prop where
  peek : Stays tokens stop false false peek
  previous : Stays tokens stop false false previous
  expression : ∀ rule, Stays tokens stop true false (read fuel rule)
  statement : Stays tokens stop true true (statement fuel)
  declaration : Stays tokens stop false true (declaration fuel)
  block : ∀ done, Stays tokens stop true false (block fuel done)
  program : ∀ done, Stays tokens stop false false (program fuel done)

theorem progresses (i : Input) (fuel : Nat) : Progresses i.tokens i.stop fuel := by
  induction fuel with
  | zero =>
    exact ⟨.peek, .previous, read_stays i 0, .exhausted, .exhausted, fun _ => .exhausted,
      fun _ => .exhausted⟩
  | succ fuel ih =>
    have list := ih.block
    have inner := ih.statement.loosen
    refine ⟨.peek, .previous, read_stays i _, ?_, ?_, ?_, ?_⟩
    · rw [statement]
      apply Stays.accept (by decide) (forStatement_stays inner).loosen
      apply Stays.accept (by decide) (ifStatement_stays inner).loosen
      apply Stays.accept (by decide) printStatement_stays.loosen
      apply Stays.accept (by decide) returnStatement_stays.loosen
      apply Stays.accept (by decide) (whileStatement_stays inner).loosen
      apply Stays.accept (by decide)
      · exact .later (list []) fun body => .pure _
      · exact expressionStatement_stays
    · rw [declaration]
      apply recover_stays
      apply Stays.accept (by decide) (functionDeclaration_stays (list [])).loosen
      exact .accept (by decide) variableDeclaration_stays.loosen ih.statement
    · intro done
      rw [block]
      apply Stays.later listEnds_stays
      intro ends
      apply Stays.ite
      · exact .later (Stays.expect (by decide) _).loosen fun _ => .pure _
      · exact .later ih.declaration.loosen.allow fun next => list _
    · intro done
      rw [program]
      apply Stays.later .atEnd
      intro ends
      apply Stays.ite (.pure _)
      exact .later ih.declaration.loosen fun next => ih.program _

def firstEnd (tokens : List Token) : Nat := tokens.findIdx (·.is .eof)

theorem Input.firstEnd_tokens (i : Input) : firstEnd i.tokens = i.stop := by
  have none : i.body.findIdx (·.is .eof) = i.body.length := by
    apply List.findIdx_eq_length_of_false
    intro t member
    simpa [Token.is] using i.plain t member
  have here : i.ending.is .eof = true := Token.is_eq_true.mpr i.ends
  unfold firstEnd Input.tokens
  rw [List.findIdx_append, none, if_neg (Nat.lt_irrefl _), List.findIdx_cons, here]
  exact Nat.zero_add _

theorem split_at_ending {tokens : List Token} (ends : ∃ t ∈ tokens, t.kind = .eof) :
    ∃ rest, tokens = Parse.body tokens ++ Parse.ending tokens :: rest := by
  obtain ⟨t, member, kind⟩ := ends
  have split : Parse.body tokens ++ tokens.dropWhile (!·.is .eof) = tokens :=
    List.takeWhile_append_dropWhile
  have first : tokens.find? (·.is .eof) = (tokens.dropWhile (!·.is .eof)).head? :=
    List.find?_eq_head?_dropWhile_not _ _
  cases found : tokens.find? (·.is .eof) with
  | none => exact absurd (Token.is_eq_true.mpr kind) (List.find?_eq_none.mp found t member)
  | some eof =>
    have ending : Parse.ending tokens = eof := by simp only [Parse.ending, found]
    rw [found] at first
    obtain ⟨rest, front⟩ := List.head?_eq_some_iff.mp first.symm
    exact ⟨rest, by rw [ending, ← front, split]⟩

theorem padded_eq (tokens : List Token) :
    ∃ rest, padded tokens = Parse.body tokens ++ Parse.ending tokens :: rest := by
  by_cases ends : ∃ t ∈ tokens, t.kind = .eof
  · obtain ⟨rest, split⟩ := split_at_ending ends
    have longer (more : List Token) :
        tokens ++ more = Parse.body tokens ++ Parse.ending tokens :: (rest ++ more) := by
      rw [← List.cons_append, ← List.append_assoc, ← split]
    by_cases closed : tokens.getLast?.any (·.is .eof) = true
    · exact ⟨rest, by rw [padded, if_pos closed, ← split]⟩
    · rw [padded, if_neg closed]
      exact ⟨_, longer _⟩
  · have plain : ∀ t ∈ tokens, ¬ t.is .eof = true :=
      fun t member eof => ends ⟨t, member, Token.is_eq_true.mp eof⟩
    have whole : Parse.body tokens = tokens := by
      refine List.takeWhile_eq_self_iff.mpr fun t member => ?_
      rw [Bool.not_eq_true', Bool.eq_false_iff]
      exact plain t member
    have none : tokens.find? (·.is .eof) = none := List.find?_eq_none.mpr plain
    have closed : ¬ tokens.getLast?.any (·.is .eof) = true := by
      cases last : tokens.getLast? with
      | none => simp
      | some t => exact plain t (List.mem_of_getLast? last)
    refine ⟨[], ?_⟩
    rw [padded, if_neg closed, whole]
    simp only [Parse.ending, none]

theorem exists_input (tokens : List Token) :
    ∃ i : Input, i.tokens = padded tokens ∧ i.body = Parse.body tokens ∧
      i.ending = Parse.ending tokens := by
  obtain ⟨rest, same⟩ := padded_eq tokens
  have plain : ∀ t ∈ Parse.body tokens, t.kind ≠ .eof := by
    intro t member
    have kept := List.mem_takeWhile_imp member
    simpa [Token.is] using kept
  exact ⟨⟨Parse.body tokens, Parse.ending tokens, rest, plain, Parse.ending_kind tokens⟩,
    same.symm, rfl, rfl⟩

theorem parse_eq_of_fuel {fuel : Nat} (tokens : List Token)
    (enough : 16 * (tokens.length + 1) ≤ fuel) :
    parse fuel tokens = .ok (Treewalk.parse tokens) := by
  obtain ⟨i, same, body, ending⟩ := exists_input tokens
  have short : i.stop ≤ tokens.length := by
    rw [Input.stop, body]
    exact (List.takeWhile_prefix _).length_le
  have start : Resumes i (Treewalk.parse tokens) (Parse.State.addDone {} []) {} := by
    rw [addDone_nil]
    simp [Resumes, Input.outcome, Treewalk.parse, body, ending]
  have fuelled : 16 * (i.stop - 0) + 12 < fuel := by omega
  have run : Returns i (program fuel []) {} _ fun _ _ => False :=
    program_returns (Nat.zero_le _) fuelled rfl start
  rcases run with ⟨statements, c, ran, outcome⟩ | ⟨_, _, _, no⟩
  · rw [same] at ran
    simp only [parse, ran, outcome]
  · exact no.elim

end Descent

theorem parse_append {eof : Token} (kind : eof.kind = .eof) (tokens rest : List Token) :
    parse (tokens ++ eof :: rest) = parse (tokens ++ [eof]) := by
  have body : Parse.body (tokens ++ eof :: rest) = Parse.body (tokens ++ [eof]) := by
    simp [Parse.body, List.takeWhile_append, Token.is, kind]
  have found (rest : List Token) : (tokens ++ eof :: rest).find? (·.is .eof) =
      some ((tokens.find? (·.is .eof)).getD eof) := by
    have here : (eof :: rest).find? (·.is .eof) = some eof :=
      List.find?_cons_of_pos (Token.is_eq_true.mpr kind)
    rw [List.find?_append, here]
    cases tokens.find? (·.is .eof) <;> rfl
  have ending : Parse.ending (tokens ++ eof :: rest) = Parse.ending (tokens ++ [eof]) := by
    simp only [Parse.ending, found]
  rw [parse, parse, body, ending]

/-- Reading ends on every list of tokens. With fuel for each token the descent gives what `parse`
gives, so none of its procedures looks outside the padded list or runs out of fuel; wherever they
are called they move forward and not past the first end of the input, and a declaration takes a
token at least, be it read or given up. What stands behind the first end does not matter. -/
theorem parsing_is_total (tokens : List Token) :
    (∀ fuel, 16 * (tokens.length + 1) ≤ fuel →
      Descent.parse fuel tokens = .ok (parse tokens)) ∧
    (∀ fuel, Descent.Progresses (Descent.padded tokens) (Descent.firstEnd (Descent.padded tokens))
      fuel) ∧
    ∀ (eof : Token) (rest : List Token), eof.kind = .eof →
      parse (tokens ++ eof :: rest) = parse (tokens ++ [eof]) := by
  refine ⟨fun fuel enough => Descent.parse_eq_of_fuel tokens enough, ?_, ?_⟩
  · intro fuel
    obtain ⟨i, same, _, _⟩ := Descent.exists_input tokens
    rw [← same, i.firstEnd_tokens]
    exact Descent.progresses i fuel
  · intro eof rest kind
    exact parse_append kind tokens rest

end Treewalk
