import Treewalk.Proofs.DescentRuns
import Treewalk.Proofs.FaultRecovery

namespace Treewalk

open Token (Kind)
open Grammar (Tier)

namespace Parse

variable {t : Token} {pending pending' outer : List Pending} {v v' r left : Expr} {l : Level}

namespace Level

theorem right_le_succ (l : Level) : l.right.rank ≤ l.rank + 1 := by
  cases l <;> decide

theorem rank_injective {l l' : Level} (same : l.rank = l'.rank) : l = l' := by
  cases l <;> cases l' <;> first | rfl | cases same

end Level

theorem feedOperator_level (kind : Level.ofKind? t.kind = some l) :
    feedOperator pending v t =
      ([], .more { pending := .operator l (close (·.closesBefore l) pending v).2 t ::
        (close (·.closesBefore l) pending v).1 }) := by
  cases here : t.kind <;> rw [here] at kind <;> cases kind <;>
    simp [feedOperator, here, Level.ofKind?]

theorem feedOperator_equal (kind : t.kind = .equal) :
    feedOperator pending v t =
      ([], .more { pending := .assign (close (fun _ => true) pending v).2 t ::
        (close (fun _ => true) pending v).1 }) := by
  simp [feedOperator, kind]

theorem feedOperator_paren (kind : t.kind = .leftParen) :
    feedOperator pending v t = ([], .more { pending := .call v #[] :: pending }) := by
  simp [feedOperator, kind]

theorem feedOperator_plain (noCall : t.kind ≠ .leftParen) (noEqual : t.kind ≠ .equal)
    (noLevel : Level.ofKind? t.kind = none) :
    feedOperator pending v t =
      ((settle pending v []).errors, endInner (settle pending v []) t) := by
  unfold feedOperator
  split
  · exact absurd ‹_› noCall
  · exact absurd ‹_› noEqual
  · next found _ _ =>
    rw [noLevel] at found
    cases found
  · rfl

theorem feedOperator_congr (noCall : t.kind ≠ .leftParen)
    (closed : ∀ l, Level.ofKind? t.kind = some l →
      close (·.closesBefore l) pending v = close (·.closesBefore l) pending' v')
    (closedAll : t.kind = .equal →
      close (fun _ => true) pending v = close (fun _ => true) pending' v')
    (settled : settle pending v [] = settle pending' v' []) :
    feedOperator pending v t = feedOperator pending' v' t := by
  by_cases equal : t.kind = .equal
  · rw [feedOperator_equal equal, feedOperator_equal equal, closedAll equal]
  · cases level : Level.ofKind? t.kind with
    | some l => rw [feedOperator_level level, feedOperator_level level, closed l level]
    | none =>
      rw [feedOperator_plain noCall equal level, feedOperator_plain noCall equal level, settled]

theorem startOperand_primary (own : primary? t = some v) :
    startOperand outer t = .more { pending := outer, operand := some v } := by
  unfold startOperand
  split
  · next kind => simp [primary?, kind] at own
  · next kind => simp [primary?, kind] at own
  · next kind => simp [primary?, kind] at own
  · rw [own]

theorem startOperand_foreign (none : primary? t = none) (noUnary : t.kind ∉ [.bang, .minus])
    (noParen : t.kind ≠ .leftParen) : startOperand outer t = .stuck .expression := by
  unfold startOperand
  split
  · next kind => simp [kind] at noUnary
  · next kind => simp [kind] at noUnary
  · next kind => exact absurd kind noParen
  · rw [none]

theorem settle_append (pending : List Pending) (v : Expr) (es es' : List SyntaxError) :
    settle pending v (es ++ es') =
      { settle pending v es' with errors := es ++ (settle pending v es').errors } := by
  fun_induction settle pending v es' with
  | case1 op pending v es' ih => exact ih
  | case2 l left op pending v es' ih => exact ih
  | case3 name equals pending v es' ih => exact ih
  | case4 target equals pending v es' other ih =>
    have different : ∀ name, target ≠ .var name := fun name same => other name same
    rw [settle_refused different, List.append_assoc]
    exact ih
  | case5 pending v es' noUnary noOperator noAssign noTarget =>
    rw [settle]
    all_goals assumption

structure Follows (tier : Tier) (t : Token) : Prop where
  noCall : tier ≠ .primary → t.kind ≠ .leftParen
  looser : ∀ l, Level.ofKind? t.kind = some l → l.rank < tier.rank
  noEqual : tier = .expression → t.kind ≠ .equal

namespace Follows

theorem noLevel (follows : Follows .expression t) : Level.ofKind? t.kind = none := by
  cases found : Level.ofKind? t.kind with
  | none => rfl
  | some l => exact absurd (follows.looser l found) (Nat.not_lt_zero _)

theorem of_tight {tier : Tier} (tight : Tier.unary.rank ≤ tier.rank)
    (noCall : tier ≠ .primary → t.kind ≠ .leftParen) : Follows tier t where
  noCall := noCall
  looser l _ := Nat.lt_of_lt_of_le l.rank_lt_unary tight
  noEqual same := by
    rw [same] at tight
    exact absurd tight (by decide)

theorem operator {op : Token} (follows : Follows l.right t) :
    OpenExpr.feed { pending := .operator l left op :: outer, operand := some r } t =
      OpenExpr.feed { pending := outer, operand := some (l.node left op r) } t := by
  have noCall : t.kind ≠ .leftParen := follows.noCall (by cases l <;> decide)
  apply feedOperator_congr noCall
  · intro next found
    have loose := follows.looser next found
    have closes : l.closesBefore next = true := by
      cases same : l.closesBefore next with
      | true => rfl
      | false => exact absurd (l.right_le_of_open next same) (by omega)
    rw [close, if_pos closes]
  · intro _
    rfl
  · rfl

theorem unary {op : Token} (follows : Follows .unary t) :
    OpenExpr.feed { pending := .unary op :: outer, operand := some r } t =
      OpenExpr.feed { pending := outer, operand := some (.unary op r) } t :=
  feedOperator_congr (follows.noCall (by decide)) (fun _ _ => rfl) (fun _ => rfl) rfl

theorem plain (follows : Follows .expression t) :
    OpenExpr.feed { pending, operand := some v } t =
      ((settle pending v []).errors, endInner (settle pending v []) t) :=
  feedOperator_plain (follows.noCall (by decide)) (follows.noEqual rfl) follows.noLevel

theorem assign {name equals : Token} (follows : Follows .expression t) :
    OpenExpr.feed { pending := .assign (.var name) equals :: outer, operand := some r } t =
      OpenExpr.feed { pending := outer, operand := some (.assign name r) } t := by
  rw [follows.plain, follows.plain]
  rfl

theorem refused {target : Expr} {equals : Token} (follows : Follows .expression t)
    (other : ∀ name, target ≠ .var name) :
    OpenExpr.feed { pending := .assign target equals :: outer, operand := some r } t =
      ([.atToken equals .assignmentTarget] ++
        (OpenExpr.feed { pending := outer, operand := some target } t).1,
        (OpenExpr.feed { pending := outer, operand := some target } t).2) := by
  have apart := settle_append outer target [.atToken equals .assignmentTarget] []
  rw [List.append_nil] at apart
  rw [follows.plain, follows.plain, settle_refused other, List.nil_append, apart]
  rfl

theorem group (follows : Follows .expression t) (outer : List Pending) (v : Expr) :
    OpenExpr.feed { pending := .group :: outer, operand := some v } t =
      ([], if t.is .rightParen then .more { pending := outer, operand := some (.group v) }
        else .stuck .groupEnd) := follows.plain

theorem argument (follows : Follows .expression t) (outer : List Pending) (callee : Expr)
    (args : Array Expr) (v : Expr) :
    OpenExpr.feed { pending := .call callee args :: outer, operand := some v } t =
      ([], if t.is .comma then .more { pending := .call callee (args.push v) :: outer }
        else if t.is .rightParen then
          .more { pending := outer, operand := some (.call callee t (args.push v).toList) }
        else .stuck .argumentsEnd) := follows.plain

theorem whole (follows : Follows .expression t) :
    OpenExpr.feed { operand := some v } t = ([], .complete v) := follows.plain

end Follows

end Parse

namespace Descent

open Parse (State OpenExpr Pending Progress Level Goal Follows demand startOperand feedOperator
  feedOperand maxArguments primary? appendList_append)

def landed (s : State) (goal : Goal) (t : Token) : Progress → State
  | .more next => { s with mode := .value goal next }
  | .stuck problem => s.fail t problem
  | .complete value => if t.is goal.closer.1 then s.reach value goal else s.fail t goal.closer.2

def reading (s : State) (goal : Goal) (e : OpenExpr) (c : Cursor) : State :=
  { s with mode := .value goal e, errors := c.errors }

section Steps

variable {i : Input} {p : Parsed} {s : State} {goal : Goal} {e e' : OpenExpr} {c : Cursor}
  {t : Token} {es : List SyntaxError} {outer : List Pending}

theorem feedValue_eq (s : State) (goal : Goal) (e : OpenExpr) (t : Token) :
    s.feedValue goal e t =
      landed { s with errors := s.errors ++ (e.feed t).1 } goal t (e.feed t).2 := by
  unfold State.feedValue landed
  obtain ⟨errors, progress⟩ := e.feed t
  cases progress <;> rfl

theorem feed_reading (s : State) (goal : Goal) (e : OpenExpr) (c : Cursor) (t : Token) :
    (reading s goal e c).feed t =
      landed { s with errors := c.errors ++ (e.feed t).1 } goal t (e.feed t).2 := by
  change { { s with errors := c.errors } with mode := .value goal e }.feedValue goal e t = _
  rw [State.feedValue_mode, feedValue_eq]

theorem busy_reading : Input.Busy (reading s goal e c) := .inr (.inr ⟨goal, e, rfl⟩)

/-- Going on with the expression `e` at the cursor leads to `p`. -/
def Leads (i : Input) (p : Parsed) (s : State) (goal : Goal) (e : OpenExpr) (c : Cursor) : Prop :=
  i.outcome (reading s goal e c) c.pos = p

namespace Leads

variable (leads : Leads i p s goal e c)

include leads

theorem step (before : c.pos < i.stop) (fed : e.feed (i.token c.pos) = (es, .more e')) :
    Leads i p s goal e' { c with pos := c.pos + 1, errors := c.errors ++ es } := by
  unfold Leads at leads
  rw [i.outcome_of_lt _ before, feed_reading, fed] at leads
  exact leads

theorem more (before : c.pos < i.stop) (fed : e.feed (i.token c.pos) = ([], .more e')) :
    Leads i p s goal e' { c with pos := c.pos + 1 } := by
  have next := leads.step before fed
  rwa [Array.appendList_nil] at next

theorem trade (inside : c.pos ≤ i.stop)
    (same : e.feed (i.token c.pos) =
      (es ++ (e'.feed (i.token c.pos)).1, (e'.feed (i.token c.pos)).2)) :
    Leads i p s goal e' { c with errors := c.errors ++ es } := by
  rw [← leads]
  apply i.outcome_congr busy_reading busy_reading inside
  rw [feed_reading, feed_reading, same, appendList_append]

theorem swap (inside : c.pos ≤ i.stop)
    (same : e.feed (i.token c.pos) = e'.feed (i.token c.pos)) : Leads i p s goal e' c := by
  rw [← leads]
  apply i.outcome_congr busy_reading busy_reading inside
  rw [feed_reading, feed_reading, same]

theorem givesUp {problem : Problem} (inside : c.pos ≤ i.stop)
    (fed : e.feed (i.token c.pos) = ([], .stuck problem)) : GivesUp i p s c problem c := by
  have fails : (reading s goal e c).feed (i.token c.pos) =
      { s with errors := c.errors }.fail (i.token c.pos) problem := by
    rw [feed_reading, fed, Array.appendList_nil]
    rfl
  refine ⟨.refl inside, ?_⟩
  rw [← leads, i.outcome_fail busy_reading inside fails]

end Leads

def Begins (i : Input) (p : Parsed) (s : State) (goal : Goal) (outer : List Pending) (c : Cursor) :
    Prop :=
  i.outcome (landed { s with errors := c.errors } goal (i.token c.pos)
    (startOperand outer (i.token c.pos))) (i.next c.pos) = p

theorem Begins.of_feed {s₀ : State} (busy : Input.Busy s₀) (inside : c.pos ≤ i.stop)
    (fed : s₀.feed (i.token c.pos) = landed { s with errors := c.errors } goal (i.token c.pos)
      (startOperand outer (i.token c.pos)))
    (outcome : i.outcome s₀ c.pos = p) : Begins i p s goal outer c := by
  unfold Begins
  rw [← outcome]
  by_cases before : c.pos < i.stop
  · rw [i.outcome_of_lt s₀ before, fed, Input.next, if_pos before]
  · have last : c.pos = i.stop := by omega
    have kind : (i.token c.pos).kind = .eof := (i.kind_token_eq_eof_iff inside).mpr last
    have stuck : startOperand outer (i.token c.pos) = .stuck .expression := by
      simp [startOperand, primary?, kind]
    rw [stuck] at fed ⊢
    exact (i.outcome_fail busy inside fed).symm

theorem Begins.of_leads (inside : c.pos ≤ i.stop)
    (fed : OpenExpr.feed { pending := outer } (i.token c.pos) =
      (es, startOperand outer (i.token c.pos)))
    (leads : Leads i p s goal { pending := outer } c) :
    Begins i p s goal outer { c with errors := c.errors ++ es } := by
  have landing := feed_reading s goal { pending := outer } c (i.token c.pos)
  rw [fed] at landing
  exact Begins.of_feed busy_reading inside landing leads

theorem Begins.of_start (inside : c.pos ≤ i.stop)
    (noCall : ∀ callee args inner, outer ≠ .call callee args :: inner)
    (leads : Leads i p s goal { pending := outer } c) : Begins i p s goal outer c := by
  have started := Begins.of_leads inside (Parse.feed_start noCall) leads
  rwa [Array.appendList_nil] at started

theorem Begins.leads (begins : Begins i p s goal outer c) (before : c.pos < i.stop)
    (started : startOperand outer (i.token c.pos) = .more e) :
    Leads i p s goal e { c with pos := c.pos + 1 } := by
  unfold Begins at begins
  rw [started, Input.next, if_pos before] at begins
  exact begins

end Steps

theorem not_closing {empty : Bool} {t : Token} (notEmpty : empty = true → t.kind ≠ .rightParen) :
    (empty && t.is .rightParen) = false := by
  cases empty with
  | false => rfl
  | true => exact Token.is_eq_false.mpr (notEmpty rfl)

namespace Rule

def tier : Rule → Tier
  | assignment => .expression
  | level l | more l _ => l.tier
  | unary => .unary
  | call | moreCalls _ => .call
  | arguments _ _ | primary => .primary

/-- How many procedures may be entered before a token is taken. -/
def rank : Rule → Nat
  | arguments _ _ => 10
  | assignment => 9
  | level l => 9 - l.rank
  | unary => 2
  | call => 1
  | more _ _ | moreCalls _ | primary => 0

def begins : Rule → Bool
  | more _ _ | moreCalls _ => false
  | _ => true

end Rule

def Awaits (i : Input) (p : Parsed) (s : State) (goal : Goal) (outer : List Pending) (c : Cursor) :
    Rule → Prop
  | .assignment | .level _ | .unary => Begins i p s goal outer c
  | .call | .primary =>
    (i.token c.pos).kind ∉ [.bang, .minus] ∧ Begins i p s goal outer c
  | .more l left =>
    (i.token c.pos).kind ≠ .leftParen ∧
    (∀ next, Level.ofKind? (i.token c.pos).kind = some next → next.rank ≤ l.rank) ∧
    Leads i p s goal { pending := outer, operand := some left } c
  | .moreCalls callee => Leads i p s goal { pending := outer, operand := some callee } c
  | .arguments callee args =>
    (args.isEmpty = true → (i.token c.pos).kind ≠ .rightParen) ∧
    Leads i p s goal { pending := .call callee args :: outer } c

/-- A procedure may be called: there is fuel for every token left, and what is pending lets an
expression of its tier stand there. -/
structure Ready (i : Input) (p : Parsed) (s : State) (goal : Goal) (outer : List Pending)
    (fuel : Nat) (rule : Rule) (c : Cursor) : Prop where
  inside : c.pos ≤ i.stop
  -- Fewer than sixteen procedures are entered at one place, those for statements included.
  fuel : 16 * (i.stop - c.pos) + rule.rank < fuel
  demanded : demand outer ≤ rule.tier.rank
  awaits : Awaits i p s goal outer c rule

/-- The procedure has read `e`, and that leads to the same outcome. -/
structure Reads (i : Input) (p : Parsed) (s : State) (goal : Goal) (outer : List Pending)
    (rule : Rule) (c : Cursor) (e : Expr) (c' : Cursor) : Prop where
  moves : Moves i c c'
  follows : Follows rule.tier (i.token c'.pos)
  leads : Leads i p s goal { pending := outer, operand := some e } c'
  advances : rule.begins = true → c.pos < c'.pos

/-- Every procedure that may be called with this fuel reads an expression or gives up. -/
def Right (i : Input) (fuel : Nat) : Prop :=
  ∀ (rule : Rule) (p : Parsed) (s : State) (goal : Goal) (outer : List Pending) (c : Cursor),
    Ready i p s goal outer fuel rule c →
    Returns i (read fuel rule) c (Reads i p s goal outer rule c) (GivesUp i p s c)

section Rules

variable {i : Input} {p : Parsed} {s : State} {goal : Goal} {outer : List Pending} {fuel : Nat}
  {c : Cursor} {l : Level}

theorem rank_leftRule (l : Level) : (leftRule l).rank < (Rule.level l).rank := by
  cases l <;> decide

theorem tier_leftRule (l : Level) : (leftRule l).tier.rank = l.rank + 1 := by
  cases l <;> rfl

theorem awaits_leftRule : Awaits i p s goal outer c (leftRule l) ↔ Begins i p s goal outer c := by
  cases l <;> rfl

theorem tier_rightRule (l : Level) : (rightRule l).tier = l.right := by
  cases l <;> rfl

theorem rank_rightRule (l : Level) : (rightRule l).rank ≤ 8 := by
  cases l <;> decide

theorem awaits_rightRule : Awaits i p s goal outer c (rightRule l) ↔ Begins i p s goal outer c := by
  cases l <;> rfl

theorem mem_kinds {k : Kind} : k ∈ kinds l ↔ Level.ofKind? k = some l := by
  cases l <;> cases k <;> decide

theorem noEof_kinds (l : Level) : ∀ k ∈ kinds l, k ≠ .eof := by
  intro k member same
  rw [mem_kinds, same] at member
  cases member

variable (right : Right i fuel)

include right

theorem Right.level (ready : Ready i p s goal outer (fuel + 1) (.level l) c) :
    Returns i (read (fuel + 1) (.level l)) c (Reads i p s goal outer (.level l) c)
      (GivesUp i p s c) := by
  obtain ⟨inside, enough, demanded, awaits⟩ := ready
  have lower := rank_leftRule l
  have tighter := tier_leftRule l
  have looser : demand outer ≤ l.rank := by
    rwa [Rule.tier, Level.rank_tier] at demanded
  have first := right (leftRule l) p s goal outer c
    ⟨inside, by omega, by omega, awaits_leftRule.mpr awaits⟩
  rw [read_level]
  refine first.bind ?_
  intro left c' reads
  have further : c.pos < c'.pos := reads.advances (by cases l <;> rfl)
  have noCall : (i.token c'.pos).kind ≠ .leftParen :=
    reads.follows.noCall (by cases l <;> decide)
  have later (next : Level) (found : Level.ofKind? (i.token c'.pos).kind = some next) :
      next.rank ≤ l.rank := by
    have := reads.follows.looser next found
    omega
  have stop := reads.moves.inside
  have second := right (.more l left) p s goal outer c'
    ⟨stop, by simp only [Rule.rank]; omega, demanded, noCall, later, reads.leads⟩
  refine (second.after reads.moves).imp ?_
  intro e c'' more
  have onward := more.moves.le
  exact ⟨reads.moves.trans more.moves, more.follows, more.leads, fun _ => by omega⟩

theorem Right.more {left : Expr} (ready : Ready i p s goal outer (fuel + 1) (.more l left) c) :
    Returns i (read (fuel + 1) (.more l left)) c (Reads i p s goal outer (.more l left) c)
      (GivesUp i p s c) := by
  obtain ⟨inside, enough, demanded, noCall, later, leads⟩ := ready
  simp only [Rule.rank] at enough
  have looser : demand outer ≤ l.rank := by
    rwa [Rule.tier, Level.rank_tier] at demanded
  rw [read]
  apply Returns.acceptAny inside (noEof_kinds l)
  · intro member before
    have level := mem_kinds.mp member
    have closed : Parse.close (·.closesBefore l) outer left = (outer, left) :=
      Parse.close_outer left l.rank_lt_unary looser fun other => other.stays_open l
    have fed : OpenExpr.feed { pending := outer, operand := some left } (i.token c.pos) =
        ([], .more { pending := .operator l left (i.token c.pos) :: outer }) := by
      change feedOperator outer left _ = _
      rw [Parse.feedOperator_level level, closed]
    have small := rank_rightRule l
    have starts : Begins i p s goal (.operator l left (i.token c.pos) :: outer)
        { c with pos := c.pos + 1 } :=
      .of_start before (by intros; simp) (leads.more before fed)
    have first := right (rightRule l) p s goal _ { c with pos := c.pos + 1 }
      ⟨before, by simp only; omega, by rw [tier_rightRule]; exact Nat.le_refl _,
        awaits_rightRule.mpr starts⟩
    refine .taken before ?_
    refine (first.after (.one before)).bind ?_
    intro r c' reads
    have moves := (Moves.one before).trans reads.moves
    have stop := moves.inside
    have progress := reads.moves.le
    simp only at progress
    have follows := reads.follows
    rw [tier_rightRule] at follows
    have noCall : (i.token c'.pos).kind ≠ .leftParen := follows.noCall (by cases l <;> decide)
    have later (next : Level) (found : Level.ofKind? (i.token c'.pos).kind = some next) :
        next.rank ≤ l.rank := by
      have := follows.looser next found
      have := l.right_le_succ
      omega
    -- Nothing goes on with the right operand, so the operator takes it, and what it makes is the
    -- left operand of the next operator of the level.
    have second := right (.more l (l.node left (i.token c.pos) r)) p s goal outer c'
      ⟨stop, by simp only [Rule.rank]; omega, demanded, noCall, later,
        reads.leads.swap stop follows.operator⟩
    refine (second.after moves).imp ?_
    intro e c'' more
    exact ⟨moves.trans more.moves, more.follows, more.leads, by simp [Rule.begins]⟩
  · intro different
    have apart (next : Level) (found : Level.ofKind? (i.token c.pos).kind = some next) :
        next.rank < l.tier.rank := by
      have le := later next found
      have ne : next ≠ l := by
        intro same
        rw [same] at found
        exact different (mem_kinds.mpr found)
      have other : next.rank ≠ l.rank := fun same => ne (Level.rank_injective same)
      rw [Level.rank_tier]
      omega
    have follows : Follows l.tier (i.token c.pos) :=
      ⟨fun _ => noCall, apart, by cases l <;> simp [Level.tier]⟩
    exact .pure ⟨.refl inside, follows, leads, by simp [Rule.begins]⟩

theorem Right.unary (ready : Ready i p s goal outer (fuel + 1) .unary c) :
    Returns i (read (fuel + 1) .unary) c (Reads i p s goal outer .unary c) (GivesUp i p s c) := by
  obtain ⟨inside, enough, demanded, begins⟩ := ready
  simp only [Rule.rank] at enough
  rw [read]
  apply Returns.acceptAny inside (by decide)
  · intro member before
    have kind : (i.token c.pos).kind = .bang ∨ (i.token c.pos).kind = .minus := by
      simpa using member
    have leads := Begins.leads begins before (Parse.startOperand_unary outer kind)
    have inner := right .unary p s goal (.unary (i.token c.pos) :: outer)
      { c with pos := c.pos + 1 }
      ⟨before, by simp only [Rule.rank]; omega, Nat.le_refl _,
        .of_start before (by intros; simp) leads⟩
    refine .taken before ?_
    refine (inner.after (.one before)).bind ?_
    intro operand c' reads
    have moves := (Moves.one before).trans reads.moves
    exact .pure ⟨moves, reads.follows, reads.leads.swap moves.inside reads.follows.unary,
      fun _ => reads.moves.le⟩
  · intro different
    have inner := right .call p s goal outer c
      ⟨inside, by simp only [Rule.rank]; omega, Nat.le_succ_of_le demanded, different, begins⟩
    refine inner.imp ?_
    intro e c' reads
    have follows : Follows .unary (i.token c'.pos) :=
      .of_tight (by decide) fun _ => reads.follows.noCall (by decide)
    exact ⟨reads.moves, follows, reads.leads, reads.advances⟩

theorem Right.call (ready : Ready i p s goal outer (fuel + 1) .call c) :
    Returns i (read (fuel + 1) .call) c (Reads i p s goal outer .call c) (GivesUp i p s c) := by
  obtain ⟨inside, enough, demanded, awaits⟩ := ready
  simp only [Rule.rank] at enough
  have first := right .primary p s goal outer c
    ⟨inside, by simp only [Rule.rank]; omega, Nat.le_succ_of_le demanded, awaits⟩
  rw [read]
  refine first.bind ?_
  intro callee c' reads
  have further : c.pos < c'.pos := reads.advances rfl
  have stop := reads.moves.inside
  have second := right (.moreCalls callee) p s goal outer c'
    ⟨stop, by simp only [Rule.rank]; omega, demanded, reads.leads⟩
  refine (second.after reads.moves).imp ?_
  intro e c'' more
  have onward := more.moves.le
  exact ⟨reads.moves.trans more.moves, more.follows, more.leads, fun _ => by omega⟩

theorem Right.moreCalls {callee : Expr}
    (ready : Ready i p s goal outer (fuel + 1) (.moreCalls callee) c) :
    Returns i (read (fuel + 1) (.moreCalls callee)) c (Reads i p s goal outer (.moreCalls callee) c)
      (GivesUp i p s c) := by
  obtain ⟨inside, enough, demanded, leads⟩ := ready
  simp only [Rule.rank] at enough
  have again {value : Expr} {c' : Cursor} (moves : Moves i c c') (further : c.pos < c'.pos)
      (leads : Leads i p s goal { pending := outer, operand := some value } c') :
      Returns i (read fuel (.moreCalls value)) c' (Reads i p s goal outer (.moreCalls callee) c)
        (GivesUp i p s c) := by
    have stop := moves.inside
    have later := right (.moreCalls value) p s goal outer c'
      ⟨stop, by simp only [Rule.rank]; omega, demanded, leads⟩
    refine (later.after moves).imp ?_
    intro e c'' more
    exact ⟨moves.trans more.moves, more.follows, more.leads, by simp [Rule.begins]⟩
  rw [read]
  apply Returns.accept inside (by decide)
  · intro kind before
    have entered := leads.more before (Parse.feedOperator_paren kind)
    apply Returns.check (c := { c with pos := c.pos + 1 }) before (by decide)
    · intro closes inner
      have fed : OpenExpr.feed { pending := .call callee #[] :: outer } (i.token (c.pos + 1)) =
          ([], .more
            { pending := outer, operand := some (.call callee (i.token (c.pos + 1)) []) }) := by
        simp [OpenExpr.feed, feedOperand, closes]
      refine Returns.expect (c := { c with pos := c.pos + 1 }) before (by decide) ?_ ?_
      · intro _ _
        have moves := (Moves.one before).trans (.one inner)
        exact again moves (by simp only; omega) (entered.more inner fed)
      · intro other
        exact absurd closes other
    · intro other
      have first := right (.arguments callee #[]) p s goal outer { c with pos := c.pos + 1 }
        ⟨before, by simp only [Rule.rank]; omega, Nat.le_succ_of_le demanded,
          fun _ => other, entered⟩
      refine (first.after (.one before)).bind ?_
      intro value c' reads
      exact again ((Moves.one before).trans reads.moves) reads.moves.le reads.leads
  · intro different
    have follows : Follows .call (i.token c.pos) := .of_tight (by decide) fun _ => different
    exact .pure ⟨.refl inside, follows, leads, by simp [Rule.begins]⟩

theorem Right.arguments {callee : Expr} {args : Array Expr}
    (ready : Ready i p s goal outer (fuel + 1) (.arguments callee args) c) :
    Returns i (read (fuel + 1) (.arguments callee args)) c
      (Reads i p s goal outer (.arguments callee args) c) (GivesUp i p s c) := by
  obtain ⟨inside, enough, demanded, notEmpty, leads⟩ := ready
  simp only [Rule.rank] at enough
  -- The argument itself, once its number has been looked at.
  have argument (errors : Array SyntaxError)
      (begins : Begins i p s goal (.call callee args :: outer) { c with errors }) :
      Returns i (do
        let arg ← read fuel .assignment
        if ← accept .comma then read fuel (.arguments callee (args.push arg))
        else
          let paren ← expect .rightParen .argumentsEnd
          return .call callee paren (args.push arg).toList) { c with errors }
        (Reads i p s goal outer (.arguments callee args) c) (GivesUp i p s c) := by
    have first := right .assignment p s goal (.call callee args :: outer) { c with errors }
      ⟨inside, by simp only [Rule.rank]; omega, Nat.zero_le _, begins⟩
    refine (first.after ((Moves.refl inside).reported errors)).bind ?_
    intro arg c' reads
    have moves := ((Moves.refl inside).reported errors).trans reads.moves
    have stop := moves.inside
    have further := reads.advances rfl
    have fed := reads.follows.argument outer callee args arg
    apply Returns.accept stop (by decide)
    · intro comma before
      rw [if_pos (Token.is_eq_true.mpr comma)] at fed
      have one := moves.trans (.one before)
      simp only at further
      have rest := right (.arguments callee (args.push arg)) p s goal outer
        { c' with pos := c'.pos + 1 }
        ⟨before, by simp only [Rule.rank]; omega, demanded, by simp, reads.leads.more before fed⟩
      refine (rest.after one).imp ?_
      intro e c'' more
      have onward := more.moves.le
      exact ⟨one.trans more.moves, more.follows, more.leads, fun _ => by simp only at onward; omega⟩
    · intro noComma
      have no : (i.token c'.pos).is .comma = false := Token.is_eq_false.mpr noComma
      rw [no] at fed
      apply Returns.expect stop (by decide)
      · intro paren before
        have yes : (i.token c'.pos).is .rightParen = true := Token.is_eq_true.mpr paren
        rw [yes] at fed
        have follows : Follows .primary (i.token (c'.pos + 1)) := .of_tight (by decide) (by simp)
        exact .pure ⟨moves.trans (.one before), follows, reads.leads.more before fed,
          fun _ => Nat.lt_succ_of_lt further⟩
      · intro noParen
        have no : (i.token c'.pos).is .rightParen = false := Token.is_eq_false.mpr noParen
        rw [no] at fed
        exact (reads.leads.givesUp stop fed).after moves
  have closes := not_closing notEmpty
  rw [read]
  by_cases many : maxArguments ≤ args.size
  · have fed : OpenExpr.feed { pending := .call callee args :: outer } (i.token c.pos) =
        ([.atToken (i.token c.pos) .tooManyArguments],
          startOperand (.call callee args :: outer) (i.token c.pos)) := by
      simp [OpenExpr.feed, feedOperand, closes, many]
    rw [if_pos many]
    refine .peek inside ?_
    refine .step (run_report _) ?_
    exact argument _ (.of_leads inside fed leads)
  · have fed : OpenExpr.feed { pending := .call callee args :: outer } (i.token c.pos) =
        ([], startOperand (.call callee args :: outer) (i.token c.pos)) := by
      simp [OpenExpr.feed, feedOperand, closes, many]
    have begins := Begins.of_leads inside fed leads
    rw [if_neg many]
    exact argument _ begins

theorem Right.primary (ready : Ready i p s goal outer (fuel + 1) .primary c) :
    Returns i (read (fuel + 1) .primary) c (Reads i p s goal outer .primary c)
      (GivesUp i p s c) := by
  obtain ⟨inside, enough, demanded, different, begins⟩ := ready
  simp only [Rule.rank] at enough
  rw [read]
  refine .peek inside ?_
  cases own : primary? (i.token c.pos) with
  | some value =>
    have notEnd : (i.token c.pos).kind ≠ .eof := by
      intro eof
      simp [primary?, eof] at own
    have before : c.pos < i.stop := i.lt_of_is inside notEnd rfl
    refine .step (run_advance inside before) ?_
    exact .pure ⟨.one before, .of_tight (by decide) (by simp [Rule.tier]),
      begins.leads before (Parse.startOperand_primary own), fun _ => Nat.lt_succ_self _⟩
  | none =>
    apply Returns.accept inside (by decide)
    · intro kind before
      have leads := begins.leads before (Parse.startOperand_paren outer kind)
      have inner := right .assignment p s goal (.group :: outer) { c with pos := c.pos + 1 }
        ⟨before, by simp only [Rule.rank]; omega, Nat.zero_le _,
          .of_start before (by intros; simp) leads⟩
      refine (inner.after (.one before)).bind ?_
      intro e c' reads
      have moves := (Moves.one before).trans reads.moves
      have stop := moves.inside
      have fed := reads.follows.group outer e
      apply Returns.expect stop (by decide)
      · intro paren before'
        rw [if_pos (Token.is_eq_true.mpr paren)] at fed
        have onward := reads.moves.le
        exact .pure ⟨moves.trans (.one before'), .of_tight (by decide) (by simp [Rule.tier]),
          reads.leads.more before' fed, fun _ => Nat.lt_succ_of_lt onward⟩
      · intro noParen
        have no : (i.token c'.pos).is .rightParen = false := Token.is_eq_false.mpr noParen
        rw [no] at fed
        exact (reads.leads.givesUp stop fed).after moves
    · intro noParen
      unfold Begins at begins
      rw [Parse.startOperand_foreign own different noParen] at begins
      exact .fail inside ⟨.refl inside, begins⟩

theorem Right.assignment (ready : Ready i p s goal outer (fuel + 1) .assignment c) :
    Returns i (read (fuel + 1) .assignment) c (Reads i p s goal outer .assignment c)
      (GivesUp i p s c) := by
  obtain ⟨inside, enough, demanded, begins⟩ := ready
  simp only [Rule.rank] at enough
  rw [read]
  have first := right (.level .disjunction) p s goal outer c
    ⟨inside, by simp only [Rule.rank, Level.rank]; omega, Nat.le_succ_of_le demanded, begins⟩
  refine first.bind ?_
  intro target c' reads
  have stop := reads.moves.inside
  have further := reads.advances rfl
  have noCall := reads.follows.noCall (by decide)
  apply Returns.accept stop (by decide)
  · intro equal before
    have fed := Parse.Readable.feed_equals equal (Parse.Readable.close_all target demanded)
    have inner := right .assignment p s goal (.assign target (i.token c'.pos) :: outer)
      { c' with pos := c'.pos + 1 }
      ⟨before, by simp only [Rule.rank]; omega, Nat.zero_le _,
        .of_start before (by intros; simp) (reads.leads.more before fed)⟩
    have moves := reads.moves.trans (.one before)
    refine .taken before ?_
    refine (inner.after moves).bind ?_
    intro value c'' more
    have moves' := moves.trans more.moves
    have onward := more.moves.le
    simp only at onward
    split
    · next name =>
      exact .pure ⟨moves', more.follows, more.leads.swap moves'.inside more.follows.assign,
        fun _ => by omega⟩
    · next other =>
      -- The other reader reports the target at the next token, which shows that the value is
      -- complete; nothing is reported in between.
      refine .step (run_report _) ?_
      have traded := more.leads.trade moves'.inside (more.follows.refused other)
      exact .pure ⟨moves'.reported _, more.follows, traded, fun _ => by simp only; omega⟩
  · intro noEqual
    have looser (next : Level) (found : Level.ofKind? (i.token c'.pos).kind = some next) :
        next.rank < Tier.expression.rank := by
      have := reads.follows.looser next found
      have := next.rank_pos
      simp only [Rule.tier, Level.tier, Tier.rank] at *
      omega
    have follows : Follows .expression (i.token c'.pos) :=
      ⟨fun _ => noCall, looser, fun _ => noEqual⟩
    exact .pure ⟨reads.moves, follows, reads.leads, fun _ => further⟩

omit right

theorem right_of_fuel (i : Input) (fuel : Nat) : Right i fuel := by
  induction fuel with
  | zero =>
    intro rule p s goal outer c ready
    exact absurd ready.fuel (Nat.not_lt_zero _)
  | succ fuel right =>
    intro rule p s goal outer c ready
    cases rule with
    | assignment => exact right.assignment ready
    | level l => exact right.level ready
    | more l left => exact right.more ready
    | unary => exact right.unary ready
    | call => exact right.call ready
    | moreCalls callee => exact right.moreCalls ready
    | arguments callee args => exact right.arguments ready
    | primary => exact right.primary ready

end Rules

end Descent

end Treewalk
