import Treewalk.Proofs.Grammar

namespace Treewalk

@[simp] theorem Token.is_eq_true {t : Token} {k : Token.Kind} : t.is k = true ↔ t.kind = k := by
  simp [Token.is]

def Grammar.Rules.Waives (rules : Grammar.Rules) (es : List SyntaxError) : Prop :=
  ∀ e ∈ es, rules.waives e.problem = true

namespace Grammar.Rules.Waives

variable {rules : Grammar.Rules} {es es' : List SyntaxError}

theorem nil : rules.Waives [] := by
  intro e member
  cases member

theorem append (left : rules.Waives es) (right : rules.Waives es') : rules.Waives (es ++ es') := by
  intro e member
  rcases List.mem_append.mp member with member | member
  · exact left e member
  · exact right e member

theorem single {e : SyntaxError} (waived : rules.waives e.problem = true) : rules.Waives [e] := by
  intro e' member
  rw [List.mem_singleton.mp member]
  exact waived

end Grammar.Rules.Waives

namespace Parse

open Grammar Grammar.Rules
open Token (Kind)

namespace Level

def tier : Level → Tier
  | disjunction => .disjunction
  | conjunction => .conjunction
  | equality => .equality
  | comparison => .comparison
  | term => .term
  | factor => .factor

def left : Level → Tier
  | comparison => .term
  | level => level.tier

def right : Level → Tier
  | disjunction => .conjunction
  | conjunction => .equality
  | equality => .comparison
  | comparison => .comparison
  | term => .factor
  | factor => .unary

def shape (level : Level) : Shape := ⟨level.tier, level.left, level.right, level.node⟩

theorem shape?_eq (k : Kind) : shape? k = (ofKind? k).map shape := by
  cases k <;> rfl

@[simp] theorem rank_tier (level : Level) : level.tier.rank = level.rank := by
  cases level <;> rfl

theorem rank_pos (level : Level) : 0 < level.rank := by
  cases level <;> decide

theorem rank_lt_unary (level : Level) : level.rank < Tier.unary.rank := by
  cases level <;> decide

theorem rank_le_left (level : Level) : level.rank ≤ level.left.rank := by
  cases level <;> decide

theorem rank_le_right (level : Level) : level.rank ≤ level.right.rank := by
  cases level <;> decide

theorem stays_open (level next : Level) (demanded : level.right.rank ≤ next.rank) :
    level.closesBefore next = false := by
  cases level <;> cases next <;> first | rfl | (exact absurd demanded (by decide))

theorem right_le_of_open (level next : Level) (stays : level.closesBefore next = false) :
    level.right.rank ≤ next.rank := by
  cases level <;> cases next <;> first | decide | cases stays

theorem left_le_of_closes (level next : Level) (closes : level.closesBefore next = true) :
    next.left.rank ≤ level.rank := by
  cases level <;> cases next <;> first | decide | cases closes

theorem left_le_unary (level : Level) : level.left.rank ≤ Tier.unary.rank := by
  cases level <;> decide

theorem closes_left (level next : Level) (tight : next.left.rank ≤ level.rank) :
    level.closesBefore next = true := by
  cases level <;> cases next <;> first | rfl | (exact absurd tight (by decide))

end Level

/-- The rank that an operand on top of the pending parts must have. -/
def demand : List Pending → Nat
  | .operator level _ _ :: _ => level.right.rank
  | .unary _ :: _ => Tier.unary.rank
  | _ => 0

theorem close_outer {closes : Level → Bool} {outer : List Pending} {n : Nat} (e : Expr)
    (small : n < Tier.unary.rank) (demanded : demand outer ≤ n)
    (stay : ∀ level : Level, level.right.rank ≤ n → closes level = false) :
    close closes outer e = (outer, e) := by
  cases outer with
  | nil => rfl
  | cons part outer =>
    cases part with
    | operator level left op => simp [close, stay level demanded]
    | unary op => exact absurd demanded (by simp only [demand]; omega)
    | assign target equals => rfl
    | group => rfl
    | call callee args => rfl

theorem settle_refused {target : Expr} {equals : Token} {outer : List Pending} {value : Expr}
    {errors : List SyntaxError} (other : ∀ name, target ≠ .var name) :
    settle (.assign target equals :: outer) value errors =
      settle outer target (errors ++ [.atToken equals .assignmentTarget]) := by
  cases target with
  | var name => exact absurd rfl (other name)
  | _ => rfl

/-- `e` of the given rank has been read on top of `outer`; what is pending now, and the last
operand, are `e` with the parts along its right edge still open. -/
structure Ends (rules : Rules) (rank : Nat) (outer : List Pending) (e : Expr)
    (pending : List Pending) (v : Expr) : Prop where
  exact : Tier.call.rank ≤ rank → pending = outer ∧ v = e
  closed : 0 < rank → ∀ closes : Level → Bool,
    (∀ level : Level, rank ≤ level.rank → closes level = true) →
    close closes pending v = close closes outer e
  settled : ∃ es, rules.Waives es ∧
    ∀ before, settle pending v before = settle outer e (before ++ es)

namespace Ends

variable {rules : Rules} {n m : Nat} {outer pending : List Pending} {e v : Expr}

theorem refl : Ends rules n outer e outer e where
  exact _ := ⟨rfl, rfl⟩
  closed _ _ _ := rfl
  settled := ⟨[], .nil, fun before => by rw [List.append_nil]⟩

theorem mono (ends : Ends rules m outer e pending v) (le : n ≤ m) :
    Ends rules n outer e pending v where
  exact tight := ends.exact (Nat.le_trans tight le)
  closed pos closes all := by
    refine ends.closed (Nat.lt_of_lt_of_le pos le) closes ?_
    intro level high
    exact all level (Nat.le_trans le high)
  settled := ends.settled

theorem unary {op : Token} (ends : Ends rules Tier.unary.rank (.unary op :: outer) e pending v) :
    Ends rules Tier.unary.rank outer (.unary op e) pending v where
  exact tight := absurd tight (by decide)
  closed pos closes all := ends.closed pos closes all
  settled := ends.settled

theorem operator {level : Level} {left : Expr} {op : Token}
    (ends : Ends rules level.right.rank (.operator level left op :: outer) e pending v) :
    Ends rules level.rank outer (level.node left op e) pending v where
  exact tight := by
    have small := level.rank_lt_unary
    exact absurd tight (by simp only [Tier.rank] at small ⊢; omega)
  closed pos closes all := by
    rw [ends.closed (Nat.lt_of_lt_of_le pos level.rank_le_right) closes]
    · rw [close, if_pos (all level (Nat.le_refl _))]
    · intro other high
      exact all other (Nat.le_trans level.rank_le_right high)
  settled := ends.settled

theorem assign {name equals : Token}
    (ends : Ends rules 0 (.assign (.var name) equals :: outer) e pending v) :
    Ends rules 0 outer (.assign name e) pending v where
  exact tight := absurd tight (by decide)
  closed pos := absurd pos (by decide)
  settled := ends.settled

theorem waivedTarget {target : Expr} {equals : Token}
    (ends : Ends rules 0 (.assign target equals :: outer) e pending v)
    (other : ∀ name, target ≠ .var name) (waived : rules.anyTarget = true) :
    Ends rules 0 outer target pending v where
  exact tight := absurd tight (by decide)
  closed pos := absurd pos (by decide)
  settled := by
    obtain ⟨es, allowed, settles⟩ := ends.settled
    have refused : rules.Waives [.atToken equals .assignmentTarget] := .single waived
    refine ⟨es ++ [.atToken equals .assignmentTarget], allowed.append refused, ?_⟩
    intro before
    rw [settles, settle_refused other, List.append_assoc]

end Ends

inductive OpenExpr.Reads : OpenExpr → List Token → List SyntaxError → OpenExpr → Prop
  | nil {e : OpenExpr} : Reads e [] [] e
  | cons {e e' e'' : OpenExpr} {t : Token} {w : List Token} {es es' : List SyntaxError} :
    e.feed t = (es, .more e') → Reads e' w es' e'' → Reads e (t :: w) (es ++ es') e''

namespace OpenExpr.Reads

variable {e e' e'' : OpenExpr} {v w : List Token} {es es' : List SyntaxError} {t : Token}

theorem append (first : Reads e v es e') (second : Reads e' w es' e'') :
    Reads e (v ++ w) (es ++ es') e'' := by
  induction first with
  | nil => exact second
  | cons step _ ih =>
    rw [List.append_assoc]
    exact .cons step (ih second)

theorem snoc (first : Reads e w es e') (step : e'.feed t = (es', .more e'')) :
    Reads e (w ++ [t]) (es ++ es') e'' := by
  have last : Reads e' [t] (es' ++ []) e'' := .cons step .nil
  rw [List.append_nil] at last
  exact first.append last

end OpenExpr.Reads

theorem startOperand_atom {t : Token} {e : Expr} (outer : List Pending) (atom : Atom t e) :
    startOperand outer t = .more { pending := outer, operand := some e } := by
  cases atom with
  | no kind => simp [startOperand, primary?, kind]
  | yes kind => simp [startOperand, primary?, kind]
  | nil kind => simp [startOperand, primary?, kind]
  | number kind literal =>
    rcases kind with kind | kind <;> simp [startOperand, primary?, kind, literal]
  | string kind literal =>
    rcases kind with kind | kind <;> simp [startOperand, primary?, kind, literal]
  | name kind => simp [startOperand, primary?, kind]

theorem startOperand_unary {op : Token} (outer : List Pending)
    (kind : op.kind = .bang ∨ op.kind = .minus) :
    startOperand outer op = .more { pending := .unary op :: outer } := by
  rcases kind with kind | kind <;> simp [startOperand, kind]

theorem startOperand_paren {opened : Token} (outer : List Pending)
    (kind : opened.kind = .leftParen) :
    startOperand outer opened = .more { pending := .group :: outer } := by
  simp [startOperand, kind]

def startsExpression : Kind → Bool
  | .bang | .minus | .leftParen | .kwFalse | .kwTrue | .kwNil | .number | .string
  | .identifier => true
  | _ => false

theorem startOperand_kind {outer : List Pending} {t : Token} {e : OpenExpr}
    (started : startOperand outer t = .more e) : startsExpression t.kind = true := by
  cases kind : t.kind <;> first | rfl | simp [startOperand, primary?, kind] at started

theorem feed_start {outer : List Pending} {t : Token}
    (noCall : ∀ callee args inner, outer ≠ .call callee args :: inner) :
    OpenExpr.feed { pending := outer } t = ([], startOperand outer t) := by
  cases outer with
  | nil => rfl
  | cons part outer =>
    cases part with
    | call callee args => exact absurd rfl (noCall callee args outer)
    | _ => rfl

theorem feed_firstArgument {outer : List Pending} {callee : Expr} {t : Token} {e : OpenExpr}
    (started : startOperand (.call callee #[] :: outer) t = .more e) :
    OpenExpr.feed { pending := .call callee #[] :: outer } t = ([], .more e) := by
  have kind : t.kind ≠ .rightParen := by
    intro kind
    have starts := startOperand_kind started
    rw [kind] at starts
    cases starts
  simp [OpenExpr.feed, feedOperand, maxArguments, kind, started]

theorem feed_nextArgument {rules : Rules} {outer : List Pending} {callee : Expr} {args : List Expr}
    {t : Token} {e : OpenExpr} (nonempty : args ≠ []) (counts : rules.Counts (args.length + 1))
    (started : startOperand (.call callee args.toArray :: outer) t = .more e) :
    ∃ es, rules.Waives es ∧
      OpenExpr.feed { pending := .call callee args.toArray :: outer } t = (es, .more e) := by
  by_cases many : maxArguments ≤ args.length
  · have waived : rules.anyCount = true := by
      rcases counts with small | waived
      · exact absurd many (by simp only [maxArguments]; omega)
      · exact waived
    refine ⟨[.atToken t .tooManyArguments], .single waived, ?_⟩
    simp [OpenExpr.feed, feedOperand, nonempty, many, started]
  · refine ⟨[], .nil, ?_⟩
    simp [OpenExpr.feed, feedOperand, nonempty, many, started]

/-- What reading a phrase comes to: an expression leaves its right edge open, arguments leave the
last of them open. -/
def Readable (rules : Rules) : Phrase → List Token → Prop
  | .expr tier e, w => ∀ outer, demand outer ≤ tier.rank →
    ∃ t rest first es pending v, w = t :: rest ∧ startOperand outer t = .more first ∧
      first.Reads rest es { pending, operand := some v } ∧ rules.Waives es ∧
      Ends rules tier.rank outer e pending v
  | .args args, w => rules.Counts args.length → ∀ callee outer,
    ∃ before last es es' pending v, args = before ++ [last] ∧
      OpenExpr.Reads { pending := .call callee #[] :: outer } w es { pending, operand := some v } ∧
      rules.Waives es ∧ rules.Waives es' ∧
      settle pending v [] = ⟨.call callee before.toArray :: outer, last, es'⟩

namespace Readable

variable {rules : Rules} {e f a b : Expr} {es : List Expr} {v w : List Token}
  {opened closed op comma name equals : Token}

theorem start {tier : Tier} (inner : Readable rules (.expr tier e) w) (outer : List Pending)
    (demanded : demand outer ≤ tier.rank)
    (noCall : ∀ callee args inner, outer ≠ .call callee args :: inner) :
    ∃ errors pending v,
      OpenExpr.Reads { pending := outer } w errors { pending, operand := some v } ∧
      rules.Waives errors ∧ Ends rules tier.rank outer e pending v := by
  obtain ⟨t, rest, first, errors, pending, v, rfl, started, reads, waived, ends⟩ :=
    inner outer demanded
  refine ⟨errors, pending, v, ?_, waived, ends⟩
  have step := feed_start (t := t) noCall
  rw [started] at step
  exact .cons step reads

theorem atom {t : Token} (atom : Atom t e) : Readable rules (.expr .primary e) [t] := by
  intro outer _
  exact ⟨t, [], _, [], outer, e, rfl, startOperand_atom outer atom, .nil, .nil, .refl⟩

theorem group (left : opened.kind = .leftParen) (inner : Readable rules (.expr .expression e) w)
    (right : closed.kind = .rightParen) :
    Readable rules (.expr .primary (.group e)) (opened :: (w ++ [closed])) := by
  intro outer _
  obtain ⟨errors, pending, v, reads, waived, ends⟩ :=
    inner.start (.group :: outer) (Nat.zero_le _) (by intros; simp)
  obtain ⟨refused, allowed, settles⟩ := ends.settled
  refine ⟨opened, w ++ [closed], _, errors ++ refused, outer, .group e, rfl,
    startOperand_paren outer left, reads.snoc ?_, waived.append allowed, .refl⟩
  simp [OpenExpr.feed, feedOperator, right, Level.ofKind?, settles, settle, endInner]

theorem emptyCall (callee : Readable rules (.expr .call f) v) (left : opened.kind = .leftParen)
    (right : closed.kind = .rightParen) :
    Readable rules (.expr .call (.call f closed [])) (v ++ [opened, closed]) := by
  intro outer demanded
  obtain ⟨t, rest, first, errors, pending, value, rfl, started, reads, waived, ends⟩ :=
    callee outer demanded
  obtain ⟨rfl, rfl⟩ := ends.exact (Nat.le_refl _)
  refine ⟨t, rest ++ [opened, closed], first, errors, pending, _, rfl, started, ?_, waived, .refl⟩
  have entered : OpenExpr.feed { pending, operand := some value } opened =
      ([], .more { pending := .call value #[] :: pending }) := by
    simp [OpenExpr.feed, feedOperator, left]
  have finished : OpenExpr.feed { pending := .call value #[] :: pending } closed =
      ([], .more { pending, operand := some (.call value closed []) }) := by
    simp [OpenExpr.feed, feedOperand, right]
  have rest := reads.append (.cons entered (.cons finished .nil))
  simpa using rest

theorem call (callee : Readable rules (.expr .call f) v) (left : opened.kind = .leftParen)
    (args : Readable rules (.args es) w) (right : closed.kind = .rightParen)
    (counts : rules.Counts es.length) :
    Readable rules (.expr .call (.call f closed es)) (v ++ opened :: (w ++ [closed])) := by
  intro outer demanded
  obtain ⟨t, rest, first, errors, pending, value, rfl, started, reads, waived, ends⟩ :=
    callee outer demanded
  obtain ⟨rfl, rfl⟩ := ends.exact (Nat.le_refl _)
  obtain ⟨before, last, errors', refused, pending', v', rfl, reads', waived', allowed, settles⟩ :=
    args counts value pending
  have entered : OpenExpr.feed { pending, operand := some value } opened =
      ([], .more { pending := .call value #[] :: pending }) := by
    simp [OpenExpr.feed, feedOperator, left]
  have finished : OpenExpr.feed { pending := pending', operand := some v' } closed =
      (refused, .more { pending, operand := some (.call value closed (before ++ [last])) }) := by
    simp [OpenExpr.feed, feedOperator, right, Level.ofKind?, settles, endInner]
  refine ⟨t, rest ++ opened :: (w ++ [closed]), first, errors ++ ([] ++ (errors' ++ refused)),
    pending, _, rfl, started, reads.append (.cons entered (reads'.snoc finished)), ?_, .refl⟩
  exact waived.append (Waives.nil.append (waived'.append allowed))

theorem unary (kind : op.kind = .bang ∨ op.kind = .minus)
    (inner : Readable rules (.expr .unary e) w) :
    Readable rules (.expr .unary (.unary op e)) (op :: w) := by
  intro outer _
  obtain ⟨errors, pending, v, reads, waived, ends⟩ :=
    inner.start (.unary op :: outer) (Nat.le_refl _) (by intros; simp)
  exact ⟨op, w, _, errors, pending, v, rfl, startOperand_unary outer kind, reads, waived,
    ends.unary⟩

theorem twoSided {level : Level} (kind : Level.ofKind? op.kind = some level)
    (left : Readable rules (.expr level.left a) v)
    (right : Readable rules (.expr level.right b) w) :
    Readable rules (.expr level.tier (level.node a op b)) (v ++ op :: w) := by
  intro outer demanded
  rw [Level.rank_tier] at demanded ⊢
  obtain ⟨t, rest, first, errors, pending, value, rfl, started, reads, waived, ends⟩ :=
    left outer (Nat.le_trans demanded level.rank_le_left)
  obtain ⟨errors', pending', value', reads', waived', ends'⟩ :=
    right.start (.operator level a op :: outer) (Nat.le_refl _) (by intros; simp)
  have closed : close (·.closesBefore level) pending value = (outer, a) := by
    rw [ends.closed (Nat.lt_of_lt_of_le level.rank_pos level.rank_le_left)]
    · exact close_outer a level.rank_lt_unary demanded fun other => other.stays_open level
    · exact fun other => other.closes_left level
  have operator : OpenExpr.feed { pending, operand := some value } op =
      ([], .more { pending := .operator level a op :: outer }) := by
    cases hk : op.kind <;> rw [hk] at kind <;> cases kind <;>
      simp [OpenExpr.feed, feedOperator, hk, Level.ofKind?, closed]
  refine ⟨t, rest ++ op :: w, first, errors ++ ([] ++ errors'), pending', value', rfl, started,
    reads.append (.cons operator reads'), waived.append (Waives.nil.append waived'), ends'.operator⟩

theorem feed_equals {pending outer : List Pending} {value target : Expr}
    (kind : equals.kind = .equal) (closed : close (fun _ => true) pending value = (outer, target)) :
    OpenExpr.feed { pending, operand := some value } equals =
      ([], .more { pending := .assign target equals :: outer }) := by
  simp [OpenExpr.feed, feedOperator, kind, closed]

theorem close_all {outer : List Pending} (target : Expr) (demanded : demand outer ≤ 0) :
    close (fun _ => true) outer target = (outer, target) := by
  refine close_outer target (by decide) demanded ?_
  intro level high
  have := level.rank_pos
  have := level.rank_le_right
  omega

theorem assign (kind : name.kind = .identifier) (equal : equals.kind = .equal)
    (value : Readable rules (.expr .expression e) w) :
    Readable rules (.expr .expression (.assign name e)) (name :: equals :: w) := by
  intro outer demanded
  obtain ⟨errors, pending, v, reads, waived, ends⟩ :=
    value.start (.assign (.var name) equals :: outer) (Nat.zero_le _) (by intros; simp)
  have step := feed_equals equal (close_all (.var name) demanded)
  exact ⟨name, equals :: w, _, [] ++ errors, pending, v, rfl, startOperand_atom outer (.name kind),
    .cons step reads, Waives.nil.append waived, ends.assign⟩

theorem waivedTarget {target : Expr} (any : rules.anyTarget = true)
    (other : ∀ name, target ≠ .var name) (left : Readable rules (.expr .disjunction target) v)
    (equal : equals.kind = .equal) (value : Readable rules (.expr .expression e) w) :
    Readable rules (.expr .expression target) (v ++ equals :: w) := by
  intro outer demanded
  obtain ⟨t, rest, first, errors, pending, v, rfl, started, reads, waived, ends⟩ :=
    left outer (Nat.le_trans demanded (by decide))
  obtain ⟨errors', pending', v', reads', waived', ends'⟩ :=
    value.start (.assign target equals :: outer) (Nat.zero_le _) (by intros; simp)
  have closed : close (fun _ => true) pending v = (outer, target) := by
    rw [ends.closed (by decide) _ (fun _ _ => rfl)]
    exact close_all target demanded
  have step := feed_equals equal closed
  exact ⟨t, rest ++ equals :: w, first, errors ++ ([] ++ errors'), pending', v', rfl, started,
    reads.append (.cons step reads'), waived.append (Waives.nil.append waived'),
    ends'.waivedTarget other any⟩

theorem tighter {loose tight : Tier} (le : loose.rank ≤ tight.rank)
    (inner : Readable rules (.expr tight e) w) : Readable rules (.expr loose e) w := by
  intro outer demanded
  obtain ⟨t, rest, first, errors, pending, v, split, started, reads, waived, ends⟩ :=
    inner outer (Nat.le_trans demanded le)
  exact ⟨t, rest, first, errors, pending, v, split, started, reads, waived, ends.mono le⟩

theorem oneArg (inner : Readable rules (.expr .expression e) w) : Readable rules (.args [e]) w := by
  intro _ callee outer
  obtain ⟨t, rest, first, errors, pending, v, rfl, started, reads, waived, ends⟩ :=
    inner (.call callee #[] :: outer) (Nat.zero_le _)
  obtain ⟨refused, allowed, settles⟩ := ends.settled
  exact ⟨[], e, [] ++ errors, refused, pending, v, rfl, .cons (feed_firstArgument started) reads,
    Waives.nil.append waived, allowed, settles []⟩

theorem moreArgs (args : Readable rules (.args es) v) (kind : comma.kind = .comma)
    (inner : Readable rules (.expr .expression e) w) :
    Readable rules (.args (es ++ [e])) (v ++ comma :: w) := by
  intro counts callee outer
  rw [List.length_append, List.length_singleton] at counts
  have fewer : rules.Counts es.length := counts.imp_left Nat.le_of_succ_le
  obtain ⟨before, last, errors, refused, pending, value, rfl, reads, waived, allowed, settles⟩ :=
    args fewer callee outer
  have step : OpenExpr.feed { pending, operand := some value } comma =
      (refused, .more { pending := .call callee (before ++ [last]).toArray :: outer }) := by
    simp [OpenExpr.feed, feedOperator, kind, Level.ofKind?, settles, endInner]
  obtain ⟨t, rest, first, errors', pending', value', rfl, started, reads', waived', ends⟩ :=
    inner (.call callee (before ++ [last]).toArray :: outer) (Nat.zero_le _)
  obtain ⟨soft, softWaived, next⟩ := feed_nextArgument (by simp) counts started
  obtain ⟨refused', allowed', settles'⟩ := ends.settled
  exact ⟨before ++ [last], e, errors ++ (refused ++ (soft ++ errors')), refused', pending', value',
    rfl, reads.append (.cons step (.cons next reads')),
    waived.append (allowed.append (softWaived.append waived')), allowed', settles' []⟩

end Readable

theorem derives_readable {rules : Rules} {phrase : Phrase} {w : List Token}
    (derives : Derives rules phrase w) : Readable rules phrase w := by
  induction derives with
  | atom atom => exact .atom atom
  | group left _ right inner => exact inner.group left right
  | emptyCall _ left right callee => exact callee.emptyCall left right
  | call _ left _ right counts callee args => exact callee.call left args right counts
  | unary kind _ inner => exact inner.unary kind
  | @twoSided op shape v w a b row _ _ left right =>
    rw [Level.shape?_eq] at row
    obtain ⟨level, kind, rfl⟩ := Option.map_eq_some_iff.mp row
    exact left.twoSided kind right
  | assign kind equal _ value => exact value.assign kind equal
  | waivedTarget any other _ equal _ left value => exact left.waivedTarget any other equal value
  | tighter le _ inner => exact inner.tighter le
  | oneArg _ inner => exact inner.oneArg
  | moreArgs _ kind _ args inner => exact args.moreArgs kind inner

/-- `w` is read as the whole expression `e` by whoever asks for one and gives it the token after
it; `es` are the errors up to and at that token. -/
def ReadsExpression (e : Expr) (w : List Token) (es : List SyntaxError) : Prop :=
  ∀ closer : Token, closer.kind = .semicolon ∨ closer.kind = .rightParen →
    ∃ t rest first last before after, w = t :: rest ∧ startsExpression t.kind = true ∧
      OpenExpr.feed {} t = ([], .more first) ∧ first.Reads rest before last ∧
      last.feed closer = (after, .complete e) ∧ es = before ++ after

theorem expression_reads {rules : Rules} {e : Expr} {w : List Token}
    (derives : Derives rules (.expr .expression e) w) :
    ∃ es, rules.Waives es ∧ ReadsExpression e w es := by
  obtain ⟨t, rest, first, es, pending, v, rfl, started, reads, waived, ends⟩ :=
    derives_readable derives [] (Nat.zero_le _)
  obtain ⟨refused, allowed, settles⟩ := ends.settled
  have step := @feed_start [] t (by intros; simp)
  rw [started] at step
  refine ⟨es ++ refused, waived.append allowed, ?_⟩
  intro closer outside
  refine ⟨t, rest, first, _, es, refused, rfl, startOperand_kind started, step, reads, ?_, rfl⟩
  rcases outside with kind | kind <;>
    simp [OpenExpr.feed, feedOperator, kind, Level.ofKind?, settles, settle, endInner]

end Parse

end Treewalk
