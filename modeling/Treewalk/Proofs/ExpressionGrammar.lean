import Treewalk.Proofs.ExpressionReading

namespace Treewalk.Parse

open Grammar Grammar.Rules
open Token (Kind)

def HasRoom (rules : Rules) : List Pending → Prop
  | .call _ args :: _ => rules.Counts (args.size + 1)
  | _ => True

/-- The tokens from which the pending parts have been read. -/
inductive Spells (rules : Rules) : List Pending → List Token → Prop
  | nil : Spells rules [] []
  | unary {op : Token} {outer : List Pending} {w : List Token} :
    Spells rules outer w → HasRoom rules outer → op.kind = .bang ∨ op.kind = .minus →
    Spells rules (.unary op :: outer) (w ++ [op])
  | operator {op : Token} {level : Level} {outer : List Pending} {v w : List Token} {a : Expr} :
    Spells rules outer w → HasRoom rules outer → demand outer ≤ level.rank →
    Derives rules (.expr level.left a) v → Level.ofKind? op.kind = some level →
    Spells rules (.operator level a op :: outer) (w ++ (v ++ [op]))
  | assign {equals : Token} {outer : List Pending} {v w : List Token} {a : Expr} :
    Spells rules outer w → HasRoom rules outer → demand outer ≤ 0 →
    Derives rules (.expr .disjunction a) v → equals.kind = .equal →
    Spells rules (.assign a equals :: outer) (w ++ (v ++ [equals]))
  | group {opened : Token} {outer : List Pending} {w : List Token} :
    Spells rules outer w → HasRoom rules outer → opened.kind = .leftParen →
    Spells rules (.group :: outer) (w ++ [opened])
  | emptyCall {opened : Token} {outer : List Pending} {v w : List Token} {f : Expr} :
    Spells rules outer w → HasRoom rules outer → Derives rules (.expr .call f) v →
    opened.kind = .leftParen → Spells rules (.call f #[] :: outer) (w ++ (v ++ [opened]))
  | call {opened comma : Token} {outer : List Pending} {u v w : List Token} {f : Expr}
      {args : Array Expr} :
    Spells rules outer w → HasRoom rules outer → Derives rules (.expr .call f) v →
    opened.kind = .leftParen → Derives rules (.args args.toList) u → comma.kind = .comma →
    Spells rules (.call f args :: outer) (w ++ (v ++ opened :: (u ++ [comma])))

def OpenExpr.Spells (rules : Rules) (e : OpenExpr) (w : List Token) : Prop :=
  match e.operand with
  | none => Parse.Spells rules e.pending w
  | some value => ∃ u v, w = u ++ v ∧ Parse.Spells rules e.pending u ∧ HasRoom rules e.pending ∧
    Derives rules (.expr .call value) v

variable {rules : Rules}

theorem atom_of_primary {t : Token} {e : Expr} (read : primary? t = some e) : Atom t e := by
  unfold primary? at read
  split at read <;> cases read
  · exact .no ‹_›
  · exact .yes ‹_›
  · exact .nil ‹_›
  · exact .number (.inl ‹_›) ‹_›
  · exact .number (.inr ‹_›) ‹_›
  · exact .string (.inl ‹_›) ‹_›
  · exact .string (.inr ‹_›) ‹_›
  · exact .name ‹_›

theorem demand_le_unary (outer : List Pending) : demand outer ≤ Tier.unary.rank := by
  unfold demand
  split
  · rename_i level _ _ _
    cases level <;> decide
  · exact Nat.le_refl _
  · exact Nat.zero_le _

theorem args_ne_nil {es : List Expr} {w : List Token} (derives : Derives rules (.args es) w) :
    es ≠ [] := by
  cases derives <;> simp

theorem derives_operator {op : Token} {level : Level} {tier : Tier} {v w : List Token} {a b : Expr}
    (kind : Level.ofKind? op.kind = some level) (left : Derives rules (.expr level.left a) v)
    (right : Derives rules (.expr tier b) w) (tight : level.right.rank ≤ tier.rank) :
    Derives rules (.expr level.tier (level.node a op b)) (v ++ op :: w) := by
  have row : shape? op.kind = some level.shape := by rw [Level.shape?_eq, kind]; rfl
  exact .twoSided row left (.tighter tight right)

theorem derives_var {phrase : Phrase} {w : List Token} (derives : Derives rules phrase w) :
    ∀ {tier name}, phrase = .expr tier (.var name) → w = [name] ∧ name.kind = .identifier := by
  induction derives with
  | atom atom =>
    intro tier name same
    cases atom <;> cases same
    exact ⟨rfl, ‹_›⟩
  | @twoSided op shape v w a b row _ _ _ _ =>
    intro tier name same
    rw [Level.shape?_eq] at row
    obtain ⟨level, _, rfl⟩ := Option.map_eq_some_iff.mp row
    cases level <;> cases same
  | waivedTarget _ other _ _ _ _ _ =>
    intro tier name same
    cases same
    exact absurd rfl (other name)
  | tighter _ _ ih =>
    intro tier name same
    cases same
    exact ih rfl
  | group | emptyCall | call | unary | assign | oneArg | moreArgs =>
    intro tier name same
    cases same

theorem close_spells (closes : Level → Bool) {n : Nat} {pending : List Pending} {u : List Token}
    (spells : Spells rules pending u) (small : n ≤ Tier.unary.rank)
    (closed : ∀ level, closes level = true → n ≤ level.rank) :
    ∀ {tier e v}, HasRoom rules pending → Derives rules (.expr tier e) v →
      demand pending ≤ tier.rank → n ≤ tier.rank →
      ∃ u' v' tier', u ++ v = u' ++ v' ∧ Spells rules (close closes pending e).1 u' ∧
        HasRoom rules (close closes pending e).1 ∧
        Derives rules (.expr tier' (close closes pending e).2) v' ∧ n ≤ tier'.rank := by
  induction spells with
  | unary below room kind ih =>
    intro tier e v _ derives demanded _
    have inner : Derives rules (.expr .unary (.unary _ e)) (_ :: v) :=
      .unary kind (.tighter demanded derives)
    obtain ⟨u', v', tier', same, rest⟩ := ih room inner (demand_le_unary _) small
    exact ⟨u', v', tier', by rw [← same]; simp, rest⟩
  | @operator op level outer v w a below room bound left kind ih =>
    intro tier e x above derives demanded high
    by_cases closing : closes level = true
    · have inner := derives_operator kind left derives demanded
      obtain ⟨u', v', tier', same, rest⟩ :=
        ih room inner (by rw [Level.rank_tier]; exact bound)
          (by rw [Level.rank_tier]; exact closed level closing)
      rw [close, if_pos closing]
      exact ⟨u', v', tier', by rw [← same]; simp, rest⟩
    · rw [close, if_neg closing]
      exact ⟨_, x, tier, rfl, .operator below room bound left kind, above, derives, high⟩
  | nil =>
    intro tier e v above derives _ high
    exact ⟨[], v, tier, rfl, .nil, above, derives, high⟩
  | assign below room bound left kind =>
    intro tier e v above derives _ high
    exact ⟨_, v, tier, rfl, .assign below room bound left kind, above, derives, high⟩
  | group below room kind =>
    intro tier e v above derives _ high
    exact ⟨_, v, tier, rfl, .group below room kind, above, derives, high⟩
  | emptyCall below room callee kind =>
    intro tier e v above derives _ high
    exact ⟨_, v, tier, rfl, .emptyCall below room callee kind, above, derives, high⟩
  | call below room callee kind args comma =>
    intro tier e v above derives _ high
    exact ⟨_, v, tier, rfl, .call below room callee kind args comma, above, derives, high⟩

theorem demand_close {closes : Level → Bool} {n : Nat}
    (stays : ∀ level : Level, closes level = false → level.right.rank ≤ n)
    (pending : List Pending) (e : Expr) : demand (close closes pending e).1 ≤ n := by
  fun_induction close closes pending e with
  | case1 op pending e ih => exact ih
  | case2 level left op pending e _ ih => exact ih
  | case3 level left op pending e opened => exact stays level (Bool.not_eq_true _ ▸ opened)
  | case4 pending e noUnary noOperator =>
    cases pending with
    | nil => exact Nat.zero_le _
    | cons part pending =>
      cases part with
      | unary op => exact absurd rfl (noUnary op pending)
      | operator level left op => exact absurd rfl (noOperator level left op pending)
      | _ => exact Nat.zero_le _

def AtBracket : List Pending → Prop
  | [] | .group :: _ | .call _ _ :: _ => True
  | _ => False

theorem settle_keeps {e : SyntaxError} {errors : List SyntaxError} (pending : List Pending)
    (value : Expr) (member : e ∈ errors) : e ∈ (settle pending value errors).errors := by
  fun_induction settle pending value errors with
  | case1 op pending value errors ih => exact ih member
  | case2 level left op pending value errors ih => exact ih member
  | case3 name equals pending value errors ih => exact ih member
  | case4 target equals pending value errors _ ih => exact ih (List.mem_append_left _ member)
  | case5 pending value errors => exact member

theorem settle_spells {pending : List Pending} {u : List Token} (spells : Spells rules pending u) :
    ∀ {tier e v errors}, HasRoom rules pending → Derives rules (.expr tier e) v →
      demand pending ≤ tier.rank → rules.Waives (settle pending e errors).errors →
      ∃ u' v', u ++ v = u' ++ v' ∧ Spells rules (settle pending e errors).pending u' ∧
        HasRoom rules (settle pending e errors).pending ∧
        AtBracket (settle pending e errors).pending ∧
        Derives rules (.expr .expression (settle pending e errors).value) v' := by
  induction spells with
  | unary below room kind ih =>
    intro tier e v errors _ derives demanded waived
    have inner : Derives rules (.expr .unary (.unary _ e)) (_ :: v) :=
      .unary kind (.tighter demanded derives)
    obtain ⟨u', v', same, rest⟩ := ih room inner (demand_le_unary _) waived
    exact ⟨u', v', by rw [← same]; simp, rest⟩
  | operator below room bound left kind ih =>
    intro tier e v errors _ derives demanded waived
    have inner := derives_operator kind left derives demanded
    obtain ⟨u', v', same, rest⟩ := ih room inner (by rw [Level.rank_tier]; exact bound) waived
    exact ⟨u', v', by rw [← same]; simp, rest⟩
  | @assign equals outer x w target below room bound left kind ih =>
    intro tier e v errors _ derives _ waived
    have value : Derives rules (.expr .expression e) v := .tighter (Nat.zero_le _) derives
    by_cases named : ∃ name, target = .var name
    · obtain ⟨name, rfl⟩ := named
      obtain ⟨rfl, identifier⟩ := derives_var left rfl
      obtain ⟨u', v', same, rest⟩ := ih room (.assign identifier kind value) bound waived
      exact ⟨u', v', by rw [← same]; simp, rest⟩
    · have other : ∀ name, target ≠ .var name := fun name same => named ⟨name, same⟩
      rw [settle_refused other] at waived ⊢
      have any : rules.anyTarget = true :=
        waived _ (settle_keeps outer target (List.mem_append_right _ (List.mem_singleton_self _)))
      obtain ⟨u', v', same, rest⟩ :=
        ih room (.waivedTarget any other left kind value) bound waived
      exact ⟨u', v', by rw [← same]; simp, rest⟩
  | nil =>
    intro tier e v errors above derives _ _
    exact ⟨[], v, rfl, .nil, above, trivial, .tighter (Nat.zero_le _) derives⟩
  | group below room kind =>
    intro tier e v errors above derives _ _
    exact ⟨_, v, rfl, .group below room kind, above, trivial, .tighter (Nat.zero_le _) derives⟩
  | emptyCall below room callee kind =>
    intro tier e v errors above derives _ _
    exact ⟨_, v, rfl, .emptyCall below room callee kind, above, trivial,
      .tighter (Nat.zero_le _) derives⟩
  | call below room callee kind args comma =>
    intro tier e v errors above derives _ _
    exact ⟨_, v, rfl, .call below room callee kind args comma, above, trivial,
      .tighter (Nat.zero_le _) derives⟩

/-- What one more token makes of an expression spelled by `w`. -/
def Progress.Follows (rules : Rules) (w : List Token) (t : Token) : Progress → Prop
  | .more next => next.Spells rules (w ++ [t])
  | .complete value => Derives rules (.expr .expression value) w
  | .stuck problem => rules.waives problem = false

theorem startOperand_follows {pending : List Pending} {w : List Token} (t : Token)
    (spells : Spells rules pending w) (room : HasRoom rules pending) :
    (startOperand pending t).Follows rules w t := by
  unfold startOperand
  split
  · exact .unary spells room (.inl ‹_›)
  · exact .unary spells room (.inr ‹_›)
  · exact .group spells room ‹_›
  · split
    · rename_i value read
      exact ⟨w, [t], rfl, spells, room, .tighter (by decide) (.atom (atom_of_primary read))⟩
    · rfl

theorem feedOperand_follows {pending : List Pending} {w : List Token} (t : Token)
    (spells : Spells rules pending w) (waived : rules.Waives (feedOperand pending t).1) :
    (feedOperand pending t).2.Follows rules w t := by
  unfold feedOperand at waived ⊢
  split at waived
  · rename_i callee args outer
    split at waived
    · rename_i ends
      rw [if_pos ends]
      simp only [Bool.and_eq_true, Array.isEmpty_iff, Token.is_eq_true] at ends
      obtain ⟨rfl, kind⟩ := ends
      cases spells with
      | @emptyCall opened _ v u _ below room derives left =>
        exact ⟨u, v ++ [opened, t], by simp, below, room, .emptyCall derives left kind⟩
      | call _ _ _ _ args => exact absurd rfl (args_ne_nil args)
    · rename_i goes
      rw [if_neg goes]
      split at waived
      · rename_i many
        rw [if_pos many]
        exact startOperand_follows t spells (.inr (waived _ (List.mem_singleton_self _)))
      · rename_i few
        rw [if_neg few]
        refine startOperand_follows t spells (.inl ?_)
        simp only [maxArguments] at few
        omega
  · rename_i noCall
    refine startOperand_follows t spells ?_
    unfold HasRoom
    split
    · exact absurd rfl (noCall _ _ _)
    · trivial

theorem endInner_follows {s : Settled} {u v : List Token} (t : Token)
    (spells : Spells rules s.pending u) (room : HasRoom rules s.pending)
    (bracket : AtBracket s.pending) (derives : Derives rules (.expr .expression s.value) v) :
    (endInner s t).Follows rules (u ++ v) t := by
  obtain ⟨pending, value, errors⟩ := s
  cases spells with
  | nil => exact derives
  | @group opened outer w below outerRoom left =>
    simp only [endInner]
    split
    · rename_i kind
      have inner : Derives rules (.expr .primary (.group value)) (opened :: (v ++ [t])) :=
        .group left derives (Token.is_eq_true.mp kind)
      exact ⟨w, _, by simp, below, outerRoom, .tighter (by decide) inner⟩
    · rfl
  | @emptyCall opened outer x w f below outerRoom callee left =>
    have args : Derives rules (.args (#[].push value).toList) v := .oneArg derives
    simp only [endInner]
    split
    · rename_i kind
      have step := Spells.call below outerRoom callee left args (Token.is_eq_true.mp kind)
      simpa [Progress.Follows, OpenExpr.Spells] using step
    · split
      · rename_i kind
        refine ⟨w, x ++ opened :: (v ++ [t]), by simp, below, outerRoom, ?_⟩
        exact .call callee left args (Token.is_eq_true.mp kind) room
      · rfl
  | @call opened comma outer y x w f args below outerRoom callee left listed between =>
    have more : Derives rules (.args (args.push value).toList) (y ++ comma :: v) := by
      rw [Array.toList_push]
      exact .moreArgs listed between derives
    simp only [endInner]
    split
    · rename_i kind
      have step := Spells.call below outerRoom callee left more (Token.is_eq_true.mp kind)
      simpa [Progress.Follows, OpenExpr.Spells] using step
    · split
      · rename_i kind
        refine ⟨w, x ++ opened :: ((y ++ comma :: v) ++ [t]), by simp, below, outerRoom, ?_⟩
        refine .call callee left more (Token.is_eq_true.mp kind) ?_
        simpa [HasRoom] using room
      · rfl
  | unary | operator | assign => exact absurd bracket (by simp [AtBracket])

theorem feed_follows {e : OpenExpr} {w : List Token} (t : Token) (spells : e.Spells rules w)
    (waived : rules.Waives (e.feed t).1) : (e.feed t).2.Follows rules w t := by
  obtain ⟨pending, operand⟩ := e
  cases operand with
  | none => exact feedOperand_follows t spells waived
  | some value =>
    obtain ⟨u, v, rfl, below, room, derives⟩ := spells
    have demanded : demand pending ≤ Tier.call.rank :=
      Nat.le_trans (demand_le_unary pending) (by decide)
    simp only [OpenExpr.feed, feedOperator] at waived ⊢
    split at waived
    · rename_i kind
      have step := Spells.emptyCall below room derives kind
      simpa [Progress.Follows, OpenExpr.Spells] using step
    · rename_i kind
      obtain ⟨u', v', tier, same, below', room', derives', high⟩ :=
        close_spells (fun _ => true) (n := 1) below (by decide) (fun level _ => level.rank_pos) room
          derives demanded (by decide)
      have step := Spells.assign below' room'
        (demand_close (fun _ never => absurd never (by decide)) pending value)
        (.tighter high derives') kind
      rw [same]
      simpa [Progress.Follows, OpenExpr.Spells] using step
    · rename_i level kind _ _
      obtain ⟨u', v', tier, same, below', room', derives', high⟩ :=
        close_spells (·.closesBefore level) below level.left_le_unary
          (fun other => other.left_le_of_closes level) room derives demanded
          (Nat.le_trans level.left_le_unary (by decide))
      have step := Spells.operator below' room'
        (demand_close (fun other => other.right_le_of_open level) pending value)
        (.tighter high derives') kind
      rw [same]
      simpa [Progress.Follows, OpenExpr.Spells] using step
    · obtain ⟨u', v', same, below', room', bracket, derives'⟩ :=
        settle_spells below room derives demanded waived
      rw [same]
      exact endInner_follows t below' room' bracket derives'

theorem OpenExpr.Spells.empty : OpenExpr.Spells rules {} [] := Spells.nil

end Treewalk.Parse
