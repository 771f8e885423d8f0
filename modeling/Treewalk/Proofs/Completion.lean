import Treewalk.Proofs.StatementGrammar

namespace Treewalk

def Grammar.Rules.relaxed : Rules := { anyTarget := true, anyCount := true, anyReturn := true }

namespace Parse

open Grammar Grammar.Rules
open Token (Kind)

def filler (kind : Kind) : Token := { kind, lexeme := "", line := 1, span := ⟨0, 0⟩ }

theorem kind_filler (kind : Kind) : (filler kind).kind = kind := rfl

theorem derives_filler : Derives relaxed (.expr .primary (.constant .nil)) [filler .kwNil] :=
  .atom (.nil rfl)

theorem counts_relaxed (n : Nat) : relaxed.Counts n := .inr rfl

theorem Spells.completes {pending : List Pending} {w : List Token}
    (spells : Spells relaxed pending w) :
    ∀ {tier e v}, Derives relaxed (.expr tier e) v → demand pending ≤ tier.rank →
      ∃ u e', Derives relaxed (.expr .expression e') (w ++ (v ++ u)) := by
  induction spells with
  | nil =>
    intro tier e v derives _
    exact ⟨[], e, by simpa using Derives.tighter (Nat.zero_le _) derives⟩
  | unary _ _ kind ih =>
    intro tier e v derives demanded
    have next := Derives.unary kind (.tighter demanded derives)
    obtain ⟨u, e', whole⟩ := ih next (demand_le_unary _)
    exact ⟨u, e', by simpa using whole⟩
  | operator _ _ bound left kind ih =>
    intro tier e v derives demanded
    have next := derives_operator kind left derives demanded
    rw [← Level.rank_tier] at bound
    obtain ⟨u, e', whole⟩ := ih next bound
    exact ⟨u, e', by simpa using whole⟩
  | @assign equals outer v w target _ _ bound left kind ih =>
    intro tier e r derives _
    have value : Derives relaxed (.expr .expression e) r := .tighter (Nat.zero_le _) derives
    by_cases named : ∃ name, target = .var name
    · obtain ⟨name, rfl⟩ := named
      obtain ⟨rfl, identifier⟩ := derives_var left rfl
      obtain ⟨u, e', whole⟩ := ih (.assign identifier kind value) bound
      exact ⟨u, e', by simpa using whole⟩
    · have other : ∀ name, target ≠ .var name := fun name same => named ⟨name, same⟩
      obtain ⟨u, e', whole⟩ := ih (.waivedTarget rfl other left kind value) bound
      exact ⟨u, e', by simpa using whole⟩
  | group _ _ kind ih =>
    intro tier e v derives _
    have inner : Derives relaxed (.expr .expression e) v := .tighter (Nat.zero_le _) derives
    have next := Derives.group kind inner (kind_filler .rightParen)
    obtain ⟨u, e', whole⟩ := ih next (Nat.le_trans (demand_le_unary _) (by decide))
    exact ⟨filler .rightParen :: u, e', by simpa using whole⟩
  | emptyCall _ _ callee kind ih =>
    intro tier e v derives _
    have args := Derives.oneArg (.tighter (Nat.zero_le _) derives)
    have next := Derives.call callee kind args (kind_filler .rightParen)
      (counts_relaxed _)
    obtain ⟨u, e', whole⟩ := ih next (Nat.le_trans (demand_le_unary _) (by decide))
    exact ⟨filler .rightParen :: u, e', by simpa using whole⟩
  | call _ _ callee kind listed comma ih =>
    intro tier e v derives _
    have args := Derives.moreArgs listed comma (.tighter (Nat.zero_le _) derives)
    have next := Derives.call callee kind args (kind_filler .rightParen)
      (counts_relaxed _)
    obtain ⟨u, e', whole⟩ := ih next (Nat.le_trans (demand_le_unary _) (by decide))
    exact ⟨filler .rightParen :: u, e', by simpa using whole⟩

theorem OpenExpr.Spells.completes {read : OpenExpr} {w : List Token}
    (spells : read.Spells relaxed w) :
    ∃ u e, Derives relaxed (.expr .expression e) (w ++ u) := by
  obtain ⟨pending, operand⟩ := read
  have small (tight : Tier) (high : Tier.unary.rank ≤ tight.rank) : demand pending ≤ tight.rank :=
    Nat.le_trans (demand_le_unary pending) high
  cases operand with
  | none =>
    obtain ⟨u, e, whole⟩ := Parse.Spells.completes spells derives_filler (small _ (by decide))
    exact ⟨filler .kwNil :: u, e, whole⟩
  | some value =>
    obtain ⟨x, v, rfl, below, _, derives⟩ := spells
    obtain ⟨u, e, whole⟩ := below.completes derives (small _ (by decide))
    exact ⟨u, e, by simpa using whole⟩

section Statements

variable {inside : Bool} {holes : List Hole} {w : List Token}

/-- `w` leads to a statement, or to a declaration where one may stand. -/
def Completes (inside : Bool) (holes : List Hole) (w : List Token) : Prop :=
  ∃ u x, (∃ dangling, Forms relaxed (.statement inside dangling x) (w ++ u)) ∨
    (holes = [] ∧ Forms relaxed (.declaration inside x) (w ++ u))

theorem Completes.statement {dangling : Bool} {x : Stmt} {z : List Token} (u : List Token)
    (forms : Forms relaxed (.statement inside dangling x) z) (same : z = w ++ u) :
    Completes inside holes w :=
  ⟨u, x, .inl ⟨dangling, same ▸ forms⟩⟩

theorem Completes.declaration {x : Stmt} {z : List Token} (free : holes = []) (u : List Token)
    (forms : Forms relaxed (.declaration inside x) z) (same : z = w ++ u) :
    Completes inside holes w :=
  ⟨u, x, .inr ⟨free, same ▸ forms⟩⟩

theorem Completes.trans (u : List Token) (later : Completes inside holes (w ++ u)) :
    Completes inside holes w := by
  obtain ⟨u', x, whole⟩ := later
  refine ⟨u ++ u', x, ?_⟩
  rwa [← List.append_assoc]

theorem forms_filler (inside : Bool) :
    Forms relaxed (.statement inside false (.expression (.constant .nil)))
      [filler .kwNil, filler .semicolon] :=
  .expression (.tighter (Nat.zero_le _) derives_filler) rfl

theorem Completes.forIncrement {keyword opened semicolon : Token} {initial : Option Stmt}
    {test : Option Expr} {i c : List Token} (loop : keyword.kind = .kwFor)
    (opens : opened.kind = .leftParen) (first : Initial relaxed initial i)
    (second : Optional relaxed test c) (between : semicolon.kind = .semicolon) :
    Completes inside holes (keyword :: opened :: (i ++ (c ++ [semicolon]))) := by
  have whole := Forms.forLoop loop opens first second between .absent
    (kind_filler .rightParen) (forms_filler inside)
  exact .statement [filler .rightParen, filler .kwNil, filler .semicolon] whole (by simp)

theorem Completes.forCondition {keyword opened : Token} {initial : Option Stmt} {i : List Token}
    (loop : keyword.kind = .kwFor) (opens : opened.kind = .leftParen)
    (first : Initial relaxed initial i) : Completes inside holes (keyword :: opened :: i) :=
  .trans [filler .semicolon]
    (.forIncrement loop opens first .absent (kind_filler .semicolon))

theorem Completes.variable {x : Stmt} {site : Site} {l v u : List Token}
    (place : SiteSpells holes site l) (declares : Variable relaxed x (v ++ u)) :
    Completes inside holes (l ++ v) := by
  cases place with
  | declaration free => exact .declaration free u (.declared declares) rfl
  | forClause loop opens =>
    have rest : Completes inside holes (_ :: _ :: (v ++ u)) :=
      .forCondition loop opens (.declared declares)
    exact .trans u rest

theorem Completes.bodyBrace {keyword name opened right : Token} {p params : List Token}
    (free : holes = []) (fn : keyword.kind = .kwFun) (named : name.kind = .identifier)
    (opens : opened.kind = .leftParen) (listed : Params relaxed params p)
    (ends : right.kind = .rightParen) :
    Completes inside holes (keyword :: name :: opened :: (p ++ [right])) := by
  have empty : Forms relaxed (.declarations true []) [] := .empty
  exact .declaration free [filler .leftBrace, filler .rightBrace]
    (.function fn named opens listed ends (kind_filler .leftBrace) empty (kind_filler .rightBrace))
    (by simp)

theorem Completes.head {hole : Hole} (spelled : HoleSpells relaxed inside hole w) :
    Completes inside holes w := by
  by_cases branch : ∃ condition, hole = .thenBranch condition
  · obtain ⟨condition, rfl⟩ := branch
    exact .statement _ (then_fill spelled (forms_filler inside)) rfl
  · have other : ∀ condition, hole ≠ .thenBranch condition := fun c same => branch ⟨c, same⟩
    exact .statement _ (hole_fill spelled (forms_filler inside) other) rfl

theorem HeaderSpells.completes {due : Header} (spelled : HeaderSpells relaxed inside holes due w) :
    Completes inside holes w := by
  have named : (filler .identifier).kind = .identifier := rfl
  have opens : (filler .leftParen).kind = .leftParen := rfl
  have ends : (filler .rightParen).kind = .rightParen := rfl
  have condition : Derives relaxed (.expr .expression (.constant .nil)) [filler .kwNil] :=
    .tighter (Nat.zero_le _) derives_filler
  cases spelled with
  | functionName free fn =>
    exact .trans [filler .identifier, filler .leftParen, filler .rightParen]
      (.bodyBrace free fn named opens .empty ends)
  | functionParen free fn name =>
    exact .trans [filler .leftParen, filler .rightParen] (.bodyBrace free fn name opens .empty ends)
  | @parameter keyword name opened params p free fn name' opens' due =>
    have listed : Names (params.toList ++ [filler .identifier]) (p ++ [filler .identifier]) := by
      generalize params.toList = names at due
      cases due with
      | first => exact .one named
      | next listed comma => simpa using listed.more comma named
    refine .trans [filler .identifier, filler .rightParen] ?_
    have rest : Completes inside holes _ :=
      .bodyBrace free fn name' opens' (.listed listed (counts_relaxed _)) ends
    simpa using rest
  | parameterEnd free fn name opens' listed counts =>
    exact .trans [filler .rightParen] (.bodyBrace free fn name opens' (.listed listed counts) ends)
  | bodyBrace free fn name opens' listed ends' =>
    exact .bodyBrace free fn name opens' listed ends'
  | variableName place var =>
    exact .variable place (u := [filler .identifier, filler .semicolon]) (.bare var named rfl)
  | variableEnd place var name =>
    exact .variable place (u := [filler .semicolon]) (.bare var name rfl)
  | returnValue place kind =>
    exact .statement [filler .semicolon]
      (.ret place kind .absent (kind_filler .semicolon)) rfl
  | ifParen kind =>
    exact .trans [filler .leftParen, filler .kwNil, filler .rightParen]
      (.head (.thenBranch kind opens condition ends))
  | whileParen kind =>
    exact .trans [filler .leftParen, filler .kwNil, filler .rightParen]
      (.head (.whileBody kind opens condition ends))
  | forParen kind =>
    exact .trans [filler .leftParen, filler .semicolon]
      (.forCondition kind opens (.absent (kind_filler .semicolon)))
  | forInitial loop opens' =>
    exact .trans [filler .semicolon]
      (.forCondition loop opens' (.absent (kind_filler .semicolon)))
  | forCondition loop opens' first => exact .forCondition loop opens' first
  | forIncrement loop opens' first second between =>
    exact .forIncrement loop opens' first second between

theorem GoalSpells.completes {goal : Goal} {e : Expr} {g r : List Token}
    (lead : GoalSpells relaxed inside holes goal g)
    (value : Derives relaxed (.expr .expression e) r) : Completes inside holes (g ++ r) := by
  have ends : (filler .rightParen).kind = .rightParen := rfl
  cases lead with
  | expression =>
    exact .statement [filler .semicolon] (.expression value (kind_filler .semicolon))
      rfl
  | printed kind =>
    exact .statement [filler .semicolon] (.print kind value (kind_filler .semicolon))
      rfl
  | variableValue place var named equal =>
    have declares := Variable.set var named equal value (kind_filler .semicolon)
    have rest : Completes inside holes (_ ++ (_ :: _ :: _ :: r)) := .variable place declares
    simpa using rest
  | returned header =>
    cases header with
    | returnValue place kind =>
      exact .statement [filler .semicolon]
        (.ret place kind (.present value) (kind_filler .semicolon)) rfl
  | ifCondition kind opens =>
    exact .trans [filler .rightParen] (.head (.thenBranch kind opens value ends))
  | whileCondition kind opens =>
    exact .trans [filler .rightParen] (.head (.whileBody kind opens value ends))
  | forInitial loop opens =>
    exact .trans [filler .semicolon]
      (.forCondition loop opens (.expression value (kind_filler .semicolon)))
  | forCondition header =>
    cases header with
    | forCondition loop opens first =>
      have rest : Completes inside holes _ :=
        .forIncrement loop opens first (.present value) (kind_filler .semicolon)
      exact .trans [filler .semicolon] (by simpa using rest)
  | forIncrement header =>
    cases header with
    | forIncrement loop opens first second between =>
      have rest : Completes inside holes _ :=
        .head (.forBody loop opens first second between (.present value) ends)
      exact .trans [filler .rightParen] (by simpa using rest)

/-- Whatever is being read, but between declarations, leads on to a statement. -/
theorem ModeSpells.completes {mode : Mode} (spelled : ModeSpells relaxed inside holes mode w)
    (busy : mode ≠ .declaration) : Completes inside holes w := by
  cases spelled with
  | declaration => exact absurd rfl busy
  | statement => exact .statement _ (forms_filler inside) rfl
  | afterThen head body => exact .statement [] (then_fill head body) (by simp)
  | header spelled => exact spelled.completes
  | @value goal read v r lead spelled =>
    obtain ⟨u, e, value⟩ := spelled.completes
    have rest := lead.completes value
    exact .trans u (by simpa using rest)

end Statements

theorem Completes.declared {inside : Bool} {holes : List Hole} {x y : List Token}
    (heads : HolesSpell relaxed inside holes x) (next : Completes inside holes y) :
    ∃ u z, Forms relaxed (.declaration inside z) (x ++ (y ++ u)) := by
  obtain ⟨u, z, ⟨dangling, forms⟩ | ⟨free, forms⟩⟩ := next
  · obtain ⟨dangling', whole⟩ := fillAll_spells heads forms
    exact ⟨u, _, .statement whole⟩
  · subst free
    cases heads
    exact ⟨u, z, forms⟩

theorem OuterSpells.completes {outer : List (Opener × Layer)} {w : List Token}
    (around : OuterSpells relaxed outer w) :
    ∀ {ss v}, Forms relaxed (.declarations (inBody outer) ss) v →
      ∃ u p, Program relaxed p (w ++ (v ++ u)) := by
  induction around with
  | nil =>
    intro ss v done
    have program : Program relaxed ss v := done
    exact ⟨[], ss, by simpa using program⟩
  | @cons opener layer outer u v w x _ before heads opened free ih =>
    intro ss y done
    have leaves : (filler .rightBrace).kind = .rightBrace := rfl
    have next : ∃ z, Forms relaxed (.declaration (inBody outer) z)
        (w ++ (x ++ (y ++ [filler .rightBrace]))) := by
      cases opened with
      | block brace =>
        have inner : inBody ((.block, layer) :: outer) = inBody outer := rfl
        rw [inner] at done
        obtain ⟨dangling, whole⟩ := fillAll_spells heads (.block brace done leaves)
        exact ⟨_, .statement whole⟩
      | body fn named opens listed ends enters =>
        have none : layer.holes = [] := free rfl
        rw [none] at heads
        cases heads
        have body : Forms relaxed (.declarations true ss) y := done
        have whole : Forms relaxed (.declaration (inBody outer) _) _ :=
          .function fn named opens listed ends enters body leaves
        exact ⟨_, by simpa using whole⟩
    obtain ⟨z, declared⟩ := next
    obtain ⟨u', p, whole⟩ := ih (before.more declared)
    exact ⟨filler .rightBrace :: u', p, by simpa using whole⟩

/-- What has been read without a hard error is the beginning of a program. -/
theorem State.Spells.completes {s : State} {w : List Token} (spells : s.Spells relaxed w) :
    ∃ u p, Program relaxed p (w ++ u) := by
  obtain ⟨layer, outer, mode, errors⟩ := s
  obtain ⟨u, v, x, y, rfl, around, done, heads, spelled⟩ := spells
  by_cases idle : mode = .declaration
  · subst idle
    cases spelled with
    | declaration free =>
      change layer.holes = [] at free
      rw [free] at heads
      cases heads
      obtain ⟨rest, p, whole⟩ := around.completes done
      exact ⟨rest, p, by simpa using whole⟩
  · obtain ⟨more, z, declared⟩ := Completes.declared heads (spelled.completes idle)
    obtain ⟨rest, p, whole⟩ := around.completes (done.more declared)
    exact ⟨more ++ rest, p, by simpa using whole⟩

end Parse

end Treewalk
