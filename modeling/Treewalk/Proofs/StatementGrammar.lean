import Treewalk.Proofs.ExpressionGrammar
import Treewalk.Proofs.StatementReading

namespace Treewalk.Parse

open Grammar Grammar.Rules
open Token (Kind)

inductive HoleSpells (rules : Rules) (inside : Bool) : Hole → List Token → Prop
  | thenBranch {keyword opened right : Token} {c : List Token} {condition : Expr} :
    keyword.kind = .kwIf → opened.kind = .leftParen →
    Derives rules (.expr .expression condition) c → right.kind = .rightParen →
    HoleSpells rules inside (.thenBranch condition) (keyword :: opened :: (c ++ [right]))
  | elseBranch {keyword opened right other : Token} {c v : List Token} {condition : Expr}
      {x : Stmt} :
    keyword.kind = .kwIf → opened.kind = .leftParen →
    Derives rules (.expr .expression condition) c → right.kind = .rightParen →
    Forms rules (.statement inside false x) v → other.kind = .kwElse →
    HoleSpells rules inside (.elseBranch condition x)
      (keyword :: opened :: (c ++ right :: (v ++ [other])))
  | whileBody {keyword opened right : Token} {c : List Token} {condition : Expr} :
    keyword.kind = .kwWhile → opened.kind = .leftParen →
    Derives rules (.expr .expression condition) c → right.kind = .rightParen →
    HoleSpells rules inside (.whileBody condition) (keyword :: opened :: (c ++ [right]))
  | forBody {keyword opened semicolon right : Token} {i c n : List Token} {initial : Option Stmt}
      {test increment : Option Expr} :
    keyword.kind = .kwFor → opened.kind = .leftParen → Initial rules initial i →
    Optional rules test c → semicolon.kind = .semicolon → Optional rules increment n →
    right.kind = .rightParen →
    HoleSpells rules inside (.forBody initial (test.getD (.constant (.bool true))) increment)
      (keyword :: opened :: (i ++ (c ++ semicolon :: (n ++ [right]))))

inductive HolesSpell (rules : Rules) (inside : Bool) : List Hole → List Token → Prop
  | nil : HolesSpell rules inside [] []
  | cons {hole : Hole} {holes : List Hole} {v w : List Token} :
    HolesSpell rules inside holes v → HoleSpells rules inside hole w →
    HolesSpell rules inside (hole :: holes) (v ++ w)

inductive OpenerSpells (rules : Rules) : Opener → List Token → Prop
  | block {opened : Token} : opened.kind = .leftBrace → OpenerSpells rules .block [opened]
  | body {keyword name opened right entered : Token} {p params : List Token} :
    keyword.kind = .kwFun → name.kind = .identifier → opened.kind = .leftParen →
    Params rules params p → right.kind = .rightParen → entered.kind = .leftBrace →
    OpenerSpells rules (.body name params)
      (keyword :: name :: opened :: (p ++ [right, entered]))

def inBody (outer : List (Opener × Layer)) : Bool := outer.any (·.1.isBody)

/-- The tokens of the lists around the innermost one. A function is declared below no head. -/
inductive OuterSpells (rules : Rules) : List (Opener × Layer) → List Token → Prop
  | nil : OuterSpells rules [] []
  | cons {opener : Opener} {layer : Layer} {outer : List (Opener × Layer)} {u v w x : List Token} :
    OuterSpells rules outer u → Forms rules (.declarations (inBody outer) layer.done.toList) v →
    HolesSpell rules (inBody outer) layer.holes w → OpenerSpells rules opener x →
    (opener.isBody = true → layer.holes = []) →
    OuterSpells rules ((opener, layer) :: outer) (u ++ (v ++ (w ++ x)))

inductive SiteSpells (holes : List Hole) : Site → List Token → Prop
  | declaration : holes = [] → SiteSpells holes .declaration []
  | forClause {keyword opened : Token} :
    keyword.kind = .kwFor → opened.kind = .leftParen → SiteSpells holes .forClause [keyword, opened]

inductive NamesDue : List Token → List Token → Prop
  | first : NamesDue [] []
  | next {comma : Token} {names w : List Token} :
    Names names w → comma.kind = .comma → NamesDue names (w ++ [comma])

inductive HeaderSpells (rules : Rules) (inside : Bool) (holes : List Hole) :
    Header → List Token → Prop
  | functionName {keyword : Token} :
    holes = [] → keyword.kind = .kwFun → HeaderSpells rules inside holes .functionName [keyword]
  | functionParen {keyword name : Token} :
    holes = [] → keyword.kind = .kwFun → name.kind = .identifier →
    HeaderSpells rules inside holes (.functionParen name) [keyword, name]
  | parameter {keyword name opened : Token} {params : Array Token} {p : List Token} :
    holes = [] → keyword.kind = .kwFun → name.kind = .identifier → opened.kind = .leftParen →
    NamesDue params.toList p →
    HeaderSpells rules inside holes (.parameter name params) (keyword :: name :: opened :: p)
  | parameterEnd {keyword name opened : Token} {params : Array Token} {p : List Token} :
    holes = [] → keyword.kind = .kwFun → name.kind = .identifier → opened.kind = .leftParen →
    Names params.toList p → rules.Counts params.size →
    HeaderSpells rules inside holes (.parameterEnd name params) (keyword :: name :: opened :: p)
  | bodyBrace {keyword name opened right : Token} {params : Array Token} {p : List Token} :
    holes = [] → keyword.kind = .kwFun → name.kind = .identifier → opened.kind = .leftParen →
    Params rules params.toList p → right.kind = .rightParen →
    HeaderSpells rules inside holes (.bodyBrace name params)
      (keyword :: name :: opened :: (p ++ [right]))
  | variableName {keyword : Token} {site : Site} {l : List Token} :
    SiteSpells holes site l → keyword.kind = .kwVar →
    HeaderSpells rules inside holes (.variableName site) (l ++ [keyword])
  | variableEnd {keyword name : Token} {site : Site} {l : List Token} :
    SiteSpells holes site l → keyword.kind = .kwVar → name.kind = .identifier →
    HeaderSpells rules inside holes (.variableEnd site name) (l ++ [keyword, name])
  | returnValue {keyword : Token} :
    inside = true ∨ rules.anyReturn = true → keyword.kind = .kwReturn →
    HeaderSpells rules inside holes (.returnValue keyword) [keyword]
  | ifParen {keyword : Token} :
    keyword.kind = .kwIf → HeaderSpells rules inside holes .ifParen [keyword]
  | whileParen {keyword : Token} :
    keyword.kind = .kwWhile → HeaderSpells rules inside holes .whileParen [keyword]
  | forParen {keyword : Token} :
    keyword.kind = .kwFor → HeaderSpells rules inside holes .forParen [keyword]
  | forInitial {keyword opened : Token} :
    keyword.kind = .kwFor → opened.kind = .leftParen →
    HeaderSpells rules inside holes .forInitial [keyword, opened]
  | forCondition {keyword opened : Token} {initial : Option Stmt} {i : List Token} :
    keyword.kind = .kwFor → opened.kind = .leftParen → Initial rules initial i →
    HeaderSpells rules inside holes (.forCondition initial) (keyword :: opened :: i)
  | forIncrement {keyword opened semicolon : Token} {initial : Option Stmt} {test : Option Expr}
      {i c : List Token} :
    keyword.kind = .kwFor → opened.kind = .leftParen → Initial rules initial i →
    Optional rules test c → semicolon.kind = .semicolon →
    HeaderSpells rules inside holes (.forIncrement initial (test.getD (.constant (.bool true))))
      (keyword :: opened :: (i ++ (c ++ [semicolon])))

inductive GoalSpells (rules : Rules) (inside : Bool) (holes : List Hole) : Goal → List Token → Prop
  | expression : GoalSpells rules inside holes .expression []
  | printed {keyword : Token} :
    keyword.kind = .kwPrint → GoalSpells rules inside holes (.printed keyword) [keyword]
  | variableValue {keyword name equals : Token} {site : Site} {l : List Token} :
    SiteSpells holes site l → keyword.kind = .kwVar → name.kind = .identifier →
    equals.kind = .equal →
    GoalSpells rules inside holes (.variableValue site name) (l ++ [keyword, name, equals])
  | returned {keyword : Token} :
    HeaderSpells rules inside holes (.returnValue keyword) [keyword] →
    GoalSpells rules inside holes (.returned keyword) [keyword]
  | ifCondition {keyword opened : Token} :
    keyword.kind = .kwIf → opened.kind = .leftParen →
    GoalSpells rules inside holes .ifCondition [keyword, opened]
  | whileCondition {keyword opened : Token} :
    keyword.kind = .kwWhile → opened.kind = .leftParen →
    GoalSpells rules inside holes .whileCondition [keyword, opened]
  | forInitial {keyword opened : Token} :
    keyword.kind = .kwFor → opened.kind = .leftParen →
    GoalSpells rules inside holes .forInitial [keyword, opened]
  | forCondition {initial : Option Stmt} {w : List Token} :
    HeaderSpells rules inside holes (.forCondition initial) w →
    GoalSpells rules inside holes (.forCondition initial) w
  | forIncrement {initial : Option Stmt} {condition : Expr} {w : List Token} :
    HeaderSpells rules inside holes (.forIncrement initial condition) w →
    GoalSpells rules inside holes (.forIncrement initial condition) w

/-- The tokens of what is being read. Nothing spells a state in which tokens are skipped. -/
inductive ModeSpells (rules : Rules) (inside : Bool) (holes : List Hole) : Mode → List Token → Prop
  | declaration : holes = [] → ModeSpells rules inside holes .declaration []
  | statement : ModeSpells rules inside holes .statement []
  | afterThen {condition : Expr} {x : Stmt} {v w : List Token} :
    HoleSpells rules inside (.thenBranch condition) v → Forms rules (.statement inside false x) w →
    ModeSpells rules inside holes (.afterThen condition x) (v ++ w)
  | header {due : Header} {w : List Token} :
    HeaderSpells rules inside holes due w → ModeSpells rules inside holes (.header due) w
  | value {goal : Goal} {read : OpenExpr} {v w : List Token} :
    GoalSpells rules inside holes goal v → read.Spells rules w →
    ModeSpells rules inside holes (.value goal read) (v ++ w)

def State.Spells (rules : Rules) (s : State) (w : List Token) : Prop :=
  ∃ u v x y, w = u ++ (v ++ (x ++ y)) ∧ OuterSpells rules s.outer u ∧
    Forms rules (.declarations (inBody s.outer) s.layer.done.toList) v ∧
    HolesSpell rules (inBody s.outer) s.layer.holes x ∧
    ModeSpells rules (inBody s.outer) s.layer.holes s.mode y

variable {rules : Rules} {inside dangling : Bool}

theorem hole_fill {hole : Hole} {x : Stmt} {v w : List Token}
    (head : HoleSpells rules inside hole v)
    (body : Forms rules (.statement inside dangling x) w)
    (other : ∀ condition, hole ≠ .thenBranch condition) :
    Forms rules (.statement inside dangling (hole.fill x)) (v ++ w) := by
  cases head with
  | thenBranch _ _ _ _ => exact absurd rfl (other _)
  | elseBranch kind opens condition ends first otherwise =>
    simpa [Hole.fill] using Forms.ifElse kind opens condition ends first otherwise body
  | whileBody kind opens condition ends =>
    simpa [Hole.fill] using Forms.whileLoop kind opens condition ends body
  | forBody kind opens first second between third ends =>
    simpa [Hole.fill] using Forms.forLoop kind opens first second between third ends body

theorem then_fill {condition : Expr} {x : Stmt} {v w : List Token}
    (head : HoleSpells rules inside (.thenBranch condition) v)
    (body : Forms rules (.statement inside dangling x) w) :
    Forms rules (.statement inside true (.ifElse condition x none)) (v ++ w) := by
  cases head with
  | thenBranch kind opens condition ends =>
    simpa using Forms.ifThen kind opens condition ends body

def Filled.Spells (rules : Rules) (inside : Bool) (w : List Token) : Filled → Prop
  | .finished x => Forms rules (.statement inside false x) w
  | .waiting holes condition x => ∃ u v, w = u ++ v ∧ HolesSpell rules inside holes u ∧
    ModeSpells rules inside holes (.afterThen condition x) v

theorem fill_spells {holes : List Hole} {v : List Token} (heads : HolesSpell rules inside holes v) :
    ∀ {x w}, Forms rules (.statement inside false x) w →
      (fill holes x).Spells rules inside (v ++ w) := by
  induction heads with
  | nil =>
    intro x w body
    exact body
  | @cons hole holes v v' rest head ih =>
    intro x w body
    rw [List.append_assoc]
    by_cases branch : ∃ condition, hole = .thenBranch condition
    · obtain ⟨condition, rfl⟩ := branch
      exact ⟨v, v' ++ w, rfl, rest, .afterThen head body⟩
    · have other : ∀ condition, hole ≠ .thenBranch condition := fun c same => branch ⟨c, same⟩
      have filled := ih (hole_fill head body other)
      cases hole with
      | thenBranch condition => exact absurd rfl (other condition)
      | _ => exact filled

theorem fillAll_spells {holes : List Hole} {v : List Token}
    (heads : HolesSpell rules inside holes v) :
    ∀ {dangling x w}, Forms rules (.statement inside dangling x) w →
      ∃ dangling', Forms rules
        (.statement inside dangling' (holes.foldl (fun y hole => hole.fill y) x)) (v ++ w) := by
  induction heads with
  | nil =>
    intro dangling x w body
    exact ⟨dangling, body⟩
  | @cons hole holes v v' rest head ih =>
    intro dangling x w body
    rw [List.append_assoc]
    by_cases branch : ∃ condition, hole = .thenBranch condition
    · obtain ⟨condition, rfl⟩ := branch
      exact ih (then_fill head body)
    · exact ih (hole_fill head body fun c same => branch ⟨c, same⟩)

/-- No error but what the rules waive. -/
def State.Accepted (rules : Rules) (s : State) : Prop :=
  ∀ e ∈ s.errors, rules.waives e.problem = true

theorem Goal.closer_hard (goal : Goal) : rules.waives goal.closer.2 = false := by
  cases goal <;> rfl

namespace State

variable {s : State} {u v x y : List Token} {t : Token}

theorem not_accepted_fail {problem : Problem} (hard : rules.waives problem = false) :
    ¬ (s.fail t problem).Accepted rules := by
  intro accepted
  have waived := accepted (.atToken t problem) (by simp [fail])
  change rules.waives problem = true at waived
  rw [hard] at waived
  cases waived

theorem finishDeclaration_spells {z : Stmt} (outer : OuterSpells rules s.outer u)
    (done : Forms rules (.declarations (inBody s.outer) s.layer.done.toList) v)
    (next : Forms rules (.declaration (inBody s.outer) z) y) :
    (s.finishDeclaration z).Spells rules (u ++ (v ++ y)) := by
  refine ⟨u, v ++ y, [], [], by simp, outer, ?_, .nil, .declaration rfl⟩
  simpa [finishDeclaration] using done.more next

theorem complete_spells {z : Stmt} (outer : OuterSpells rules s.outer u)
    (done : Forms rules (.declarations (inBody s.outer) s.layer.done.toList) v)
    (heads : HolesSpell rules (inBody s.outer) s.layer.holes x)
    (next : Forms rules (.statement (inBody s.outer) false z) y) :
    (s.complete z).Spells rules (u ++ (v ++ (x ++ y))) := by
  have filled := fill_spells heads next
  unfold complete
  cases same : fill s.layer.holes z with
  | finished z' =>
    rw [same] at filled
    exact finishDeclaration_spells outer done (.statement filled)
  | waiting holes condition z' =>
    rw [same] at filled
    obtain ⟨x', y', split, heads', mode⟩ := filled
    exact ⟨u, v, x', y', by rw [split], outer, done, heads', mode⟩

theorem complete_declaration {z : Stmt} (outer : OuterSpells rules s.outer u)
    (done : Forms rules (.declarations (inBody s.outer) s.layer.done.toList) v)
    (free : s.layer.holes = []) (next : Forms rules (.declaration (inBody s.outer) z) y) :
    (s.complete z).Spells rules (u ++ (v ++ y)) := by
  simp only [complete, free, fill]
  exact finishDeclaration_spells outer done next

theorem completeAll_spells {z : Stmt} (outer : OuterSpells rules s.outer u)
    (done : Forms rules (.declarations (inBody s.outer) s.layer.done.toList) v)
    (heads : HolesSpell rules (inBody s.outer) s.layer.holes x)
    (next : Forms rules (.statement (inBody s.outer) dangling z) y) :
    (s.completeAll z).Spells rules (u ++ (v ++ (x ++ y))) := by
  obtain ⟨dangling', all⟩ := fillAll_spells heads next
  exact finishDeclaration_spells outer done (.statement all)

theorem reach_spells {goal : Goal} {e : Expr} {g r : List Token}
    (outer : OuterSpells rules s.outer u)
    (done : Forms rules (.declarations (inBody s.outer) s.layer.done.toList) v)
    (heads : HolesSpell rules (inBody s.outer) s.layer.holes x)
    (lead : GoalSpells rules (inBody s.outer) s.layer.holes goal g)
    (value : Derives rules (.expr .expression e) r) (kind : t.kind = goal.closer.1) :
    (s.reach e goal).Spells rules (u ++ (v ++ (x ++ (g ++ (r ++ [t]))))) := by
  cases lead with
  | expression => exact complete_spells outer done heads (.expression value kind)
  | printed keyword => exact complete_spells outer done heads (.print keyword value kind)
  | returned header =>
    cases header with
    | returnValue place keyword =>
      exact complete_spells outer done heads (.ret place keyword (.present value) kind)
  | @variableValue keyword name equals site l place var named equal =>
    have declares : Variable rules (.varDecl name (some e))
        (keyword :: name :: equals :: (r ++ [t])) := .set var named equal value kind
    cases place with
    | declaration free =>
      have empty : x = [] := by rw [free] at heads; cases heads; rfl
      rw [empty]
      exact complete_declaration outer done free (.declared declares)
    | forClause loop opens =>
      refine ⟨u, v, x, _, ?_, outer, done, heads,
        .header (.forCondition loop opens (.declared declares))⟩
      simp
  | ifCondition keyword opens =>
    refine ⟨u, v, _, [], ?_, outer, done, .cons heads (.thenBranch keyword opens value kind),
      .statement⟩
    simp
  | whileCondition keyword opens =>
    refine ⟨u, v, _, [], ?_, outer, done, .cons heads (.whileBody keyword opens value kind),
      .statement⟩
    simp
  | forInitial loop opens =>
    refine ⟨u, v, x, _, ?_, outer, done, heads,
      .header (.forCondition loop opens (.expression value kind))⟩
    simp
  | forCondition header =>
    cases header with
    | forCondition loop opens first =>
      refine ⟨u, v, x, _, ?_, outer, done, heads,
        .header (.forIncrement loop opens first (.present value) kind)⟩
      simp
  | forIncrement header =>
    cases header with
    | forIncrement loop opens first second between =>
      refine ⟨u, v, _, [], ?_, outer, done,
        .cons heads (.forBody loop opens first second between (.present value) kind), .statement⟩
      simp

theorem reach_keeps (s : State) (e : Expr) (goal : Goal) : (s.reach e goal).errors = s.errors := by
  have same := s.reach_errors e goal s.errors
  rw [same]

theorem feedValue_keeps (s : State) (goal : Goal) (read : OpenExpr) (t : Token) {e : SyntaxError}
    (member : e ∈ s.errors ++ (read.feed t).1) : e ∈ (s.feedValue goal read t).errors := by
  simp only [feedValue]
  split
  · exact member
  · simp only [fail, Array.mem_push]
    exact .inl member
  · split
    · rw [reach_keeps]
      exact member
    · simp only [fail, Array.mem_push]
      exact .inl member

theorem feedValue_spells {goal : Goal} {read : OpenExpr} {g r : List Token}
    (outer : OuterSpells rules s.outer u)
    (done : Forms rules (.declarations (inBody s.outer) s.layer.done.toList) v)
    (heads : HolesSpell rules (inBody s.outer) s.layer.holes x)
    (lead : GoalSpells rules (inBody s.outer) s.layer.holes goal g) (spells : read.Spells rules r)
    (accepted : (s.feedValue goal read t).Accepted rules) :
    (s.feedValue goal read t).Spells rules (u ++ (v ++ (x ++ (g ++ (r ++ [t]))))) := by
  have waived : rules.Waives (read.feed t).1 := by
    intro e member
    exact accepted e (s.feedValue_keeps goal read t (by simp [member]))
  have follows := feed_follows t spells waived
  rcases fed : read.feed t with ⟨es, next | value | problem⟩
  · rw [fed] at follows
    simp only [feedValue, fed]
    exact ⟨u, v, x, _, rfl, outer, done, heads, .value lead follows⟩
  · rw [fed] at follows
    simp only [feedValue, fed] at accepted ⊢
    split at accepted
    · rename_i kind
      rw [if_pos kind]
      exact reach_spells outer done heads lead follows (Token.is_eq_true.mp kind)
    · exact absurd accepted (not_accepted_fail (Goal.closer_hard goal))
  · rw [fed] at follows
    simp only [feedValue, fed] at accepted
    exact absurd accepted (not_accepted_fail follows)

theorem startStatement_spells (outer : OuterSpells rules s.outer u)
    (done : Forms rules (.declarations (inBody s.outer) s.layer.done.toList) v)
    (heads : HolesSpell rules (inBody s.outer) s.layer.holes x)
    (accepted : (s.startStatement t).Accepted rules) :
    (s.startStatement t).Spells rules (u ++ (v ++ (x ++ [t]))) := by
  by_cases ret : t.kind = .kwReturn
  · rw [startStatement_return ret] at accepted ⊢
    have place : inBody s.outer = true ∨ rules.anyReturn = true := by
      cases inner : s.inFunction with
      | true => exact .inl inner
      | false =>
        rw [inner] at accepted
        exact .inr (accepted (.atToken t .topLevelReturn) (by simp [report, expectHeader]))
    split <;> exact ⟨u, v, x, _, rfl, outer, done, heads, .header (.returnValue place ret)⟩
  unfold startStatement at accepted ⊢
  split at accepted
  · exact ⟨u, v, x, _, rfl, outer, done, heads, .header (.forParen ‹_›)⟩
  · exact ⟨u, v, x, _, rfl, outer, done, heads, .header (.ifParen ‹_›)⟩
  · exact ⟨u, v, x, _, rfl, outer, done, heads, .value (.printed ‹_›) .empty⟩
  · exact absurd ‹_› ret
  · exact ⟨u, v, x, _, rfl, outer, done, heads, .header (.whileParen ‹_›)⟩
  · refine ⟨_, [], [], [], ?_, .cons outer done heads (.block ‹_›) ?_, .empty, .nil,
      .declaration rfl⟩
    · simp
    · intro never
      cases never
  · exact feedValue_spells outer done heads .expression .empty accepted

theorem close_spells {opener : Opener} {layer : Layer} {rest : List (Opener × Layer)}
    (around : s.outer = (opener, layer) :: rest) (outer : OuterSpells rules s.outer u)
    (done : Forms rules (.declarations (inBody s.outer) s.layer.done.toList) v)
    (kind : t.kind = .rightBrace) :
    ({ s with layer := layer, outer := rest }.complete
      (opener.close s.layer.done.toList)).Spells rules (u ++ (v ++ [t])) := by
  rw [around] at outer done
  cases outer with
  | @cons _ _ _ u' v' w' y below before heads opened free =>
    cases opened with
    | block brace =>
      have next : Forms rules (.statement (inBody rest) false (.block s.layer.done.toList)) _ :=
        .block brace done kind
      simpa [Opener.close] using
        complete_spells (s := { s with layer := layer, outer := rest }) below before heads next
    | @body _ _ opened right entered p params fn named opens listed ends enters =>
      have next : Forms rules
          (.declaration (inBody rest) (.funDecl _ params s.layer.done.toList)) _ :=
        .function fn named opens listed ends enters done kind
      have none : layer.holes = [] := free rfl
      have empty : w' = [] := by rw [none] at heads; cases heads; rfl
      simpa [Opener.close, empty] using
        complete_declaration (s := { s with layer := layer, outer := rest }) below before none next

theorem startDeclaration_spells (outer : OuterSpells rules s.outer u)
    (done : Forms rules (.declarations (inBody s.outer) s.layer.done.toList) v)
    (free : s.layer.holes = []) (accepted : (s.startDeclaration t).Accepted rules) :
    (s.startDeclaration t).Spells rules (u ++ (v ++ [t])) := by
  have heads : HolesSpell rules (inBody s.outer) s.layer.holes [] := by rw [free]; exact .nil
  unfold startDeclaration at accepted ⊢
  split at accepted
  · exact ⟨u, v, [], _, rfl, outer, done, heads, .header (.functionName free ‹_›)⟩
  · exact ⟨u, v, [], _, rfl, outer, done, heads, .header (.variableName (.declaration free) ‹_›)⟩
  · exact close_spells ‹_› outer done ‹_›
  · exact startStatement_spells outer done heads accepted

theorem feedParameter_spells {name keyword opened : Token} {params : Array Token} {p : List Token}
    (outer : OuterSpells rules s.outer u)
    (done : Forms rules (.declarations (inBody s.outer) s.layer.done.toList) v)
    (free : s.layer.holes = []) (fn : keyword.kind = .kwFun) (named : name.kind = .identifier)
    (opens : opened.kind = .leftParen) (due : NamesDue params.toList p)
    (accepted : (s.feedParameter name params t).Accepted rules) :
    (s.feedParameter name params t).Spells rules
      (u ++ (v ++ ((keyword :: name :: opened :: p) ++ [t]))) := by
  have heads : HolesSpell rules (inBody s.outer) s.layer.holes [] := by rw [free]; exact .nil
  unfold feedParameter at accepted ⊢
  split at accepted
  · rename_i ends
    rw [if_pos ends]
    simp only [Bool.and_eq_true, Array.isEmpty_iff, Token.is_eq_true] at ends
    obtain ⟨rfl, kind⟩ := ends
    have empty : p = [] := by
      cases due with
      | first => rfl
      | next listed _ => exact absurd rfl (names_ne_nil listed)
    refine ⟨u, v, [], _, ?_, outer, done, heads,
      .header (.bodyBrace free fn named opens .empty kind)⟩
    simp [empty]
  · rename_i goes
    rw [if_neg goes]
    have named' : t.is .identifier = true := by
      by_cases identifier : t.is .identifier = true
      · exact identifier
      · simp only [if_neg identifier] at accepted
        exact absurd accepted (not_accepted_fail rfl)
    simp only [if_pos named'] at accepted ⊢
    have counts : rules.Counts (params.size + 1) := by
      by_cases many : maxArguments ≤ params.size
      · rw [if_pos many] at accepted
        exact .inr (accepted (.atToken t .tooManyParameters) (by simp [report, expectHeader]))
      · simp only [maxArguments] at many
        exact .inl (by omega)
    have listed : Names (params.push t).toList (p ++ [t]) := by
      have identifier := Token.is_eq_true.mp named'
      rw [Array.toList_push]
      revert due
      generalize params.toList = names
      intro due
      cases due with
      | first => exact .one identifier
      | next listed comma => simpa using listed.more comma identifier
    have header : HeaderSpells rules (inBody s.outer) s.layer.holes
        (.parameterEnd name (params.push t)) (keyword :: name :: opened :: (p ++ [t])) :=
      .parameterEnd free fn named opens listed (by simpa using counts)
    split <;> exact ⟨u, v, [], _, rfl, outer, done, heads, .header header⟩

theorem feedHeader_spells {due : Header} (outer : OuterSpells rules s.outer u)
    (done : Forms rules (.declarations (inBody s.outer) s.layer.done.toList) v)
    (heads : HolesSpell rules (inBody s.outer) s.layer.holes x)
    (header : HeaderSpells rules (inBody s.outer) s.layer.holes due y)
    (accepted : (s.feedHeader t due).Accepted rules) :
    (s.feedHeader t due).Spells rules (u ++ (v ++ (x ++ (y ++ [t])))) := by
  have noHeads (free : s.layer.holes = []) : x = [] := by
    rw [free] at heads
    cases heads
    rfl
  cases header with
  | functionName free fn =>
    simp only [feedHeader] at accepted ⊢
    split at accepted
    · rename_i kind
      rw [if_pos kind]
      exact ⟨u, v, x, _, rfl, outer, done, heads,
        .header (.functionParen free fn (Token.is_eq_true.mp kind))⟩
    · exact absurd accepted (not_accepted_fail rfl)
  | functionParen free fn named =>
    simp only [feedHeader] at accepted ⊢
    split at accepted
    · rename_i kind
      rw [if_pos kind]
      exact ⟨u, v, x, _, rfl, outer, done, heads,
        .header (.parameter free fn named (Token.is_eq_true.mp kind) .first)⟩
    · exact absurd accepted (not_accepted_fail rfl)
  | parameter free fn named opens due =>
    rw [noHeads free]
    exact feedParameter_spells outer done free fn named opens due accepted
  | parameterEnd free fn named opens listed counts =>
    simp only [feedHeader] at accepted ⊢
    split at accepted
    · rename_i kind
      rw [if_pos kind]
      exact ⟨u, v, x, _, rfl, outer, done, heads,
        .header (.parameter free fn named opens (.next listed (Token.is_eq_true.mp kind)))⟩
    · rename_i notComma
      rw [if_neg notComma]
      split at accepted
      · rename_i kind
        rw [if_pos kind]
        exact ⟨u, v, x, _, rfl, outer, done, heads,
          .header (.bodyBrace free fn named opens (.listed listed counts)
            (Token.is_eq_true.mp kind))⟩
      · exact absurd accepted (not_accepted_fail rfl)
  | bodyBrace free fn named opens listed ends =>
    simp only [feedHeader] at accepted ⊢
    split at accepted
    · rename_i kind
      rw [if_pos kind]
      have opener := OpenerSpells.body fn named opens listed ends (Token.is_eq_true.mp kind)
      refine ⟨_, [], [], [], ?_, .cons outer done heads opener fun _ => free, .empty, .nil,
        .declaration rfl⟩
      simp
    · exact absurd accepted (not_accepted_fail rfl)
  | variableName site var =>
    simp only [feedHeader] at accepted ⊢
    split at accepted
    · rename_i kind
      rw [if_pos kind]
      refine ⟨u, v, x, _, ?_, outer, done, heads,
        .header (.variableEnd site var (Token.is_eq_true.mp kind))⟩
      simp
    · exact absurd accepted (not_accepted_fail rfl)
  | @variableEnd keyword name site l place var named =>
    simp only [feedHeader] at accepted ⊢
    split at accepted
    · rename_i kind
      rw [if_pos kind]
      refine ⟨u, v, x, _, ?_, outer, done, heads,
        .value (.variableValue place var named (Token.is_eq_true.mp kind)) .empty⟩
      simp
    · rename_i notEqual
      rw [if_neg notEqual]
      split at accepted
      · rename_i kind
        rw [if_pos kind]
        have declares : Variable rules (.varDecl name none) [keyword, name, t] :=
          .bare var named (Token.is_eq_true.mp kind)
        cases place with
        | declaration free =>
          rw [noHeads free]
          exact complete_declaration outer done free (.declared declares)
        | forClause loop opens =>
          refine ⟨u, v, x, _, ?_, outer, done, heads,
            .header (.forCondition loop opens (.declared declares))⟩
          simp
      · exact absurd accepted (not_accepted_fail rfl)
  | @returnValue keyword place kind =>
    simp only [feedHeader] at accepted ⊢
    split at accepted
    · rename_i ends
      rw [if_pos ends]
      exact complete_spells outer done heads (.ret place kind .absent (Token.is_eq_true.mp ends))
    · rename_i goes
      rw [if_neg goes]
      exact feedValue_spells outer done heads (.returned (.returnValue place kind)) .empty accepted
  | ifParen kind =>
    simp only [feedHeader] at accepted ⊢
    split at accepted
    · rename_i opens
      rw [if_pos opens]
      refine ⟨u, v, x, _, ?_, outer, done, heads,
        .value (.ifCondition kind (Token.is_eq_true.mp opens)) .empty⟩
      simp
    · exact absurd accepted (not_accepted_fail rfl)
  | whileParen kind =>
    simp only [feedHeader] at accepted ⊢
    split at accepted
    · rename_i opens
      rw [if_pos opens]
      refine ⟨u, v, x, _, ?_, outer, done, heads,
        .value (.whileCondition kind (Token.is_eq_true.mp opens)) .empty⟩
      simp
    · exact absurd accepted (not_accepted_fail rfl)
  | forParen kind =>
    simp only [feedHeader] at accepted ⊢
    split at accepted
    · rename_i opens
      rw [if_pos opens]
      exact ⟨u, v, x, _, rfl, outer, done, heads,
        .header (.forInitial kind (Token.is_eq_true.mp opens))⟩
    · exact absurd accepted (not_accepted_fail rfl)
  | forInitial loop opens =>
    simp only [feedHeader] at accepted ⊢
    split at accepted
    · rename_i kind
      rw [if_pos kind]
      exact ⟨u, v, x, _, rfl, outer, done, heads,
        .header (.forCondition loop opens (.absent (Token.is_eq_true.mp kind)))⟩
    · rename_i notEnd
      rw [if_neg notEnd]
      split at accepted
      · rename_i kind
        rw [if_pos kind]
        exact ⟨u, v, x, _, rfl, outer, done, heads,
          .header (.variableName (.forClause loop opens) (Token.is_eq_true.mp kind))⟩
      · rename_i notVar
        rw [if_neg notVar]
        exact feedValue_spells outer done heads (.forInitial loop opens) .empty accepted
  | forCondition loop opens first =>
    simp only [feedHeader] at accepted ⊢
    split at accepted
    · rename_i kind
      rw [if_pos kind]
      refine ⟨u, v, x, _, ?_, outer, done, heads,
        .header (.forIncrement loop opens first .absent (Token.is_eq_true.mp kind))⟩
      simp
    · rename_i notEnd
      rw [if_neg notEnd]
      exact feedValue_spells outer done heads (.forCondition (.forCondition loop opens first))
        .empty accepted
  | forIncrement loop opens first second between =>
    simp only [feedHeader] at accepted ⊢
    split at accepted
    · rename_i kind
      rw [if_pos kind]
      refine ⟨u, v, _, [], ?_, outer, done, .cons heads
        (.forBody loop opens first second between .absent (Token.is_eq_true.mp kind)), .statement⟩
      simp
    · rename_i notEnd
      rw [if_neg notEnd]
      exact feedValue_spells outer done heads
        (.forIncrement (.forIncrement loop opens first second between)) .empty accepted

theorem feed_spells {w : List Token} (spells : s.Spells rules w)
    (accepted : (s.feed t).Accepted rules) : (s.feed t).Spells rules (w ++ [t]) := by
  obtain ⟨layer, outer, mode, errors⟩ := s
  obtain ⟨u, v, x, y, rfl, around, done, heads, spelled⟩ := spells
  have assoc : u ++ (v ++ (x ++ y)) ++ [t] = u ++ (v ++ (x ++ (y ++ [t]))) := by simp
  rw [assoc]
  cases spelled with
  | declaration free =>
    have empty : x = [] := by
      change layer.holes = [] at free
      rw [free] at heads
      cases heads
      rfl
    rw [empty]
    exact startDeclaration_spells around done free accepted
  | statement => exact startStatement_spells around done heads accepted
  | @afterThen condition z v' w' head body =>
    simp only [feed] at accepted ⊢
    split at accepted
    · rename_i otherwise
      rw [if_pos otherwise]
      cases head with
      | thenBranch kind opens test ends =>
        refine ⟨u, v, _, [], ?_, around, done, .cons heads
          (.elseBranch kind opens test ends body (Token.is_eq_true.mp otherwise)), .statement⟩
        simp
    · rename_i notElse
      rw [if_neg notElse]
      have all := completeAll_spells (s := ⟨layer, outer, _, errors⟩) around done heads
        (then_fill head body)
      obtain ⟨u₁, v₁, x₁, y₁, split, around₁, done₁, heads₁, mode₁⟩ := all
      cases mode₁
      cases heads₁
      have next := startDeclaration_spells around₁ done₁ rfl accepted
      simp only [List.append_nil] at split
      have same : u ++ (v ++ (x ++ (v' ++ w' ++ [t]))) = u₁ ++ (v₁ ++ [t]) := by
        rw [← List.append_assoc u₁, ← split]
        simp
      rw [same]
      exact next
  | header header => exact feedHeader_spells around done heads header accepted
  | @value goal read g r lead spells =>
    have next := feedValue_spells around done heads lead spells accepted
    simpa [feed] using next

end State

end Treewalk.Parse
