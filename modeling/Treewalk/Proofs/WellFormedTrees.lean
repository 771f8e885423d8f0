import Mathlib.Logic.Relation
import Treewalk.Proofs.Code
import Treewalk.Proofs.RecoveredTrees

namespace Treewalk

open Grammar (Tier Shape shape?)
open Token (Kind)

def binaryKinds : List Kind :=
  [.star, .slash, .plus, .minus, .greater, .greaterEqual, .less, .lessEqual, .equalEqual,
    .bangEqual]

namespace Expr

def tier : Expr → Tier
  | constant _ | group _ | var _ => .primary
  | call _ _ _ => .call
  | unary _ _ => .unary
  | binary _ op _ | logical _ op _ => ((shape? op.kind).map Shape.tier).getD .expression
  | assign _ _ => .expression

def AtLeast (tier : Tier) (e : Expr) : Prop := tier.rank ≤ e.tier.rank

def Fit (op : Kind) (a b : Expr) : Prop :=
  ∃ shape, shape? op = some shape ∧ a.AtLeast shape.left ∧ b.AtLeast shape.right

def Sound : Expr → Prop
  | constant _ | group _ => True
  | var name | assign name _ => name.kind = .identifier
  | unary op e => (op.kind = .bang ∨ op.kind = .minus) ∧ e.AtLeast .unary
  | binary a op b => op.kind ∈ binaryKinds ∧ Fit op.kind a b
  | logical a op b => (op.kind = .kwAnd ∨ op.kind = .kwOr) ∧ Fit op.kind a b
  | call f paren _ => paren.kind = .rightParen ∧ f.AtLeast .call

def operands : Expr → List Expr
  | unary _ e => [e]
  | binary a _ b | logical a _ b => [a, b]
  | call f _ _ => [f]
  | constant _ | group _ | var _ | assign _ _ => []

end Expr

def Stmt.Sound : Stmt → Prop
  | expression _ | block _ | ifElse _ _ _ | whileLoop _ _ => True
  | print keyword _ => keyword.kind = .kwPrint
  | varDecl name _ => name.kind = .identifier
  | funDecl name params _ => name.kind = .identifier ∧ ∀ p ∈ params, p.kind = .identifier
  | ret keyword _ => keyword.kind = .kwReturn

namespace Code

def Sound : Code → Prop
  | expr e => e.Sound
  | stmt s => s.Sound
  | exprs _ | stmts _ => True

/-- What stands directly below a node, in the same scope or in one of its own. -/
inductive Below : Code → Code → Prop
  | part {c c' : Code} : c.Part c' → Below c c'
  | block {ss : List Stmt} : Below (.stmt (.block ss)) (.stmts ss)
  | body {name : Token} {params : List Token} {ss : List Stmt} :
    Below (.stmt (.funDecl name params ss)) (.stmts ss)

def Within (c c' : Code) : Prop := Relation.ReflTransGen Below c c'

inductive WellFormed : Code → Prop
  | intro {c : Code} : c.Sound → (∀ c', c.Below c' → WellFormed c') → WellFormed c

namespace WellFormed

variable {c c' : Code} {e a b : Expr} {s r : Stmt} {ss : List Stmt}

theorem sound (tree : WellFormed c) : c.Sound := by
  cases tree with
  | intro sound _ => exact sound

theorem child (tree : WellFormed c) (below : c.Below c') : WellFormed c' := by
  cases tree with
  | intro _ rest => exact rest c' below

theorem part (tree : WellFormed c) (part : c.Part c') : WellFormed c' := tree.child (.part part)

theorem within (tree : WellFormed c) (within : c.Within c') : WellFormed c' := by
  induction within with
  | refl => exact tree
  | tail _ step ih => exact ih.child step

theorem stmts (all : ∀ s ∈ ss, WellFormed (.stmt s)) : WellFormed (.stmts ss) := by
  induction ss with
  | nil =>
    refine .intro trivial ?_
    rintro _ ⟨part⟩
    cases part
  | cons s ss ih =>
    refine .intro trivial ?_
    rintro _ ⟨part⟩
    cases part with
    | firstStmt => exact all s List.mem_cons_self
    | restStmts => exact ih fun r member => all r (List.mem_cons_of_mem _ member)

theorem exprs_append {es es' : List Expr} (first : WellFormed (.exprs es))
    (second : WellFormed (.exprs es')) : WellFormed (.exprs (es ++ es')) := by
  induction es with
  | nil => exact second
  | cons e es ih =>
    refine .intro trivial ?_
    rintro _ ⟨part⟩
    cases part with
    | firstExpr => exact first.part .firstExpr
    | restExprs => exact ih (first.part .restExprs)

theorem exprs_nil : WellFormed (.exprs []) := by
  refine .intro trivial ?_
  rintro _ ⟨part⟩
  cases part

theorem exprs_single (tree : WellFormed (.expr e)) : WellFormed (.exprs [e]) := by
  refine .intro trivial ?_
  rintro _ ⟨part⟩
  cases part with
  | firstExpr => exact tree
  | restExprs => exact exprs_nil

end WellFormed

end Code

open Code (WellFormed)

theorem Expr.AtLeast.loosen {loose tight : Tier} {e : Expr} (le : loose.rank ≤ tight.rank)
    (high : e.AtLeast tight) : e.AtLeast loose := Nat.le_trans le high

/-- An assignment binds more loosely than any operand may. -/
theorem Expr.Sound.operand_ne_assign {e o : Expr} (sound : e.Sound) (member : o ∈ e.operands)
    (name : Token) (value : Expr) : o ≠ .assign name value := by
  rintro rfl
  have loose {tier : Tier} (high : (Expr.assign name value).AtLeast tier) : tier.rank = 0 :=
    Nat.le_zero.mp high
  have sides {op : Kind} {shape : Shape} (row : shape? op = some shape) :
      shape.left.rank ≠ 0 ∧ shape.right.rank ≠ 0 := by
    cases op <;> cases row <;> decide
  have operator {op : Kind} {a b : Expr} (fit : Fit op a b) (member : .assign name value ∈ [a, b]) :
      False := by
    obtain ⟨shape, row, left, right⟩ := fit
    simp only [List.mem_cons, List.not_mem_nil, or_false] at member
    rcases member with rfl | rfl
    · exact (sides row).1 (loose left)
    · exact (sides row).2 (loose right)
  cases e with
  | unary op e =>
    cases List.mem_singleton.mp member
    exact absurd (loose sound.2) (by decide)
  | binary a op b => exact operator sound.2 member
  | logical a op b => exact operator sound.2 member
  | call f paren es =>
    cases List.mem_singleton.mp member
    exact absurd (loose sound.2) (by decide)
  | _ => cases member

theorem atom_wellFormed {t : Token} {e : Expr} (atom : Grammar.Atom t e) :
    WellFormed (.expr e) ∧ e.AtLeast .primary := by
  have leaf (e : Expr) (sound : e.Sound) (bare : ∀ c, ¬ (Code.expr e).Part c) :
      WellFormed (.expr e) := by
    refine .intro sound ?_
    rintro _ ⟨part⟩
    exact absurd part (bare _)
  cases atom with
  | name kind => exact ⟨leaf _ kind (by rintro _ ⟨⟩), Nat.le_refl _⟩
  | _ => exact ⟨leaf _ trivial (by rintro _ ⟨⟩), Nat.le_refl _⟩

theorem node_wellFormed {op : Token} {shape : Shape} {a b : Expr}
    (row : shape? op.kind = some shape) (left : WellFormed (.expr a) ∧ a.AtLeast shape.left)
    (right : WellFormed (.expr b) ∧ b.AtLeast shape.right) :
    WellFormed (.expr (shape.node a op b)) ∧ (shape.node a op b).AtLeast shape.tier := by
  have fit : Expr.Fit op.kind a b := ⟨shape, row, left.2, right.2⟩
  have tier : ((shape? op.kind).map Shape.tier).getD .expression = shape.tier := by rw [row]; rfl
  have binary (among : op.kind ∈ binaryKinds) :
      WellFormed (.expr (.binary a op b)) ∧ (Expr.binary a op b).AtLeast shape.tier := by
    refine ⟨.intro ⟨among, fit⟩ ?_, by rw [Expr.AtLeast, Expr.tier, tier]⟩
    rintro _ ⟨part⟩
    cases part with
    | left => exact left.1
    | right => exact right.1
  have logical (among : op.kind = .kwAnd ∨ op.kind = .kwOr) :
      WellFormed (.expr (.logical a op b)) ∧ (Expr.logical a op b).AtLeast shape.tier := by
    refine ⟨.intro ⟨among, fit⟩ ?_, by rw [Expr.AtLeast, Expr.tier, tier]⟩
    rintro _ ⟨part⟩
    cases part with
    | first => exact left.1
    | second => exact right.1
  cases kind : op.kind <;> rw [kind] at row binary logical <;> cases row <;>
    first | exact binary (by decide) | exact logical (by decide)

open Grammar

def Grammar.Phrase.WellFormed : Phrase → Prop
  | .expr tier e => Code.WellFormed (.expr e) ∧ e.AtLeast tier
  | .args es => Code.WellFormed (.exprs es)

theorem derives_wellFormed {rules : Rules} {phrase : Phrase} {w : List Token}
    (derives : Derives rules phrase w) : phrase.WellFormed := by
  induction derives with
  | atom atom => exact atom_wellFormed atom
  | group _ _ _ inner =>
    refine ⟨.intro trivial ?_, Nat.le_refl _⟩
    rintro _ ⟨part⟩
    cases part with
    | group => exact inner.1
  | emptyCall _ _ right callee =>
    refine ⟨.intro ⟨right, callee.2⟩ ?_, Nat.le_refl _⟩
    rintro _ ⟨part⟩
    cases part with
    | callee => exact callee.1
    | args => exact .exprs_nil
  | call _ _ _ right _ callee args =>
    refine ⟨.intro ⟨right, callee.2⟩ ?_, Nat.le_refl _⟩
    rintro _ ⟨part⟩
    cases part with
    | callee => exact callee.1
    | args => exact args
  | unary kind _ inner =>
    refine ⟨.intro ⟨kind, inner.2⟩ ?_, Nat.le_refl _⟩
    rintro _ ⟨part⟩
    cases part with
    | operand => exact inner.1
  | twoSided row _ _ left right => exact node_wellFormed row left right
  | assign kind _ _ value =>
    refine ⟨.intro kind ?_, Nat.le_refl _⟩
    rintro _ ⟨part⟩
    cases part with
    | assigned => exact value.1
  | waivedTarget _ _ _ _ _ target _ => exact ⟨target.1, Nat.zero_le _⟩
  | tighter le _ inner => exact ⟨inner.1, inner.2.loosen le⟩
  | oneArg _ inner => exact .exprs_single inner.1
  | moreArgs _ _ _ args inner => exact args.exprs_append (.exprs_single inner.1)

section Statements

variable {rules : Rules} {e c : Expr} {s : Stmt} {ss : List Stmt} {w : List Token}

theorem expression_wellFormed (value : WellFormed (.expr e)) :
    WellFormed (.stmt (.expression e)) := by
  refine .intro trivial ?_
  rintro _ ⟨part⟩
  cases part with
  | evaluated => exact value

theorem block_wellFormed (body : WellFormed (.stmts ss)) : WellFormed (.stmt (.block ss)) := by
  refine .intro trivial ?_
  rintro _ (part | _)
  · cases part
  · exact body

theorem whileLoop_wellFormed (condition : WellFormed (.expr c)) (body : WellFormed (.stmt s)) :
    WellFormed (.stmt (.whileLoop c s)) := by
  refine .intro trivial ?_
  rintro _ ⟨part⟩
  cases part with
  | test => exact condition
  | body => exact body

theorem pair_wellFormed {s' : Stmt} (first : WellFormed (.stmt s)) (second : WellFormed (.stmt s')) :
    WellFormed (.stmt (.block [s, s'])) := by
  refine block_wellFormed (.stmts ?_)
  intro r member
  simp only [List.mem_cons, List.not_mem_nil, or_false] at member
  rcases member with rfl | rfl
  · exact first
  · exact second

theorem forLoop_wellFormed {initial : Option Stmt} {increment : Option Expr}
    (first : ∀ r ∈ initial, WellFormed (.stmt r)) (condition : WellFormed (.expr c))
    (last : ∀ e ∈ increment, WellFormed (.expr e)) (body : WellFormed (.stmt s)) :
    WellFormed (.stmt (Parse.forLoop initial c increment s)) := by
  have wrapped {turn : Stmt} (body : WellFormed (.stmt turn)) :
      WellFormed (.stmt (Parse.forLoop initial c none turn)) := by
    have loop := whileLoop_wellFormed condition body
    cases initial with
    | none => exact loop
    | some r => exact pair_wellFormed (first r rfl) loop
  cases increment with
  | none => exact wrapped body
  | some e => exact wrapped (pair_wellFormed body (expression_wellFormed (last e rfl)))

theorem variable_wellFormed (declares : Variable rules s w) : WellFormed (.stmt s) := by
  cases declares with
  | bare _ named _ =>
    refine .intro named ?_
    rintro _ ⟨part⟩
    cases part
  | set _ named _ value _ =>
    refine .intro named ?_
    rintro _ ⟨part⟩
    cases part with
    | initial => exact (derives_wellFormed value).1

theorem initial_wellFormed {initial : Option Stmt} (first : Initial rules initial w) :
    ∀ r ∈ initial, WellFormed (.stmt r) := by
  intro r member
  cases first with
  | absent _ => cases member
  | declared declares =>
    cases member
    exact variable_wellFormed declares
  | expression value _ =>
    cases member
    exact expression_wellFormed (derives_wellFormed value).1

theorem optional_wellFormed {value : Option Expr} (given : Optional rules value w) :
    ∀ e ∈ value, WellFormed (.expr e) := by
  intro e member
  cases given with
  | absent => cases member
  | present derives =>
    cases member
    exact (derives_wellFormed derives).1

theorem constant_wellFormed (k : Constant) : WellFormed (.expr (.constant k)) := by
  refine .intro trivial ?_
  rintro _ ⟨part⟩
  cases part

theorem names_identifiers {names : List Token} (listed : Names names w) :
    ∀ p ∈ names, p.kind = .identifier := by
  induction listed with
  | one kind =>
    intro p member
    rwa [List.mem_singleton.mp member]
  | more _ _ kind ih =>
    intro p member
    rcases List.mem_append.mp member with member | member
    · exact ih p member
    · rwa [List.mem_singleton.mp member]

theorem params_identifiers {params : List Token} (listed : Params rules params w) :
    ∀ p ∈ params, p.kind = .identifier := by
  cases listed with
  | empty => exact fun p member => absurd member List.not_mem_nil
  | listed names _ => exact names_identifiers names

theorem ifElse_wellFormed {other : Option Stmt} (condition : WellFormed (.expr c))
    (first : WellFormed (.stmt s)) (second : ∀ r ∈ other, WellFormed (.stmt r)) :
    WellFormed (.stmt (.ifElse c s other)) := by
  refine .intro trivial ?_
  rintro _ ⟨part⟩
  cases part with
  | condition => exact condition
  | thenBranch => exact first
  | elseBranch => exact second _ rfl

def Grammar.Clause.WellFormed : Clause → Prop
  | .statement _ _ s | .declaration _ s => Code.WellFormed (.stmt s)
  | .declarations _ ss => ∀ s ∈ ss, Code.WellFormed (.stmt s)

theorem forms_wellFormed {clause : Clause} (forms : Forms rules clause w) : clause.WellFormed := by
  induction forms with
  | expression value _ => exact expression_wellFormed (derives_wellFormed value).1
  | print kind value _ =>
    refine .intro kind ?_
    rintro _ ⟨part⟩
    cases part with
    | printed => exact (derives_wellFormed value).1
  | ret _ kind value _ =>
    refine .intro kind ?_
    rintro _ ⟨part⟩
    cases part with
    | returned => exact optional_wellFormed value _ rfl
  | block _ _ _ body => exact block_wellFormed (.stmts body)
  | whileLoop _ _ condition _ _ body =>
    exact whileLoop_wellFormed (derives_wellFormed condition).1 body
  | @forLoop _ _ _ _ _ _ _ _ _ _ _ condition _ _ _ _ first second _ third _ _ body =>
    have test : WellFormed (.expr (condition.getD (.constant (.bool true)))) := by
      cases condition with
      | none => exact constant_wellFormed _
      | some e => exact optional_wellFormed second e rfl
    exact forLoop_wellFormed (initial_wellFormed first) test (optional_wellFormed third) body
  | ifThen _ _ condition _ _ body =>
    exact ifElse_wellFormed (derives_wellFormed condition).1 body
      fun r never => absurd never (Option.not_mem_none r)
  | ifElse _ _ condition _ _ _ _ first second =>
    refine ifElse_wellFormed (derives_wellFormed condition).1 first ?_
    rintro _ ⟨⟩
    exact second
  | function _ named _ listed _ _ _ _ body =>
    refine .intro ⟨named, params_identifiers listed⟩ ?_
    rintro _ (part | _)
    · cases part
    · exact .stmts body
  | declared declares => exact variable_wellFormed declares
  | statement _ body => exact body
  | empty => exact fun s member => absurd member List.not_mem_nil
  | more _ _ before last =>
    intro s member
    rcases List.mem_append.mp member with member | member
    · exact before s member
    · rw [List.mem_singleton.mp member]
      exact last

end Statements

theorem parse_wellFormed (tokens : List Token) : WellFormed (.stmts (parse tokens).statements) := by
  obtain ⟨w, -, program⟩ := Parse.recovered_program tokens
  exact .stmts (forms_wellFormed program)

end Treewalk
