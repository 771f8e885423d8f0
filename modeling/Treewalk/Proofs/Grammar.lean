import Treewalk.Parse.Statement

namespace Treewalk.Grammar

open Token (Kind)

/-- Rules that a reader may waive: what stands before `=`, how many arguments or parameters there
are, and where `return` stands. -/
structure Rules where
  anyTarget : Bool := false
  anyCount : Bool := false
  anyReturn : Bool := false
deriving DecidableEq, Repr, Inhabited

namespace Rules

def strict : Rules := {}

def waives (rules : Rules) : Problem → Bool
  | .assignmentTarget => rules.anyTarget
  | .tooManyArguments | .tooManyParameters => rules.anyCount
  | .topLevelReturn => rules.anyReturn
  | _ => false

def Counts (rules : Rules) (n : Nat) : Prop := n ≤ 255 ∨ rules.anyCount = true

end Rules

inductive Tier
  | expression
  | disjunction
  | conjunction
  | equality
  | comparison
  | term
  | factor
  | unary
  | call
  | primary
deriving DecidableEq, Repr, Inhabited

def Tier.rank : Tier → Nat
  | expression => 0
  | disjunction => 1
  | conjunction => 2
  | equality => 3
  | comparison => 4
  | term => 5
  | factor => 6
  | unary => 7
  | call => 8
  | primary => 9

structure Shape where
  tier : Tier
  left : Tier
  right : Tier
  node : Expr → Token → Expr → Expr

/-- Only comparisons take their own tier on the right. -/
def shape? : Kind → Option Shape
  | .kwOr => some ⟨.disjunction, .disjunction, .conjunction, .logical⟩
  | .kwAnd => some ⟨.conjunction, .conjunction, .equality, .logical⟩
  | .bangEqual | .equalEqual => some ⟨.equality, .equality, .comparison, .binary⟩
  | .greater | .greaterEqual | .less | .lessEqual => some ⟨.comparison, .term, .comparison, .binary⟩
  | .minus | .plus => some ⟨.term, .term, .factor, .binary⟩
  | .slash | .star => some ⟨.factor, .factor, .unary, .binary⟩
  | _ => none

/-- Expressions of one token. A number or string token needs a literal, of either kind. -/
inductive Atom : Token → Expr → Prop
  | no {t : Token} : t.kind = .kwFalse → Atom t (.constant (.bool false))
  | yes {t : Token} : t.kind = .kwTrue → Atom t (.constant (.bool true))
  | nil {t : Token} : t.kind = .kwNil → Atom t (.constant .nil)
  | number {t : Token} {x : Float} :
    t.kind = .number ∨ t.kind = .string → t.literal = some (.number x) →
    Atom t (.constant (.number x))
  | string {t : Token} {s : String} :
    t.kind = .number ∨ t.kind = .string → t.literal = some (.string s) →
    Atom t (.constant (.string s))
  | name {t : Token} : t.kind = .identifier → Atom t (.var t)

inductive Phrase
  | expr (tier : Tier) (e : Expr)
  | args (es : List Expr)

inductive Derives (rules : Rules) : Phrase → List Token → Prop
  | atom {t : Token} {e : Expr} : Atom t e → Derives rules (.expr .primary e) [t]
  | group {opened closed : Token} {w : List Token} {e : Expr} :
    opened.kind = .leftParen → Derives rules (.expr .expression e) w → closed.kind = .rightParen →
    Derives rules (.expr .primary (.group e)) (opened :: (w ++ [closed]))
  | emptyCall {opened closed : Token} {v : List Token} {f : Expr} :
    Derives rules (.expr .call f) v → opened.kind = .leftParen → closed.kind = .rightParen →
    Derives rules (.expr .call (.call f closed [])) (v ++ [opened, closed])
  | call {opened closed : Token} {v w : List Token} {f : Expr} {es : List Expr} :
    Derives rules (.expr .call f) v → opened.kind = .leftParen → Derives rules (.args es) w →
    closed.kind = .rightParen → rules.Counts es.length →
    Derives rules (.expr .call (.call f closed es)) (v ++ opened :: (w ++ [closed]))
  | unary {op : Token} {w : List Token} {e : Expr} :
    op.kind = .bang ∨ op.kind = .minus → Derives rules (.expr .unary e) w →
    Derives rules (.expr .unary (.unary op e)) (op :: w)
  | twoSided {op : Token} {shape : Shape} {v w : List Token} {a b : Expr} :
    shape? op.kind = some shape → Derives rules (.expr shape.left a) v →
    Derives rules (.expr shape.right b) w →
    Derives rules (.expr shape.tier (shape.node a op b)) (v ++ op :: w)
  | assign {name equals : Token} {w : List Token} {e : Expr} :
    name.kind = .identifier → equals.kind = .equal → Derives rules (.expr .expression e) w →
    Derives rules (.expr .expression (.assign name e)) (name :: equals :: w)
  /-- The value given to something that is no variable is dropped. -/
  | waivedTarget {equals : Token} {v w : List Token} {target e : Expr} :
    rules.anyTarget = true → (∀ name, target ≠ .var name) →
    Derives rules (.expr .disjunction target) v → equals.kind = .equal →
    Derives rules (.expr .expression e) w →
    Derives rules (.expr .expression target) (v ++ equals :: w)
  | tighter {loose tight : Tier} {w : List Token} {e : Expr} :
    loose.rank ≤ tight.rank → Derives rules (.expr tight e) w → Derives rules (.expr loose e) w
  | oneArg {w : List Token} {e : Expr} :
    Derives rules (.expr .expression e) w → Derives rules (.args [e]) w
  | moreArgs {comma : Token} {v w : List Token} {es : List Expr} {e : Expr} :
    Derives rules (.args es) v → comma.kind = .comma → Derives rules (.expr .expression e) w →
    Derives rules (.args (es ++ [e])) (v ++ comma :: w)

inductive Optional (rules : Rules) : Option Expr → List Token → Prop
  | absent : Optional rules none []
  | present {w : List Token} {e : Expr} :
    Derives rules (.expr .expression e) w → Optional rules (some e) w

inductive Names : List Token → List Token → Prop
  | one {name : Token} : name.kind = .identifier → Names [name] [name]
  | more {comma name : Token} {names w : List Token} :
    Names names w → comma.kind = .comma → name.kind = .identifier →
    Names (names ++ [name]) (w ++ [comma, name])

inductive Params (rules : Rules) : List Token → List Token → Prop
  | empty : Params rules [] []
  | listed {names w : List Token} :
    Names names w → rules.Counts names.length → Params rules names w

inductive Variable (rules : Rules) : Stmt → List Token → Prop
  | bare {keyword name semicolon : Token} :
    keyword.kind = .kwVar → name.kind = .identifier → semicolon.kind = .semicolon →
    Variable rules (.varDecl name none) [keyword, name, semicolon]
  | set {keyword name equals semicolon : Token} {w : List Token} {e : Expr} :
    keyword.kind = .kwVar → name.kind = .identifier → equals.kind = .equal →
    Derives rules (.expr .expression e) w → semicolon.kind = .semicolon →
    Variable rules (.varDecl name (some e)) (keyword :: name :: equals :: (w ++ [semicolon]))

inductive Initial (rules : Rules) : Option Stmt → List Token → Prop
  | absent {semicolon : Token} : semicolon.kind = .semicolon → Initial rules none [semicolon]
  | declared {s : Stmt} {w : List Token} : Variable rules s w → Initial rules (some s) w
  | expression {semicolon : Token} {w : List Token} {e : Expr} :
    Derives rules (.expr .expression e) w → semicolon.kind = .semicolon →
    Initial rules (some (.expression e)) (w ++ [semicolon])

/-- What a statement token list can be read as. A statement is `dangling` when an `else` after it
would be its own. `inside` says whether a function is around it. -/
inductive Clause
  | statement (inside dangling : Bool) (s : Stmt)
  | declaration (inside : Bool) (s : Stmt)
  | declarations (inside : Bool) (ss : List Stmt)

inductive Forms (rules : Rules) : Clause → List Token → Prop
  | expression {inside : Bool} {semicolon : Token} {w : List Token} {e : Expr} :
    Derives rules (.expr .expression e) w → semicolon.kind = .semicolon →
    Forms rules (.statement inside false (.expression e)) (w ++ [semicolon])
  | print {inside : Bool} {keyword semicolon : Token} {w : List Token} {e : Expr} :
    keyword.kind = .kwPrint → Derives rules (.expr .expression e) w → semicolon.kind = .semicolon →
    Forms rules (.statement inside false (.print keyword e)) (keyword :: (w ++ [semicolon]))
  | ret {inside : Bool} {keyword semicolon : Token} {w : List Token} {e : Option Expr} :
    inside = true ∨ rules.anyReturn = true → keyword.kind = .kwReturn → Optional rules e w →
    semicolon.kind = .semicolon →
    Forms rules (.statement inside false (.ret keyword e)) (keyword :: (w ++ [semicolon]))
  | block {inside : Bool} {opened closed : Token} {w : List Token} {ss : List Stmt} :
    opened.kind = .leftBrace → Forms rules (.declarations inside ss) w →
    closed.kind = .rightBrace →
    Forms rules (.statement inside false (.block ss)) (opened :: (w ++ [closed]))
  | whileLoop {inside dangling : Bool} {keyword opened closed : Token} {c w : List Token}
      {condition : Expr} {s : Stmt} :
    keyword.kind = .kwWhile → opened.kind = .leftParen →
    Derives rules (.expr .expression condition) c → closed.kind = .rightParen →
    Forms rules (.statement inside dangling s) w →
    Forms rules (.statement inside dangling (.whileLoop condition s))
      (keyword :: opened :: (c ++ closed :: w))
  | forLoop {inside dangling : Bool} {keyword opened semicolon closed : Token}
      {i c n w : List Token} {initial : Option Stmt} {condition increment : Option Expr}
      {s : Stmt} :
    keyword.kind = .kwFor → opened.kind = .leftParen → Initial rules initial i →
    Optional rules condition c → semicolon.kind = .semicolon → Optional rules increment n →
    closed.kind = .rightParen → Forms rules (.statement inside dangling s) w →
    Forms rules (.statement inside dangling
        (Parse.forLoop initial (condition.getD (.constant (.bool true))) increment s))
      (keyword :: opened :: (i ++ (c ++ semicolon :: (n ++ closed :: w))))
  | ifThen {inside dangling : Bool} {keyword opened closed : Token} {c w : List Token}
      {condition : Expr} {s : Stmt} :
    keyword.kind = .kwIf → opened.kind = .leftParen →
    Derives rules (.expr .expression condition) c → closed.kind = .rightParen →
    Forms rules (.statement inside dangling s) w →
    Forms rules (.statement inside true (.ifElse condition s none))
      (keyword :: opened :: (c ++ closed :: w))
  | ifElse {inside dangling : Bool} {keyword opened closed other : Token} {c v w : List Token}
      {condition : Expr} {s s' : Stmt} :
    keyword.kind = .kwIf → opened.kind = .leftParen →
    Derives rules (.expr .expression condition) c → closed.kind = .rightParen →
    Forms rules (.statement inside false s) v → other.kind = .kwElse →
    Forms rules (.statement inside dangling s') w →
    Forms rules (.statement inside dangling (.ifElse condition s (some s')))
      (keyword :: opened :: (c ++ closed :: (v ++ other :: w)))
  | function {inside : Bool} {keyword name opened closed entered left : Token}
      {p w params : List Token} {ss : List Stmt} :
    keyword.kind = .kwFun → name.kind = .identifier → opened.kind = .leftParen →
    Params rules params p → closed.kind = .rightParen → entered.kind = .leftBrace →
    Forms rules (.declarations true ss) w → left.kind = .rightBrace →
    Forms rules (.declaration inside (.funDecl name params ss))
      (keyword :: name :: opened :: (p ++ closed :: entered :: (w ++ [left])))
  | declared {inside : Bool} {s : Stmt} {w : List Token} :
    Variable rules s w → Forms rules (.declaration inside s) w
  | statement {inside dangling : Bool} {s : Stmt} {w : List Token} :
    Forms rules (.statement inside dangling s) w → Forms rules (.declaration inside s) w
  | empty {inside : Bool} : Forms rules (.declarations inside []) []
  | more {inside : Bool} {s : Stmt} {ss : List Stmt} {v w : List Token} :
    Forms rules (.declarations inside ss) v → Forms rules (.declaration inside s) w →
    Forms rules (.declarations inside (ss ++ [s])) (v ++ w)

def Program (rules : Rules) (p : List Stmt) (w : List Token) : Prop :=
  Forms rules (.declarations false p) w

end Treewalk.Grammar
