import Treewalk.Proofs.ErrorTokens
import Treewalk.Proofs.Placement

namespace Treewalk

open Token (Kind)

structure Place where
  line : Nat
  span : Span
deriving DecidableEq

def Token.place (t : Token) : Place := ⟨t.line, t.span⟩

def Token.relaid (g : Place → Place) (t : Token) : Token :=
  { t with line := (g t.place).line, span := (g t.place).span }

def SyntaxError.place (e : SyntaxError) : Place := ⟨e.line, e.span⟩

def SyntaxError.relaid (g : Place → Place) (e : SyntaxError) : SyntaxError :=
  { e with line := (g e.place).line, span := (g e.place).span }

mutual

def Expr.relaid (g : Place → Place) : Expr → Expr
  | .constant c => .constant c
  | .group e => .group (e.relaid g)
  | .unary op e => .unary (op.relaid g) (e.relaid g)
  | .binary left op right => .binary (left.relaid g) (op.relaid g) (right.relaid g)
  | .logical left op right => .logical (left.relaid g) (op.relaid g) (right.relaid g)
  | .var name => .var (name.relaid g)
  | .assign name e => .assign (name.relaid g) (e.relaid g)
  | .call callee paren args => .call (callee.relaid g) (paren.relaid g) (Expr.relaidAll g args)

def Expr.relaidAll (g : Place → Place) : List Expr → List Expr
  | [] => []
  | e :: es => e.relaid g :: Expr.relaidAll g es

end

mutual

def Stmt.relaid (g : Place → Place) : Stmt → Stmt
  | .expression e => .expression (e.relaid g)
  | .print keyword e => .print (keyword.relaid g) (e.relaid g)
  | .varDecl name initial => .varDecl (name.relaid g) (initial.map (Expr.relaid g))
  | .block body => .block (Stmt.relaidAll g body)
  | .ifElse condition thenBranch none => .ifElse (condition.relaid g) (thenBranch.relaid g) none
  | .ifElse condition thenBranch (some elseBranch) =>
    .ifElse (condition.relaid g) (thenBranch.relaid g) (some (elseBranch.relaid g))
  | .whileLoop condition body => .whileLoop (condition.relaid g) (body.relaid g)
  | .funDecl name params body =>
    .funDecl (name.relaid g) (params.map (Token.relaid g)) (Stmt.relaidAll g body)
  | .ret keyword value => .ret (keyword.relaid g) (value.map (Expr.relaid g))

def Stmt.relaidAll (g : Place → Place) : List Stmt → List Stmt
  | [] => []
  | s :: ss => s.relaid g :: Stmt.relaidAll g ss

end

def Parsed.relaid (g : Place → Place) (p : Parsed) : Parsed :=
  { statements := p.statements.map (Stmt.relaid g), errors := p.errors.map (SyntaxError.relaid g) }

variable {g : Place → Place}

@[simp] theorem Expr.relaidAll_eq (es : List Expr) :
    Expr.relaidAll g es = es.map (Expr.relaid g) := by
  induction es with
  | nil => rfl
  | cons e es ih => rw [Expr.relaidAll, ih, List.map_cons]

@[simp] theorem Stmt.relaidAll_eq (ss : List Stmt) :
    Stmt.relaidAll g ss = ss.map (Stmt.relaid g) := by
  induction ss with
  | nil => rfl
  | cons s ss ih => rw [Stmt.relaidAll, ih, List.map_cons]

@[simp] theorem SyntaxError.relaid_atToken (t : Token) (problem : Problem) :
    (SyntaxError.atToken t problem).relaid g = .atToken (t.relaid g) problem := rfl

namespace Parse

def Pending.relaid (g : Place → Place) : Pending → Pending
  | .assign target equals => .assign (target.relaid g) (equals.relaid g)
  | .operator level left op => .operator level (left.relaid g) (op.relaid g)
  | .unary op => .unary (op.relaid g)
  | .group => .group
  | .call callee args => .call (callee.relaid g) (args.map (Expr.relaid g))

def OpenExpr.relaid (g : Place → Place) (read : OpenExpr) : OpenExpr :=
  { pending := read.pending.map (Pending.relaid g), operand := read.operand.map (Expr.relaid g) }

def Progress.relaid (g : Place → Place) : Progress → Progress
  | .more next => .more (next.relaid g)
  | .complete value => .complete (value.relaid g)
  | .stuck problem => .stuck problem

def Settled.relaid (g : Place → Place) (s : Settled) : Settled :=
  { pending := s.pending.map (Pending.relaid g)
    value := s.value.relaid g
    errors := s.errors.map (SyntaxError.relaid g) }

def Hole.relaid (g : Place → Place) : Hole → Hole
  | .thenBranch condition => .thenBranch (condition.relaid g)
  | .elseBranch condition first => .elseBranch (condition.relaid g) (first.relaid g)
  | .whileBody condition => .whileBody (condition.relaid g)
  | .forBody initial condition increment =>
    .forBody (initial.map (Stmt.relaid g)) (condition.relaid g) (increment.map (Expr.relaid g))

def Opener.relaid (g : Place → Place) : Opener → Opener
  | .block => .block
  | .body name params => .body (name.relaid g) (params.map (Token.relaid g))

def Layer.relaid (g : Place → Place) (l : Layer) : Layer :=
  { done := l.done.map (Stmt.relaid g), holes := l.holes.map (Hole.relaid g) }

def Header.relaid (g : Place → Place) : Header → Header
  | .functionName => .functionName
  | .functionParen name => .functionParen (name.relaid g)
  | .parameter name params => .parameter (name.relaid g) (params.map (Token.relaid g))
  | .parameterEnd name params => .parameterEnd (name.relaid g) (params.map (Token.relaid g))
  | .bodyBrace name params => .bodyBrace (name.relaid g) (params.map (Token.relaid g))
  | .variableName site => .variableName site
  | .variableEnd site name => .variableEnd site (name.relaid g)
  | .returnValue keyword => .returnValue (keyword.relaid g)
  | .ifParen => .ifParen
  | .whileParen => .whileParen
  | .forParen => .forParen
  | .forInitial => .forInitial
  | .forCondition initial => .forCondition (initial.map (Stmt.relaid g))
  | .forIncrement initial condition =>
    .forIncrement (initial.map (Stmt.relaid g)) (condition.relaid g)

def Goal.relaid (g : Place → Place) : Goal → Goal
  | .expression => .expression
  | .printed keyword => .printed (keyword.relaid g)
  | .variableValue site name => .variableValue site (name.relaid g)
  | .returned keyword => .returned (keyword.relaid g)
  | .ifCondition => .ifCondition
  | .whileCondition => .whileCondition
  | .forInitial => .forInitial
  | .forCondition initial => .forCondition (initial.map (Stmt.relaid g))
  | .forIncrement initial condition =>
    .forIncrement (initial.map (Stmt.relaid g)) (condition.relaid g)

def Mode.relaid (g : Place → Place) : Mode → Mode
  | .declaration => .declaration
  | .recovery => .recovery
  | .statement => .statement
  | .afterThen condition thenBranch => .afterThen (condition.relaid g) (thenBranch.relaid g)
  | .header due => .header (due.relaid g)
  | .value goal read => .value (goal.relaid g) (read.relaid g)

def Filled.relaid (g : Place → Place) : Filled → Filled
  | .finished s => .finished (s.relaid g)
  | .waiting holes condition thenBranch =>
    .waiting (holes.map (Hole.relaid g)) (condition.relaid g) (thenBranch.relaid g)

def State.relaid (g : Place → Place) (s : State) : State :=
  { layer := s.layer.relaid g
    outer := s.outer.map fun (opener, layer) => (opener.relaid g, layer.relaid g)
    mode := s.mode.relaid g
    errors := s.errors.map (SyntaxError.relaid g) }

theorem Level.node_relaid (level : Level) (left : Expr) (op : Token) (right : Expr) :
    level.node (left.relaid g) (op.relaid g) (right.relaid g) =
      (level.node left op right).relaid g := by
  cases level <;> rfl

theorem primary?_relaid (t : Token) : primary? (t.relaid g) = (primary? t).map (Expr.relaid g) := by
  obtain ⟨kind, lexeme, literal, line, span⟩ := t
  unfold primary? Token.relaid
  dsimp only
  split <;> rfl

theorem close_relaid (closes : Level → Bool) (pending : List Pending) (value : Expr) :
    close closes (pending.map (Pending.relaid g)) (value.relaid g) =
      ((close closes pending value).1.map (Pending.relaid g),
        (close closes pending value).2.relaid g) := by
  fun_induction close closes pending value with
  | case1 op pending value ih => exact ih
  | case2 level left op pending value closed ih =>
    rw [← Level.node_relaid] at ih
    simp only [List.map_cons, Pending.relaid, close, closed, if_true]
    exact ih
  | case3 level left op pending value closed =>
    simp only [List.map_cons, Pending.relaid, close, closed]
    rfl
  | case4 pending value notUnary notOperator =>
    cases pending with
    | nil => rfl
    | cons part pending =>
      cases part with
      | unary op => exact absurd rfl (notUnary op pending)
      | operator level left op => exact absurd rfl (notOperator level left op pending)
      | assign | group | call => rfl

theorem settle_relaid (pending : List Pending) (value : Expr) (errors : List SyntaxError) :
    settle (pending.map (Pending.relaid g)) (value.relaid g) (errors.map (SyntaxError.relaid g)) =
      (settle pending value errors).relaid g := by
  fun_induction settle pending value errors with
  | case1 op pending value errors ih => exact ih
  | case2 level left op pending value errors ih =>
    rw [← Level.node_relaid] at ih
    exact ih
  | case3 name equals pending value errors ih => exact ih
  | case4 target equals pending value errors notVar ih =>
    rw [List.map_append] at ih
    rw [← ih]
    cases target with
    | var name => exact absurd rfl (notVar name)
    | _ => rfl
  | case5 pending value errors notUnary notOperator notVar notAssign =>
    cases pending with
    | nil => rfl
    | cons part pending =>
      cases part with
      | unary op => exact absurd rfl (notUnary op pending)
      | operator level left op => exact absurd rfl (notOperator level left op pending)
      | assign target equals => exact absurd rfl (notAssign target equals pending)
      | group | call => rfl

theorem startOperand_relaid (pending : List Pending) (t : Token) :
    startOperand (pending.map (Pending.relaid g)) (t.relaid g) =
      (startOperand pending t).relaid g := by
  have kind : (t.relaid g).kind = t.kind := rfl
  unfold startOperand
  rw [kind, primary?_relaid]
  split
  · rfl
  · rfl
  · rfl
  · cases primary? t <;> rfl

theorem feedOperand_relaid (pending : List Pending) (t : Token) :
    feedOperand (pending.map (Pending.relaid g)) (t.relaid g) =
      ((feedOperand pending t).1.map (SyntaxError.relaid g),
        (feedOperand pending t).2.relaid g) := by
  have start := startOperand_relaid (g := g) pending t
  cases pending with
  | nil => exact congrArg (Prod.mk []) start
  | cons part pending =>
    cases part with
    | call callee args =>
      simp only [List.map_cons, Pending.relaid] at start
      have empty : (args.map (Expr.relaid g)).isEmpty = args.isEmpty := by simp [Array.isEmpty]
      simp only [feedOperand, List.map_cons, Pending.relaid, empty, Array.size_map, start]
      change (if args.isEmpty && t.is .rightParen then _ else _) = _
      split
      · rfl
      · split <;> rfl
    | _ => exact congrArg (Prod.mk []) start

theorem endInner_relaid (s : Settled) (t : Token) :
    endInner (s.relaid g) (t.relaid g) = (endInner s t).relaid g := by
  obtain ⟨pending, value, errors⟩ := s
  cases pending with
  | nil => rfl
  | cons part pending =>
    cases part with
    | group =>
      change (if t.is .rightParen then _ else _) =
        Progress.relaid g (if t.is .rightParen then _ else _)
      split <;> rfl
    | call callee args =>
      change (if t.is .comma then _ else if t.is .rightParen then _ else _) =
        Progress.relaid g (if t.is .comma then _ else if t.is .rightParen then _ else _)
      split
      · simp [Settled.relaid, Progress.relaid, OpenExpr.relaid, Pending.relaid]
      · split
        · simp [Settled.relaid, Progress.relaid, OpenExpr.relaid, Expr.relaid]
        · rfl
    | assign | operator | unary => rfl

theorem feedOperator_relaid (pending : List Pending) (value : Expr) (t : Token) :
    feedOperator (pending.map (Pending.relaid g)) (value.relaid g) (t.relaid g) =
      ((feedOperator pending value t).1.map (SyntaxError.relaid g),
        (feedOperator pending value t).2.relaid g) := by
  have kind : (t.relaid g).kind = t.kind := rfl
  have settled := settle_relaid (g := g) pending value []
  rw [List.map_nil] at settled
  unfold feedOperator
  simp only [kind, close_relaid, settled, endInner_relaid]
  split
  · simp [Progress.relaid, OpenExpr.relaid, Pending.relaid]
  · rfl
  · rfl
  · rfl

theorem OpenExpr.feed_relaid (read : OpenExpr) (t : Token) :
    (read.relaid g).feed (t.relaid g) =
      ((read.feed t).1.map (SyntaxError.relaid g), (read.feed t).2.relaid g) := by
  obtain ⟨pending, operand⟩ := read
  cases operand with
  | none => exact feedOperand_relaid pending t
  | some value => exact feedOperator_relaid pending value t

theorem forLoop_relaid (initial : Option Stmt) (condition : Expr) (increment : Option Expr)
    (body : Stmt) :
    forLoop (initial.map (Stmt.relaid g)) (condition.relaid g) (increment.map (Expr.relaid g))
      (body.relaid g) = (forLoop initial condition increment body).relaid g := by
  cases initial <;> cases increment <;> rfl

theorem Hole.fill_relaid (hole : Hole) (s : Stmt) :
    (hole.relaid g).fill (s.relaid g) = (hole.fill s).relaid g := by
  cases hole with
  | forBody initial condition increment => exact forLoop_relaid initial condition increment s
  | thenBranch | elseBranch | whileBody => rfl

theorem fill_relaid (holes : List Hole) (s : Stmt) :
    fill (holes.map (Hole.relaid g)) (s.relaid g) = (fill holes s).relaid g := by
  induction holes generalizing s with
  | nil => rfl
  | cons hole holes ih =>
    have next := ih (hole.fill s)
    rw [← Hole.fill_relaid] at next
    cases hole with
    | thenBranch condition => rfl
    | elseBranch | whileBody | forBody => exact next

theorem foldl_fill_relaid (holes : List Hole) (s : Stmt) :
    (holes.map (Hole.relaid g)).foldl (fun y hole => hole.fill y) (s.relaid g) =
      (holes.foldl (fun y hole => hole.fill y) s).relaid g := by
  induction holes generalizing s with
  | nil => rfl
  | cons hole holes ih =>
    rw [List.map_cons, List.foldl_cons, Hole.fill_relaid, ih, List.foldl_cons]

theorem Opener.close_relaid (opener : Opener) (ss : List Stmt) :
    (opener.relaid g).close (ss.map (Stmt.relaid g)) = (opener.close ss).relaid g := by
  cases opener <;> simp [Opener.relaid, Opener.close, Stmt.relaid]

theorem Goal.closer_relaid (goal : Goal) : (goal.relaid g).closer = goal.closer := by
  cases goal <;> rfl

namespace State

variable {s : State} {t : Token}

theorem inFunction_relaid : (s.relaid g).inFunction = s.inFunction := by
  simp only [inFunction, State.relaid, List.any_map]
  congr 1
  funext list
  obtain ⟨opener, layer⟩ := list
  cases opener <;> rfl

theorem fail_relaid (problem : Problem) :
    (s.relaid g).fail (t.relaid g) problem = (s.fail t problem).relaid g := by
  change State.mk _ _ (if t.is .semicolon then _ else _) _ = _
  by_cases ends : t.is .semicolon = true <;>
    simp [State.relaid, fail, ends, Mode.relaid, Layer.relaid]

theorem report_relaid (e : SyntaxError) :
    (s.relaid g).report (e.relaid g) = (s.report e).relaid g := by
  simp [State.relaid, report]

theorem enter_relaid (opener : Opener) :
    (s.relaid g).enter (opener.relaid g) = (s.enter opener).relaid g := by
  simp [State.relaid, enter, Layer.relaid, Mode.relaid]

theorem finishDeclaration_relaid (x : Stmt) :
    (s.relaid g).finishDeclaration (x.relaid g) = (s.finishDeclaration x).relaid g := by
  simp [State.relaid, finishDeclaration, Layer.relaid, Mode.relaid]

theorem complete_relaid (x : Stmt) :
    (s.relaid g).complete (x.relaid g) = (s.complete x).relaid g := by
  have filled : fill (s.relaid g).layer.holes (x.relaid g) = (fill s.layer.holes x).relaid g :=
    fill_relaid s.layer.holes x
  rw [complete, complete, filled]
  cases fill s.layer.holes x with
  | finished y => exact finishDeclaration_relaid y
  | waiting holes condition thenBranch => rfl

theorem completeAll_relaid (x : Stmt) :
    (s.relaid g).completeAll (x.relaid g) = (s.completeAll x).relaid g := by
  have filled := foldl_fill_relaid (g := g) s.layer.holes x
  rw [completeAll, completeAll, ← finishDeclaration_relaid, ← filled]
  rfl

theorem reach_relaid (value : Expr) (goal : Goal) :
    (s.relaid g).reach (value.relaid g) (goal.relaid g) = (s.reach value goal).relaid g := by
  cases goal with
  | expression => exact complete_relaid (.expression value)
  | printed keyword => exact complete_relaid (.print keyword value)
  | returned keyword => exact complete_relaid (.ret keyword (some value))
  | variableValue site name =>
    cases site with
    | declaration => exact complete_relaid (.varDecl name (some value))
    | forClause => rfl
  | _ => rfl

theorem errors_relaid (es : List SyntaxError) :
    (s.relaid g).errors ++ es.map (SyntaxError.relaid g) =
      (s.errors ++ es).map (SyntaxError.relaid g) := by
  apply Array.toList_inj.mp
  simp [State.relaid]

theorem feedValue_relaid (goal : Goal) (read : OpenExpr) :
    (s.relaid g).feedValue (goal.relaid g) (read.relaid g) (t.relaid g) =
      (s.feedValue goal read t).relaid g := by
  simp only [feedValue, OpenExpr.feed_relaid, Goal.closer_relaid, errors_relaid]
  generalize s.errors ++ (read.feed t).1 = errors
  cases (read.feed t).2 with
  | more next => rfl
  | stuck problem => exact fail_relaid (s := { s with errors }) _
  | complete value =>
    change (if t.is goal.closer.1 then _ else _) = State.relaid g (if _ then _ else _)
    split
    · exact reach_relaid (s := { s with errors }) value goal
    · exact fail_relaid (s := { s with errors }) _

theorem startStatement_relaid :
    (s.relaid g).startStatement (t.relaid g) = (s.startStatement t).relaid g := by
  have kind : (t.relaid g).kind = t.kind := rfl
  unfold startStatement
  rw [kind, inFunction_relaid]
  split
  case h_4 =>
    by_cases inside : s.inFunction = true
    · simp only [inside, if_true]
      rfl
    · simp only [inside]
      rw [← SyntaxError.relaid_atToken, if_neg (by decide), report_relaid]
      rfl
  case h_6 => exact enter_relaid .block
  case h_7 => exact feedValue_relaid .expression {}
  all_goals rfl

theorem startDeclaration_relaid :
    (s.relaid g).startDeclaration (t.relaid g) = (s.startDeclaration t).relaid g := by
  have kind : (t.relaid g).kind = t.kind := rfl
  unfold startDeclaration
  rw [kind]
  -- Only the kind is split, not the token: what a statement starts with is still the token itself.
  cases t.kind
  case kwFun => rfl
  case kwVar => rfl
  case rightBrace =>
    obtain ⟨layer, outer, mode, errors⟩ := s
    cases outer with
    | nil => exact startStatement_relaid
    | cons around outer =>
      obtain ⟨opener, around⟩ := around
      have closing := complete_relaid (g := g) (s := ⟨around, outer, mode, errors⟩)
        (opener.close layer.done.toList)
      rw [← Opener.close_relaid, ← Array.toList_map] at closing
      exact closing
  all_goals exact startStatement_relaid

theorem feedParameter_relaid (name : Token) (params : Array Token) :
    (s.relaid g).feedParameter (name.relaid g) (params.map (Token.relaid g)) (t.relaid g) =
      (s.feedParameter name params t).relaid g := by
  have empty : (params.map (Token.relaid g)).isEmpty = params.isEmpty := by simp [Array.isEmpty]
  have checked : (if maxArguments ≤ params.size then
        (s.relaid g).report (.atToken (t.relaid g) .tooManyParameters) else s.relaid g) =
      (if maxArguments ≤ params.size then
        s.report (.atToken t .tooManyParameters) else s).relaid g := by
    split
    · exact report_relaid (.atToken t .tooManyParameters)
    · rfl
  simp only [feedParameter, empty, Array.size_map, checked]
  change (if params.isEmpty && t.is .rightParen then _ else if t.is .identifier then _ else _) = _
  split
  · rfl
  · split
    · simp [State.relaid, expectHeader, Mode.relaid, Header.relaid]
    · exact fail_relaid _

theorem feedHeader_relaid (due : Header) :
    (s.relaid g).feedHeader (t.relaid g) (due.relaid g) = (s.feedHeader t due).relaid g := by
  have same (kind : Kind) : (t.relaid g).is kind = t.is kind := rfl
  cases due with
  | functionParen name =>
    simp only [Header.relaid, feedHeader, same]
    split
    · simp [State.relaid, expectHeader, Mode.relaid, Header.relaid]
    · exact fail_relaid _
  | parameter name params => exact feedParameter_relaid name params
  | parameterEnd name params =>
    simp only [Header.relaid, feedHeader, same]
    split
    · rfl
    · split
      · rfl
      · exact fail_relaid _
  | bodyBrace name params =>
    simp only [Header.relaid, feedHeader, same]
    split
    · rw [← enter_relaid, Opener.relaid, Array.toList_map]
    · exact fail_relaid _
  | variableEnd site name =>
    simp only [Header.relaid, feedHeader, same]
    split
    · rfl
    · split
      · cases site with
        | declaration => exact complete_relaid (.varDecl name none)
        | forClause => rfl
      · exact fail_relaid _
  | returnValue keyword =>
    simp only [Header.relaid, feedHeader, same]
    split
    · exact complete_relaid (.ret keyword none)
    · exact feedValue_relaid (.returned keyword) {}
  | forInitial =>
    simp only [Header.relaid, feedHeader, same]
    split
    · rfl
    · split
      · rfl
      · exact feedValue_relaid .forInitial {}
  | forCondition initial =>
    simp only [Header.relaid, feedHeader, same]
    split
    · rfl
    · exact feedValue_relaid (.forCondition initial) {}
  | forIncrement initial condition =>
    simp only [Header.relaid, feedHeader, same]
    split
    · rfl
    · exact feedValue_relaid (.forIncrement initial condition) {}
  | functionName | variableName | ifParen | whileParen | forParen =>
    simp only [Header.relaid, feedHeader, same]
    split
    · rfl
    · exact fail_relaid _

theorem feed_relaid : (s.relaid g).feed (t.relaid g) = (s.feed t).relaid g := by
  obtain ⟨layer, outer, mode, errors⟩ := s
  cases mode with
  | declaration => exact startDeclaration_relaid
  | recovery =>
    change (if t.kind.startsStatement then _ else if t.is .semicolon then _ else _) =
      State.relaid g (if t.kind.startsStatement then _ else if t.is .semicolon then _ else _)
    split
    · exact startDeclaration_relaid
    · split <;> rfl
  | statement => exact startStatement_relaid
  | afterThen condition thenBranch =>
    change (if t.is .kwElse then _ else _) = State.relaid g (if t.is .kwElse then _ else _)
    split
    · rfl
    · rw [← startDeclaration_relaid, ← completeAll_relaid]
      rfl
  | header due => exact feedHeader_relaid due
  | value goal read => exact feedValue_relaid goal read

theorem run_relaid (w : List Token) :
    (w.map (Token.relaid g)).foldl feed (s.relaid g) = (w.foldl feed s).relaid g := by
  induction w generalizing s with
  | nil => rfl
  | cons t w ih => rw [List.map_cons, List.foldl_cons, feed_relaid, ih, List.foldl_cons]

theorem finish_relaid : (s.relaid g).finish (t.relaid g) = (s.finish t).relaid g := by
  have ended (s : State) :
      { s.relaid g with
        errors := (s.relaid g).errors ++
          List.replicate (s.relaid g).outer.length (SyntaxError.atToken (t.relaid g) .blockEnd) } =
      State.relaid g
        { s with
          errors := s.errors ++
            List.replicate s.outer.length (SyntaxError.atToken t .blockEnd) } := by
    rw [← SyntaxError.relaid_atToken, ← List.map_replicate, errors_relaid]
    simp [State.relaid]
  have fed := ended (s.feed t)
  rw [← feed_relaid] at fed
  have closed (condition : Expr) (thenBranch : Stmt) :=
    ended (s.completeAll (.ifElse condition thenBranch none))
  simp only [← completeAll_relaid] at closed
  obtain ⟨layer, outer, mode, errors⟩ := s
  cases mode with
  | declaration | recovery => exact ended _
  | afterThen condition thenBranch => exact closed condition thenBranch
  | statement | header | value => exact fed

theorem program_relaid : (s.relaid g).program = s.program.relaid g := by
  simp only [program, State.relaid, List.getLast?_map]
  cases s.outer.getLast? <;> rfl

end State

theorem body_relaid (tokens : List Token) :
    body (tokens.map (Token.relaid g)) = (body tokens).map (Token.relaid g) :=
  List.takeWhile_map

theorem ending_relaid {tokens : List Token} (ends : ∃ t ∈ tokens, t.kind = .eof) :
    ending (tokens.map (Token.relaid g)) = (ending tokens).relaid g := by
  obtain ⟨eof, member, kind⟩ := ends
  have found : (tokens.find? (·.is .eof)).isSome := by
    rw [List.find?_isSome]
    exact ⟨eof, member, by simp [Token.is, kind]⟩
  obtain ⟨first, found⟩ := Option.isSome_iff_exists.mp found
  have there : (tokens.map (Token.relaid g)).find? (·.is .eof) = some (first.relaid g) := by
    rw [List.find?_map]
    change (tokens.find? (·.is .eof)).map _ = _
    rw [found]
    rfl
  simp only [ending, found, there]

end Parse

theorem parse_relaid {tokens : List Token} (ends : ∃ t ∈ tokens, t.kind = .eof) :
    parse (tokens.map (Token.relaid g)) = (parse tokens).relaid g := by
  have start : Parse.State.relaid g {} = {} := by
    simp [Parse.State.relaid, Parse.Layer.relaid, Parse.Mode.relaid]
  have run := Parse.State.run_relaid (g := g) (s := {}) (Parse.body tokens)
  rw [start] at run
  simp only [parse, Parse.body_relaid, Parse.ending_relaid ends, run, Parse.State.finish_relaid,
    Parse.State.program_relaid]
  simp [Parsed.relaid, Parse.Layer.relaid, Parse.State.relaid]

theorem parseSource_relaid {source : String} (clean : (scan source).errors = []) :
    (parseSource source).relaid g = parse ((scan source).tokens.map (Token.relaid g)) := by
  rw [parse_relaid (scan_ends source), parseSource, clean]
  rfl

end Treewalk
