import Treewalk.Parse.Expression

namespace Treewalk.Parse

open Token (Kind)

inductive Hole
  | thenBranch (condition : Expr)
  | elseBranch (condition : Expr) (thenBranch : Stmt)
  | whileBody (condition : Expr)
  | forBody (initial : Option Stmt) (condition : Expr) (increment : Option Expr)
deriving Inhabited

/-- The loop that a `for` stands for: the increment ends each turn, the initial part runs once in
a scope of its own. -/
def forLoop (initial : Option Stmt) (condition : Expr) (increment : Option Expr) (body : Stmt) :
    Stmt :=
  let body :=
    match increment with
    | some e => .block [body, .expression e]
    | none => body
  match initial with
  | some s => .block [s, .whileLoop condition body]
  | none => .whileLoop condition body

def Hole.fill : Hole → Stmt → Stmt
  | thenBranch condition, s => .ifElse condition s none
  | elseBranch condition first, s => .ifElse condition first (some s)
  | whileBody condition, s => .whileLoop condition s
  | forBody initial condition increment, s => forLoop initial condition increment s

inductive Opener
  | block
  | body (name : Token) (params : List Token)
deriving Inhabited

def Opener.close : Opener → List Stmt → Stmt
  | block, statements => .block statements
  | body name params, statements => .funDecl name params statements

def Opener.isBody : Opener → Bool
  | block => false
  | body _ _ => true

/-- An open list of declarations: those finished, and the heads of the one being read, the
innermost first. -/
structure Layer where
  done : Array Stmt := #[]
  holes : List Hole := []
deriving Inhabited

/-- Where a variable is declared: among declarations, or as the initial part of a `for`. -/
inductive Site
  | declaration
  | forClause
deriving DecidableEq, Repr, Inhabited

/-- A place inside a declaration where particular tokens are due. -/
inductive Header
  | functionName
  | functionParen (name : Token)
  | parameter (name : Token) (params : Array Token)
  | parameterEnd (name : Token) (params : Array Token)
  | bodyBrace (name : Token) (params : Array Token)
  | variableName (site : Site)
  | variableEnd (site : Site) (name : Token)
  | returnValue (keyword : Token)
  | ifParen
  | whileParen
  | forParen
  | forInitial
  | forCondition (initial : Option Stmt)
  | forIncrement (initial : Option Stmt) (condition : Expr)
deriving Inhabited

inductive Goal
  | expression
  | printed (keyword : Token)
  | variableValue (site : Site) (name : Token)
  | returned (keyword : Token)
  | ifCondition
  | whileCondition
  | forInitial
  | forCondition (initial : Option Stmt)
  | forIncrement (initial : Option Stmt) (condition : Expr)
deriving Inhabited

def Goal.closer : Goal → Kind × Problem
  | expression => (.semicolon, .expressionEnd)
  | printed _ => (.semicolon, .printEnd)
  | variableValue _ _ => (.semicolon, .variableEnd)
  | returned _ => (.semicolon, .returnEnd)
  | ifCondition => (.rightParen, .ifEnd)
  | whileCondition => (.rightParen, .whileEnd)
  | forInitial => (.semicolon, .expressionEnd)
  | forCondition _ => (.semicolon, .forConditionEnd)
  | forIncrement _ _ => (.rightParen, .forEnd)

inductive Mode
  | declaration
  | recovery
  | statement
  | afterThen (condition : Expr) (thenBranch : Stmt)
  | header (due : Header)
  | value (goal : Goal) (read : OpenExpr)
deriving Inhabited

structure State where
  layer : Layer := {}
  /-- The lists around the innermost one, with the brace that opened the list inside each. -/
  outer : List (Opener × Layer) := []
  mode : Mode := .declaration
  errors : Array SyntaxError := #[]
deriving Inhabited

/-- A statement given to the heads that wait for it: a conditional stops to wait for `else`. -/
inductive Filled
  | finished (s : Stmt)
  | waiting (holes : List Hole) (condition : Expr) (thenBranch : Stmt)
deriving Inhabited

def fill : List Hole → Stmt → Filled
  | [], s => .finished s
  | .thenBranch condition :: holes, s => .waiting holes condition s
  | hole :: holes, s => fill holes (hole.fill s)

namespace State

def inFunction (s : State) : Bool := s.outer.any (·.1.isBody)

def report (s : State) (e : SyntaxError) : State := { s with errors := s.errors.push e }

/-- Gives up the declaration being read because of `t`, which is skipped. -/
def fail (s : State) (t : Token) (problem : Problem) : State :=
  { s with
    layer := { s.layer with holes := [] }
    mode := if t.is .semicolon then .declaration else .recovery
    errors := s.errors.push (.atToken t problem) }

def expectHeader (s : State) (due : Header) : State := { s with mode := .header due }

def expectValue (s : State) (goal : Goal) : State := { s with mode := .value goal {} }

def expectStatement (s : State) (hole : Hole) : State :=
  { s with layer := { s.layer with holes := hole :: s.layer.holes }, mode := .statement }

def enter (s : State) (opener : Opener) : State :=
  { s with layer := {}, outer := (opener, s.layer) :: s.outer, mode := .declaration }

def finishDeclaration (s : State) (x : Stmt) : State :=
  { s with layer := { done := s.layer.done.push x, holes := [] }, mode := .declaration }

def complete (s : State) (x : Stmt) : State :=
  match fill s.layer.holes x with
  | .finished y => s.finishDeclaration y
  | .waiting holes condition thenBranch =>
    { s with layer := { s.layer with holes }, mode := .afterThen condition thenBranch }

def completeAll (s : State) (x : Stmt) : State :=
  s.finishDeclaration (s.layer.holes.foldl (fun y hole => hole.fill y) x)

def reach (s : State) (value : Expr) : Goal → State
  | .expression => s.complete (.expression value)
  | .printed keyword => s.complete (.print keyword value)
  | .variableValue .declaration name => s.complete (.varDecl name (some value))
  | .variableValue .forClause name =>
    s.expectHeader (.forCondition (some (.varDecl name (some value))))
  | .returned keyword => s.complete (.ret keyword (some value))
  | .ifCondition => s.expectStatement (.thenBranch value)
  | .whileCondition => s.expectStatement (.whileBody value)
  | .forInitial => s.expectHeader (.forCondition (some (.expression value)))
  | .forCondition initial => s.expectHeader (.forIncrement initial value)
  | .forIncrement initial condition => s.expectStatement (.forBody initial condition (some value))

def feedValue (s : State) (goal : Goal) (read : OpenExpr) (t : Token) : State :=
  let (errors, progress) := read.feed t
  let s := { s with errors := s.errors ++ errors }
  match progress with
  | .more next => { s with mode := .value goal next }
  | .stuck problem => s.fail t problem
  | .complete value =>
    if t.is goal.closer.1 then s.reach value goal else s.fail t goal.closer.2

def startStatement (s : State) (t : Token) : State :=
  match t.kind with
  | .kwFor => s.expectHeader .forParen
  | .kwIf => s.expectHeader .ifParen
  | .kwPrint => s.expectValue (.printed t)
  | .kwReturn =>
    let s := if s.inFunction then s else s.report (.atToken t .topLevelReturn)
    s.expectHeader (.returnValue t)
  | .kwWhile => s.expectHeader .whileParen
  | .leftBrace => s.enter .block
  | _ => s.feedValue .expression {} t

def startDeclaration (s : State) (t : Token) : State :=
  match t.kind, s.outer with
  | .kwFun, _ => s.expectHeader .functionName
  | .kwVar, _ => s.expectHeader (.variableName .declaration)
  | .rightBrace, (opener, layer) :: outer =>
    { s with layer, outer }.complete (opener.close s.layer.done.toList)
  | _, _ => s.startStatement t

def feedParameter (s : State) (name : Token) (params : Array Token) (t : Token) : State :=
  if params.isEmpty && t.is .rightParen then s.expectHeader (.bodyBrace name params)
  else
    let s := if maxArguments ≤ params.size then s.report (.atToken t .tooManyParameters) else s
    if t.is .identifier then s.expectHeader (.parameterEnd name (params.push t))
    else s.fail t .parameterName

def feedHeader (s : State) (t : Token) : Header → State
  | .functionName =>
    if t.is .identifier then s.expectHeader (.functionParen t) else s.fail t .functionName
  | .functionParen name =>
    if t.is .leftParen then s.expectHeader (.parameter name #[]) else s.fail t .functionParen
  | .parameter name params => s.feedParameter name params t
  | .parameterEnd name params =>
    if t.is .comma then s.expectHeader (.parameter name params)
    else if t.is .rightParen then s.expectHeader (.bodyBrace name params)
    else s.fail t .parametersEnd
  | .bodyBrace name params =>
    if t.is .leftBrace then s.enter (.body name params.toList) else s.fail t .bodyBrace
  | .variableName site =>
    if t.is .identifier then s.expectHeader (.variableEnd site t) else s.fail t .variableName
  | .variableEnd site name =>
    if t.is .equal then s.expectValue (.variableValue site name)
    else if t.is .semicolon then
      match site with
      | .declaration => s.complete (.varDecl name none)
      | .forClause => s.expectHeader (.forCondition (some (.varDecl name none)))
    else s.fail t .variableEnd
  | .returnValue keyword =>
    if t.is .semicolon then s.complete (.ret keyword none)
    else s.feedValue (.returned keyword) {} t
  | .ifParen => if t.is .leftParen then s.expectValue .ifCondition else s.fail t .ifParen
  | .whileParen =>
    if t.is .leftParen then s.expectValue .whileCondition else s.fail t .whileParen
  | .forParen => if t.is .leftParen then s.expectHeader .forInitial else s.fail t .forParen
  | .forInitial =>
    if t.is .semicolon then s.expectHeader (.forCondition none)
    else if t.is .kwVar then s.expectHeader (.variableName .forClause)
    else s.feedValue .forInitial {} t
  | .forCondition initial =>
    if t.is .semicolon then s.expectHeader (.forIncrement initial (.constant (.bool true)))
    else s.feedValue (.forCondition initial) {} t
  | .forIncrement initial condition =>
    if t.is .rightParen then s.expectStatement (.forBody initial condition none)
    else s.feedValue (.forIncrement initial condition) {} t

def feed (s : State) (t : Token) : State :=
  match s.mode with
  | .declaration => s.startDeclaration t
  | .recovery =>
    if t.kind.startsStatement then s.startDeclaration t
    else if t.is .semicolon then { s with mode := .declaration }
    else s
  | .statement => s.startStatement t
  | .afterThen condition thenBranch =>
    if t.is .kwElse then s.expectStatement (.elseBranch condition thenBranch)
    else (s.completeAll (.ifElse condition thenBranch none)).startDeclaration t
  | .header due => s.feedHeader t due
  | .value goal read => s.feedValue goal read t

def program (s : State) : Layer :=
  match s.outer.getLast? with
  | some (_, layer) => layer
  | none => s.layer

/-- Reads the end of the input. Every list still open lacks its brace. -/
def finish (s : State) (eof : Token) : State :=
  let s :=
    match s.mode with
    | .declaration | .recovery => s
    | .afterThen condition thenBranch => s.completeAll (.ifElse condition thenBranch none)
    | .statement | .header _ | .value _ _ => s.feed eof
  { s with errors := s.errors ++ List.replicate s.outer.length (SyntaxError.atToken eof .blockEnd) }

end State

end Treewalk.Parse
