import Treewalk.Parse

namespace Treewalk.Descent

open Token (Kind)
open Parse (Level maxArguments)

inductive Stop
  | failed (e : SyntaxError)
  | outOfRange
  | exhausted
deriving DecidableEq, Repr, Inhabited

structure Cursor where
  pos : Nat := 0
  errors : Array SyntaxError := #[]
  depth : Nat := 0
deriving Repr, Inhabited

/-- A procedure that reads a list of tokens. The cursor stays where it is when one fails. -/
abbrev Read := ReaderT (List Token) (EStateM Stop Cursor)

def tokenAt (pos : Nat) : Read Token := fun tokens c =>
  match tokens[pos]? with
  | some t => .ok t c
  | none => .error .outOfRange c

def peek : Read Token := do tokenAt (← get).pos

def previous : Read Token := do tokenAt ((← get).pos - 1)

def atEnd : Read Bool := do return (← peek).is .eof

def advance : Read Token := do
  if ← atEnd then previous
  else
    modify fun c => { c with pos := c.pos + 1 }
    previous

def check (kind : Kind) : Read Bool := do
  if ← atEnd then return false
  else return (← peek).is kind

def accept (kind : Kind) : Read Bool := do
  if ← check kind then
    let _ ← advance
    return true
  else return false

def acceptAny : List Kind → Read Bool
  | [] => return false
  | kind :: kinds => do if ← accept kind then return true else acceptAny kinds

def fail {α : Type} (problem : Problem) : Read α := do
  throw (.failed (.atToken (← peek) problem))

def expect (kind : Kind) (problem : Problem) : Read Token := do
  if ← check kind then advance else fail problem

def report (e : SyntaxError) : Read Unit := modify fun c => { c with errors := c.errors.push e }

inductive Rule
  | assignment
  | level (l : Level)
  | more (l : Level) (left : Expr)
  | unary
  | call
  | moreCalls (callee : Expr)
  | arguments (callee : Expr) (args : Array Expr)
  | primary

def kinds : Level → List Kind
  | .disjunction => [.kwOr]
  | .conjunction => [.kwAnd]
  | .equality => [.bangEqual, .equalEqual]
  | .comparison => [.greater, .greaterEqual, .less, .lessEqual]
  | .term => [.minus, .plus]
  | .factor => [.slash, .star]

def leftRule : Level → Rule
  | .disjunction => .level .conjunction
  | .conjunction => .level .equality
  | .equality => .level .comparison
  | .comparison => .level .term
  | .term => .level .factor
  | .factor => .unary

/-- The right operand of a comparison is a comparison again. -/
def rightRule : Level → Rule
  | .comparison => .level .comparison
  | l => leftRule l

def read : Nat → Rule → Read Expr
  | 0, _ => throw .exhausted
  | fuel + 1, .assignment => do
    let target ← read fuel (.level .disjunction)
    if ← accept .equal then
      let equals ← previous
      let value ← read fuel .assignment
      match target with
      | .var name => return .assign name value
      | _ =>
        report (.atToken equals .assignmentTarget)
        return target
    else return target
  | fuel + 1, .level l => do
    let left ← read fuel (leftRule l)
    read fuel (.more l left)
  | fuel + 1, .more l left => do
    if ← acceptAny (kinds l) then
      let op ← previous
      let right ← read fuel (rightRule l)
      read fuel (.more l (l.node left op right))
    else return left
  | fuel + 1, .unary => do
    if ← acceptAny [.bang, .minus] then
      let op ← previous
      let operand ← read fuel .unary
      return .unary op operand
    else read fuel .call
  | fuel + 1, .call => do
    let callee ← read fuel .primary
    read fuel (.moreCalls callee)
  | fuel + 1, .moreCalls callee => do
    if ← accept .leftParen then
      if ← check .rightParen then
        let paren ← expect .rightParen .argumentsEnd
        read fuel (.moreCalls (.call callee paren []))
      else
        let value ← read fuel (.arguments callee #[])
        read fuel (.moreCalls value)
    else return callee
  | fuel + 1, .arguments callee args => do
    if maxArguments ≤ args.size then report (.atToken (← peek) .tooManyArguments)
    let arg ← read fuel .assignment
    if ← accept .comma then read fuel (.arguments callee (args.push arg))
    else
      let paren ← expect .rightParen .argumentsEnd
      return .call callee paren (args.push arg).toList
  | fuel + 1, .primary => do
    match Parse.primary? (← peek) with
    | some value =>
      let _ ← advance
      return value
    | none =>
      if ← accept .leftParen then
        let inner ← read fuel .assignment
        let _ ← expect .rightParen .groupEnd
        return .group inner
      else fail .expression

theorem read_level (fuel : Nat) (l : Level) :
    read (fuel + 1) (.level l) = (do
      let left ← read fuel (leftRule l)
      read fuel (.more l left)) := by
  rw [read]

section Statements

variable (fuel : Nat)

def closedExpression (closer : Kind × Problem) : Read Expr := do
  let value ← read fuel .assignment
  let _ ← expect closer.1 closer.2
  return value

def optionalExpression (closer : Kind × Problem) : Read (Option Expr) := do
  if ← check closer.1 then
    let _ ← expect closer.1 closer.2
    return none
  else
    let value ← closedExpression fuel closer
    return some value

def variableDeclaration : Read Stmt := do
  let name ← expect .identifier .variableName
  if ← accept .equal then
    let value ← closedExpression fuel (.semicolon, .variableEnd)
    return .varDecl name (some value)
  else
    let _ ← expect .semicolon .variableEnd
    return .varDecl name none

def parameters : Nat → Array Token → Read (Array Token)
  | 0, _ => throw .exhausted
  | fuel + 1, params => do
    if maxArguments ≤ params.size then report (.atToken (← peek) .tooManyParameters)
    let name ← expect .identifier .parameterName
    if ← accept .comma then parameters fuel (params.push name) else return params.push name

def parameterList : Read (Array Token) := do
  if ← check .rightParen then return #[] else parameters fuel #[]

def inBody {α : Type} (x : Read α) : Read α := fun tokens c =>
  match x tokens { c with depth := c.depth + 1 } with
  | .ok a c => .ok a { c with depth := c.depth - 1 }
  | .error stop c => .error stop { c with depth := c.depth - 1 }

def functionDeclaration (block : Read (List Stmt)) : Read Stmt := do
  let name ← expect .identifier .functionName
  let _ ← expect .leftParen .functionParen
  let params ← parameterList fuel
  let _ ← expect .rightParen .parametersEnd
  let _ ← expect .leftBrace .bodyBrace
  let body ← inBody block
  return .funDecl name params.toList body

def printStatement : Read Stmt := do
  let keyword ← previous
  let value ← closedExpression fuel (.semicolon, .printEnd)
  return .print keyword value

def returnStatement : Read Stmt := do
  let keyword ← previous
  if (← get).depth = 0 then report (.atToken keyword .topLevelReturn)
  let value ← optionalExpression fuel (.semicolon, .returnEnd)
  return .ret keyword value

def forInitial : Read (Option Stmt) := do
  if ← accept .semicolon then return none
  else if ← accept .kwVar then
    let x ← variableDeclaration fuel
    return some x
  else
    let value ← closedExpression fuel (.semicolon, .expressionEnd)
    return some (.expression value)

def forStatement (statement : Read Stmt) : Read Stmt := do
  let _ ← expect .leftParen .forParen
  let initial ← forInitial fuel
  let condition ← optionalExpression fuel (.semicolon, .forConditionEnd)
  let increment ← optionalExpression fuel (.rightParen, .forEnd)
  let body ← statement
  return Parse.forLoop initial (condition.getD (.constant (.bool true))) increment body

def ifStatement (statement : Read Stmt) : Read Stmt := do
  let _ ← expect .leftParen .ifParen
  let condition ← closedExpression fuel (.rightParen, .ifEnd)
  let first ← statement
  if ← accept .kwElse then
    let second ← statement
    return .ifElse condition first (some second)
  else return .ifElse condition first none

def whileStatement (statement : Read Stmt) : Read Stmt := do
  let _ ← expect .leftParen .whileParen
  let condition ← closedExpression fuel (.rightParen, .whileEnd)
  let body ← statement
  return .whileLoop condition body

def expressionStatement : Read Stmt := do
  let value ← closedExpression fuel (.semicolon, .expressionEnd)
  return .expression value

def skip : Nat → Read Unit
  | 0 => throw .exhausted
  | fuel + 1 => do
    if ← atEnd then return ()
    else if (← previous).is .semicolon then return ()
    else if (← peek).kind.startsStatement then return ()
    else
      let _ ← advance
      skip fuel

def recover (x : Read Stmt) : Read (Option Stmt) := fun tokens c =>
  match x tokens c with
  | .ok s c => .ok (some s) c
  | .error (.failed e) c =>
    (do report e; let _ ← advance; skip fuel; return none : Read (Option Stmt)) tokens c
  | .error stop c => .error stop c

end Statements

def listEnds : Read Bool := do return (← check .rightBrace) || (← atEnd)

mutual

def statement : Nat → Read Stmt
  | 0 => throw .exhausted
  | fuel + 1 => do
    if ← accept .kwFor then forStatement fuel (statement fuel)
    else if ← accept .kwIf then ifStatement fuel (statement fuel)
    else if ← accept .kwPrint then printStatement fuel
    else if ← accept .kwReturn then returnStatement fuel
    else if ← accept .kwWhile then whileStatement fuel (statement fuel)
    else if ← accept .leftBrace then
      let body ← block fuel []
      return .block body
    else expressionStatement fuel

def declaration : Nat → Read (Option Stmt)
  | 0 => throw .exhausted
  | fuel + 1 => recover fuel do
    if ← accept .kwFun then functionDeclaration fuel (block fuel [])
    else if ← accept .kwVar then variableDeclaration fuel
    else statement fuel

def block : Nat → List Stmt → Read (List Stmt)
  | 0, _ => throw .exhausted
  | fuel + 1, done => do
    if ← listEnds then
      let _ ← expect .rightBrace .blockEnd
      return done
    else
      let next ← declaration fuel
      block fuel (done ++ next.toList)

end

def program : Nat → List Stmt → Read (List Stmt)
  | 0, _ => throw .exhausted
  | fuel + 1, done => do
    if ← atEnd then return done
    else
      let next ← declaration fuel
      program fuel (done ++ next.toList)

/-- A list that does not end with an end of the input is given one. -/
def padded (tokens : List Token) : List Token :=
  if tokens.getLast?.any (·.is .eof) then tokens
  else
    let (line, offset) := (tokens.getLast?.map fun t => (t.line, t.span.stop)).getD (1, 0)
    tokens ++ [{ kind := .eof, lexeme := "", line, span := ⟨offset, offset⟩ }]

def parse (fuel : Nat) (tokens : List Token) : Except Stop Parsed :=
  match program fuel [] (padded tokens) {} with
  | .ok statements c => .ok { statements, errors := c.errors.toList }
  | .error stop _ => .error stop

end Treewalk.Descent
