import Treewalk.Token

namespace Treewalk

inductive Problem
  | unexpectedCharacter
  | unterminatedString
  | functionName
  | functionParen
  | tooManyParameters
  | parameterName
  | parametersEnd
  | bodyBrace
  | variableName
  | variableEnd
  | printEnd
  | topLevelReturn
  | returnEnd
  | forParen
  | expressionEnd
  | forConditionEnd
  | forEnd
  | ifParen
  | ifEnd
  | whileParen
  | whileEnd
  | blockEnd
  | assignmentTarget
  | tooManyArguments
  | argumentsEnd
  | groupEnd
  | expression
deriving DecidableEq, Repr, Inhabited

namespace Problem

def message : Problem → String
  | unexpectedCharacter => "Unexpected character."
  | unterminatedString => "Unterminated string."
  | functionName => "Expect function name."
  | functionParen => "Expect '(' after function name."
  | tooManyParameters => "Can't have more than 255 parameters."
  | parameterName => "Expect parameter name."
  | parametersEnd => "Expect ')' after parameters."
  | bodyBrace => "Expect '\x7b' before function body."
  | variableName => "Expect variable name."
  | variableEnd => "Expect ';' after variable declaration."
  | printEnd => "Expect ';' after value."
  | topLevelReturn => "Can't return from top-level code."
  | returnEnd => "Expect ';' after return value."
  | forParen => "Expect '(' after 'for'."
  | expressionEnd => "Expect ';' after expression."
  | forConditionEnd => "Expect ';' after loop condition."
  | forEnd => "Expect ')' after for clauses."
  | ifParen => "Expect '(' after 'if'."
  | ifEnd => "Expect ')' after if condition."
  | whileParen => "Expect '(' after 'while'."
  | whileEnd => "Expect ')' after while condition."
  | blockEnd => "Expect '\x7d' after block."
  | assignmentTarget => "Invalid assignment target."
  | tooManyArguments => "Can't have more than 255 arguments."
  | argumentsEnd => "Expect ')' after arguments."
  | groupEnd => "Expect ')' after expression."
  | expression => "Expect expression."

def help : Problem → Option String
  | unterminatedString => some "close the string with a matching '\"'"
  | assignmentTarget => some "only a variable name can be assigned to"
  | _ => none

end Problem

inductive Location
  | endOfInput
  | lexeme (text : String)
deriving DecidableEq, Repr, Inhabited

namespace Location

def ofToken (t : Token) : Location := if t.is .eof then endOfInput else lexeme t.lexeme

def text : Location → String
  | endOfInput => "end"
  | lexeme text => "'" ++ text ++ "'"

end Location

/-- Errors of the text alone have no location; errors of the grammar are anchored at a token. -/
structure SyntaxError where
  problem : Problem
  line : Nat
  location : Option Location
  span : Span
deriving DecidableEq, Repr, Inhabited

namespace SyntaxError

def atToken (t : Token) (problem : Problem) : SyntaxError :=
  { problem, line := t.line, location := some (.ofToken t), span := t.span }

def message (e : SyntaxError) : String := e.problem.message

def help (e : SyntaxError) : Option String := e.problem.help

end SyntaxError

end Treewalk
