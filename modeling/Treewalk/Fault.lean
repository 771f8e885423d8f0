import Treewalk.Token

namespace Treewalk

inductive Cause
  | undefinedVariable (name : String)
  | operandNotNumber
  | operandsDiffer
  | notCallable
  | arityMismatch (expected received : Nat)
  | output (reason : String)
deriving DecidableEq, Repr, Inhabited

def Cause.message : Cause → String
  | undefinedVariable name => "Undefined variable '" ++ name ++ "'."
  | operandNotNumber => "Operand must be a number."
  | operandsDiffer => "Operands must be two numbers or two strings."
  | notCallable => "Can only call functions and classes."
  | arityMismatch expected received =>
    "Expected " ++ toString expected ++ " arguments but got " ++ toString received ++ "."
  | output reason => "Failed to write output: " ++ reason

structure Fault where
  cause : Cause
  line : Nat
  span : Span
deriving DecidableEq, Repr, Inhabited

namespace Fault

def atToken (t : Token) (cause : Cause) : Fault := { cause, line := t.line, span := t.span }

def message (f : Fault) : String := f.cause.message

def text (f : Fault) : String := f.message ++ "\n[line " ++ toString f.line ++ "]"

end Fault

end Treewalk
