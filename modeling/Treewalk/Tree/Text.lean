import Treewalk.Tree
import Treewalk.Decimal

namespace Treewalk

def appendEach (mark start : String) (parts : List String) : String :=
  parts.foldl (fun text part => text ++ mark ++ part) start

def separated (mark : String) : List String → String
  | [] => ""
  | part :: parts => appendEach mark part parts

def parenthesized (head : String) (parts : List String) : String :=
  appendEach " " ("(" ++ head) parts ++ ")"

namespace Constant

def text : Constant → String
  | nil => "nil"
  | bool true => "true"
  | bool false => "false"
  | number x => Decimal.text x
  | string s => s

end Constant

mutual

def Expr.text : Expr → String
  | .constant value => value.text
  | .group inner => parenthesized "group" [inner.text]
  | .unary op operand => parenthesized op.lexeme [operand.text]
  | .binary left op right => parenthesized op.lexeme [left.text, right.text]
  | .logical left op right => parenthesized op.lexeme [left.text, right.text]
  | .var name => name.lexeme
  | .assign name value => parenthesized "=" [name.lexeme, value.text]
  | .call callee _ args => parenthesized "call" (callee.text :: Expr.texts args)

def Expr.texts : List Expr → List String
  | [] => []
  | e :: es => e.text :: Expr.texts es

end

mutual

def Stmt.text : Stmt → String
  | .expression value => parenthesized "expr" [value.text]
  | .print _ value => parenthesized "print" [value.text]
  | .varDecl name none => parenthesized "var" [name.lexeme]
  | .varDecl name (some e) => parenthesized "var" [name.lexeme, e.text]
  | .block body => parenthesized "block" (Stmt.texts body)
  | .ifElse c t none => parenthesized "if" [c.text, t.text]
  | .ifElse c t (some e) => parenthesized "if" [c.text, t.text, e.text]
  | .whileLoop c body => parenthesized "while" [c.text, body.text]
  | .funDecl name params body =>
    let list := "(" ++ separated " " (params.map Token.lexeme) ++ ")"
    parenthesized "fun" (name.lexeme :: list :: Stmt.texts body)
  | .ret _ none => parenthesized "return" []
  | .ret _ (some e) => parenthesized "return" [e.text]

def Stmt.texts : List Stmt → List String
  | [] => []
  | s :: ss => s.text :: Stmt.texts ss

end

def programText (statements : List Stmt) : String := separated "\n" (Stmt.texts statements)

namespace Token

def Literal.text : Literal → String
  | .number x => Decimal.text x
  | .string s => s

def text (t : Token) : String :=
  t.kind.name ++ " " ++ t.lexeme ++ " " ++ (t.literal.map Literal.text).getD "null"

end Token

end Treewalk
