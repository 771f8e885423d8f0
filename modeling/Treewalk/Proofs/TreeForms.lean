import Treewalk.Proofs.PrefixForms
import Treewalk.Proofs.Relaid

namespace Treewalk

def Form.ofNames : List Token → Form
  | [] => .node "" []
  | name :: names => .node name.lexeme (names.map fun name => .word name.lexeme)

mutual

def Expr.form : Expr → Form
  | .constant value => .word value.text
  | .group inner => .node "group" [inner.form]
  | .unary op operand => .node op.lexeme [operand.form]
  | .binary left op right => .node op.lexeme [left.form, right.form]
  | .logical left op right => .node op.lexeme [left.form, right.form]
  | .var name => .word name.lexeme
  | .assign name value => .node "=" [.word name.lexeme, value.form]
  | .call callee _ args => .node "call" (callee.form :: Expr.forms args)

def Expr.forms : List Expr → List Form
  | [] => []
  | e :: es => e.form :: Expr.forms es

end

mutual

def Stmt.form : Stmt → Form
  | .expression value => .node "expr" [value.form]
  | .print _ value => .node "print" [value.form]
  | .varDecl name none => .node "var" [.word name.lexeme]
  | .varDecl name (some e) => .node "var" [.word name.lexeme, e.form]
  | .block body => .node "block" (Stmt.forms body)
  | .ifElse c t none => .node "if" [c.form, t.form]
  | .ifElse c t (some e) => .node "if" [c.form, t.form, e.form]
  | .whileLoop c body => .node "while" [c.form, body.form]
  | .funDecl name params body =>
    .node "fun" (.word name.lexeme :: .ofNames params :: Stmt.forms body)
  | .ret _ none => .node "return" []
  | .ret _ (some e) => .node "return" [e.form]

def Stmt.forms : List Stmt → List Form
  | [] => []
  | s :: ss => s.form :: Stmt.forms ss

end

theorem appendEach_toList (mark start : String) (parts : List String) :
    (appendEach mark start parts).toList =
      start.toList ++ parts.flatMap fun part => mark.toList ++ part.toList := by
  induction parts generalizing start with
  | nil => simp [appendEach]
  | cons part parts ih =>
    have later := ih (start ++ mark ++ part)
    rw [appendEach] at later ⊢
    rw [List.foldl_cons, later]
    simp

namespace Form

theorem charsAll_eq (fs : List Form) : charsAll fs = (fs.map chars).flatMap (' ' :: ·) := by
  induction fs with
  | nil => rfl
  | cons f fs ih => rw [charsAll, ih, List.map_cons, List.flatMap_cons, List.cons_append]

theorem node_text {head : String} {fs : List Form} {texts : List String}
    (parts : fs.map chars = texts.map String.toList) :
    (node head fs).chars = (parenthesized head texts).toList := by
  rw [chars, charsAll_eq, parts, parenthesized, String.toList_append, appendEach_toList,
    List.flatMap_map]
  simp

theorem ofNames_text (names : List Token) :
    (ofNames names).chars = ("(" ++ separated " " (names.map Token.lexeme) ++ ")").toList := by
  cases names with
  | nil => decide
  | cons name names =>
    simp only [ofNames, chars, charsAll_eq, List.map_cons, separated, String.toList_append,
      appendEach_toList]
    simp [List.flatMap_map, chars]

end Form

mutual

theorem Expr.form_text (e : Expr) : e.form.chars = e.text.toList := by
  cases e with
  | constant value => rfl
  | group inner => exact Form.node_text (by simp [Expr.form_text inner])
  | unary op operand => exact Form.node_text (by simp [Expr.form_text operand])
  | binary left op right =>
    exact Form.node_text (by simp [Expr.form_text left, Expr.form_text right])
  | logical left op right =>
    exact Form.node_text (by simp [Expr.form_text left, Expr.form_text right])
  | var name => rfl
  | assign name value => exact Form.node_text (by simp [Expr.form_text value, Form.chars])
  | call callee paren args =>
    exact Form.node_text (by simp [Expr.form_text callee, Expr.forms_text args])

theorem Expr.forms_text (es : List Expr) :
    (Expr.forms es).map Form.chars = (Expr.texts es).map String.toList := by
  cases es with
  | nil => rfl
  | cons e es => simp [Expr.forms, Expr.texts, Expr.form_text e, Expr.forms_text es]

end

mutual

theorem Stmt.form_text (s : Stmt) : s.form.chars = s.text.toList := by
  cases s with
  | expression value => exact Form.node_text (by simp [Expr.form_text])
  | print keyword value => exact Form.node_text (by simp [Expr.form_text])
  | varDecl name initial =>
    cases initial with
    | none => exact Form.node_text (by simp [Form.chars])
    | some e => exact Form.node_text (by simp [Form.chars, Expr.form_text])
  | block body => exact Form.node_text (Stmt.forms_text body)
  | ifElse condition thenBranch elseBranch =>
    cases elseBranch with
    | none => exact Form.node_text (by simp [Expr.form_text, Stmt.form_text thenBranch])
    | some elseBranch =>
      exact Form.node_text (by
        simp [Expr.form_text, Stmt.form_text thenBranch, Stmt.form_text elseBranch])
  | whileLoop condition body =>
    exact Form.node_text (by simp [Expr.form_text, Stmt.form_text body])
  | funDecl name params body =>
    refine Form.node_text ?_
    simp only [List.map_cons, Form.ofNames_text, Stmt.forms_text body]
    rfl
  | ret keyword value =>
    cases value with
    | none => exact Form.node_text rfl
    | some e => exact Form.node_text (by simp [Expr.form_text])

theorem Stmt.forms_text (ss : List Stmt) :
    (Stmt.forms ss).map Form.chars = (Stmt.texts ss).map String.toList := by
  cases ss with
  | nil => rfl
  | cons s ss => simp [Stmt.forms, Stmt.texts, Stmt.form_text s, Stmt.forms_text ss]

end

theorem programText_nil : (programText []).toList = [] := rfl

theorem programText_cons (s : Stmt) (ss : List Stmt) :
    (programText (s :: ss)).toList = s.form.chars ++ Form.lines (Stmt.forms ss) := by
  rw [programText, Stmt.texts, separated, appendEach_toList, Stmt.form_text, Form.lines,
    Stmt.forms_text, List.flatMap_map]
  rfl

mutual

theorem Expr.text_relaid (g : Place → Place) (e : Expr) : (e.relaid g).text = e.text := by
  cases e with
  | constant k => rfl
  | group inner => simp [Expr.relaid, Expr.text, Expr.text_relaid g inner]
  | unary op operand =>
    simp [Expr.relaid, Expr.text, Expr.text_relaid g operand, Token.relaid]
  | binary left op right =>
    simp [Expr.relaid, Expr.text, Expr.text_relaid g left, Expr.text_relaid g right, Token.relaid]
  | logical left op right =>
    simp [Expr.relaid, Expr.text, Expr.text_relaid g left, Expr.text_relaid g right, Token.relaid]
  | var name => rfl
  | assign name value => simp [Expr.relaid, Expr.text, Expr.text_relaid g value, Token.relaid]
  | call callee paren args =>
    have rest := Expr.texts_relaid g args
    simp [Expr.relaid, Expr.text, Expr.text_relaid g callee, rest]

theorem Expr.texts_relaid (g : Place → Place) (es : List Expr) :
    Expr.texts (es.map (Expr.relaid g)) = Expr.texts es := by
  cases es with
  | nil => rfl
  | cons e es => simp [Expr.texts, Expr.text_relaid g e, Expr.texts_relaid g es]

end

mutual

theorem Stmt.text_relaid (g : Place → Place) (s : Stmt) : (s.relaid g).text = s.text := by
  cases s with
  | expression value => simp [Stmt.relaid, Stmt.text, Expr.text_relaid]
  | print keyword value => simp [Stmt.relaid, Stmt.text, Expr.text_relaid]
  | varDecl name initial =>
    cases initial <;> simp [Stmt.relaid, Stmt.text, Expr.text_relaid, Token.relaid]
  | block body => simp [Stmt.relaid, Stmt.text, Stmt.texts_relaid g body]
  | ifElse condition thenBranch elseBranch =>
    cases elseBranch with
    | none => simp [Stmt.relaid, Stmt.text, Expr.text_relaid, Stmt.text_relaid g thenBranch]
    | some elseBranch =>
      simp [Stmt.relaid, Stmt.text, Expr.text_relaid, Stmt.text_relaid g thenBranch,
        Stmt.text_relaid g elseBranch]
  | whileLoop condition body =>
    simp [Stmt.relaid, Stmt.text, Expr.text_relaid, Stmt.text_relaid g body]
  | funDecl name params body =>
    have lexemes : (params.map (Token.relaid g)).map Token.lexeme = params.map Token.lexeme :=
      List.map_map
    rw [Stmt.relaid, Stmt.text, Stmt.text, lexemes, Stmt.relaidAll_eq, Stmt.texts_relaid g body]
    rfl
  | ret keyword value => cases value <;> simp [Stmt.relaid, Stmt.text, Expr.text_relaid]

theorem Stmt.texts_relaid (g : Place → Place) (ss : List Stmt) :
    Stmt.texts (ss.map (Stmt.relaid g)) = Stmt.texts ss := by
  cases ss with
  | nil => rfl
  | cons s ss => simp [Stmt.texts, Stmt.text_relaid g s, Stmt.texts_relaid g ss]

end

end Treewalk
