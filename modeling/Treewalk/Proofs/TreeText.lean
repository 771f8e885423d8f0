import Treewalk.Proofs.NumberText
import Treewalk.Proofs.TokenOrigins
import Treewalk.Proofs.TreeForms

namespace Treewalk

open Token (Kind)

noncomputable def Decimal.ofText (text : String) : Float :=
  Classical.epsilon fun x => x.isFinite = true ∧ Decimal.text x = text

theorem Decimal.ofText_text {x : Float} (finite : x.isFinite = true) :
    Decimal.ofText (Decimal.text x) = x := by
  have found := Classical.epsilon_spec
    (p := fun y : Float => y.isFinite = true ∧ Decimal.text y = Decimal.text x) ⟨x, finite, rfl⟩
  exact Decimal.text_injective found.1 finite found.2

namespace Form

def label : Form → String
  | word text | node text _ => text

/-- What starts with a letter is a constant or a name, and all else is a number. -/
noncomputable def exprOfWord (text : String) : Expr :=
  if text.toList.head?.any Lexeme.isLetter then
    if text = "nil" then .constant .nil
    else if text = "true" then .constant (.bool true)
    else if text = "false" then .constant (.bool false)
    else .var (.ofText text)
  else .constant (.number (Decimal.ofText text))

/-- The expression of a node, from its parts and what these are as expressions. A head that is no
word of its own is an operator. -/
def exprOfNode (head : String) (parts : List Form) (es : List Expr) : Expr :=
  if head = "group" then .group (es.getD 0 default)
  else if head = "=" then .assign (.ofText (parts.getD 0 default).label) (es.getD 1 default)
  else if head = "call" then .call (es.getD 0 default) (.ofText ")") es.tail
  else if es.length = 1 then .unary (.ofText head) (es.getD 0 default)
  else if (Token.ofText head).kind = .kwAnd ∨ (Token.ofText head).kind = .kwOr then
    .logical (es.getD 0 default) (.ofText head) (es.getD 1 default)
  else .binary (es.getD 0 default) (.ofText head) (es.getD 1 default)

mutual

noncomputable def expr : Form → Expr
  | word text => exprOfWord text
  | node head parts => exprOfNode head parts (exprs parts)

noncomputable def exprs : List Form → List Expr
  | [] => []
  | f :: fs => f.expr :: exprs fs

end

def names (f : Form) : List Token :=
  match f with
  | word _ => []
  | node head parts => if head = "" then [] else .ofText head :: parts.map fun f => .ofText f.label

def stmtOfNode (head : String) (parts : List Form) (es : List Expr) (ss : List Stmt) : Stmt :=
  if head = "expr" then .expression (es.getD 0 default)
  else if head = "print" then .print (.ofText "print") (es.getD 0 default)
  else if head = "var" then .varDecl (.ofText (parts.getD 0 default).label) es[1]?
  else if head = "block" then .block ss
  else if head = "if" then .ifElse (es.getD 0 default) (ss.getD 1 default) ss[2]?
  else if head = "while" then .whileLoop (es.getD 0 default) (ss.getD 1 default)
  else if head = "fun" then
    .funDecl (.ofText (parts.getD 0 default).label) (parts.getD 1 default).names (ss.drop 2)
  else .ret (.ofText "return") es.head?

mutual

noncomputable def stmt : Form → Stmt
  | word _ => default
  | node head parts => stmtOfNode head parts (exprs parts) (stmts parts)

noncomputable def stmts : List Form → List Stmt
  | [] => []
  | f :: fs => f.stmt :: stmts fs

end

end Form

mutual

def Expr.constants : Expr → List Constant
  | .constant k => [k]
  | .group e | .unary _ e | .assign _ e => e.constants
  | .binary left _ right | .logical left _ right => left.constants ++ right.constants
  | .var _ => []
  | .call callee _ args => callee.constants ++ Expr.constantsAll args

def Expr.constantsAll : List Expr → List Constant
  | [] => []
  | e :: es => e.constants ++ Expr.constantsAll es

end

mutual

def Stmt.constants : Stmt → List Constant
  | .expression e | .print _ e | .varDecl _ (some e) | .ret _ (some e) => e.constants
  | .varDecl _ none | .ret _ none => []
  | .block body | .funDecl _ _ body => Stmt.constantsAll body
  | .ifElse condition thenBranch none => condition.constants ++ thenBranch.constants
  | .ifElse condition thenBranch (some elseBranch) =>
    condition.constants ++ thenBranch.constants ++ elseBranch.constants
  | .whileLoop condition body => condition.constants ++ body.constants

def Stmt.constantsAll : List Stmt → List Constant
  | [] => []
  | s :: ss => s.constants ++ Stmt.constantsAll ss

end

def Code.constants : Code → List Constant
  | .expr e => e.constants
  | .exprs es => Expr.constantsAll es
  | .stmt s => s.constants
  | .stmts ss => Stmt.constantsAll ss

def Constant.Plain : Constant → Prop
  | .string _ => False
  | .number x => x.isFinite = true
  | .nil | .bool _ => True

instance : DecidablePred Constant.Plain
  | .string _ => inferInstanceAs (Decidable False)
  | .number x => inferInstanceAs (Decidable (x.isFinite = true))
  | .nil | .bool _ => inferInstanceAs (Decidable True)

/-- Code whose text says what it is: sound, of tokens cut from a source, with plain constants. -/
structure Code.Readable (c : Code) : Prop where
  formed : c.WellFormed
  cut : ∀ t ∈ c.tokens, t.kind ≠ .eof → t.Cut
  plain : ∀ k ∈ c.constants, k.Plain

theorem Code.Below.tokens_subset {c c' : Code} (below : c.Below c') : c'.tokens ⊆ c.tokens := by
  cases below with
  | part part => exact part.tokens_subset
  | block => exact List.Subset.refl _
  | body => exact List.subset_append_right _ _

theorem Code.Below.constants_subset {c c' : Code} (below : c.Below c') :
    c'.constants ⊆ c.constants := by
  cases below with
  | block | body => exact List.Subset.refl _
  | part part =>
    cases part with
    | @condition _ _ r | @thenBranch _ _ r => cases r <;> simp [Code.constants, Stmt.constants]
    | _ => simp [Code.constants, Expr.constants, Expr.constantsAll, Stmt.constants,
        Stmt.constantsAll]

theorem Code.Readable.child {c c' : Code} (readable : c.Readable) (below : c.Below c') :
    c'.Readable where
  formed := readable.formed.child below
  cut t member := readable.cut t (below.tokens_subset member)
  plain k member := readable.plain k (below.constants_subset member)

theorem Code.Readable.part {c c' : Code} (readable : c.Readable) (part : c.Part c') :
    c'.Readable := readable.child (.part part)

namespace Lexeme

theorem delimiters_apart {c : Char} (delimiter : c ∈ Form.delimiters) :
    ¬ Letter c ∧ ¬ Digit c ∧ c ≠ '.' ∧ c ≠ '-' := by
  simp only [Form.delimiters, List.mem_cons, List.not_mem_nil, or_false] at delimiter
  rcases delimiter with rfl | rfl | rfl | rfl <;> decide

theorem Spells.solid {text : List Char} {kind : Kind} (spelled : Spells text kind)
    (other : kind ∉ [.leftParen, .rightParen, .string]) : ∀ c ∈ text, c ∉ Form.delimiters := by
  intro c member delimiter
  obtain ⟨letter, digit, point, -⟩ := delimiters_apart delimiter
  cases spelled with
  | keyword first parts _ | identifier first parts _ =>
    rcases List.mem_cons.mp member with rfl | member
    · exact letter first
    · exact (parts c member).elim letter digit
  | whole first digits =>
    rcases List.mem_cons.mp member with rfl | member
    · exact digit first
    · exact digit (digits c member)
  | decimal first digits next fraction =>
    simp only [List.mem_cons, List.mem_append] at member
    rcases member with rfl | member | rfl | rfl | member
    · exact digit first
    · exact digit (digits c member)
    · exact point rfl
    · exact digit next
    · exact digit (fraction c member)
  | string => exact other (by decide)
  | @symbol d _ entry =>
    have table : ∀ entry ∈ symbols, entry.2 ∉ [Kind.leftParen, .rightParen, .string] →
        entry.1 ∉ Form.delimiters := by decide
    rw [List.mem_singleton.mp member] at delimiter
    exact table _ entry other delimiter
  | @double d _ entry =>
    have table : ∀ entry ∈ doubled, entry.1 ∉ Form.delimiters := by decide
    rcases List.mem_cons.mp member with rfl | member
    · exact table _ entry delimiter
    · rw [List.mem_singleton.mp member] at delimiter
      exact absurd delimiter (by decide)

theorem Spells.starts_letter {text : List Char} (spelled : Spells text .identifier) :
    text.head?.any isLetter = true := by
  generalize same : Kind.identifier = kind at spelled
  cases spelled with
  | keyword letter _ _ | identifier letter _ _ => exact isLetter_iff.mpr letter
  | symbol entry =>
    have table : ∀ entry ∈ symbols, entry.2 ≠ Kind.identifier := by decide
    exact absurd same.symm (table _ entry)
  | double entry =>
    have table : ∀ entry ∈ doubled, entry.2 ≠ Kind.identifier := by decide
    exact absurd same.symm (table _ entry)
  | _ => cases same

end Lexeme

theorem Token.Cut.lexeme_ne {t : Token} (cut : t.Cut) {text : String} {kind : Kind}
    (read : (Token.ofText text).kind = kind) (other : t.kind ≠ kind) : t.lexeme ≠ text := by
  rintro rfl
  rw [cut.ofText_lexeme] at read
  exact other read

theorem Token.Cut.ofText_kind {t : Token} (cut : t.Cut) {kind : Kind} {text : String}
    (same : t.kind = kind) (other : kind ∉ [.identifier, .number, .string])
    (only : ∀ entry ∈ Lexeme.fixedTexts, entry.2 = kind → entry.1 = text) :
    Token.ofText text = t.relaid nowhere := by
  rw [← cut.lexeme_eq same other only, cut.ofText_lexeme]

def operatorKinds : List Kind := .bang :: .kwAnd :: .kwOr :: binaryKinds

theorem operatorKinds_apart : ∀ kind ∈ operatorKinds, kind ≠ .eof ∧ kind ≠ .identifier ∧
    kind ≠ .equal ∧ kind ∉ [Kind.leftParen, .rightParen, .string] := by decide

theorem Code.Readable.operator {e : Expr} {op : Token} (readable : (Code.expr e).Readable)
    (node : (∃ a, e = .unary op a) ∨ ∃ a b, e = .binary a op b ∨ e = .logical a op b) :
    op.Cut ∧ op.kind ∈ operatorKinds := by
  have kind : op.kind ∈ operatorKinds := by
    have sound : e.Sound := readable.formed.sound
    rcases node with ⟨a, rfl⟩ | ⟨a, b, rfl | rfl⟩
    · rcases sound.1 with kind | kind <;> rw [kind] <;> decide
    · exact List.mem_cons_of_mem _ (List.mem_cons_of_mem _ (List.mem_cons_of_mem _ sound.1))
    · rcases sound.1 with kind | kind <;> rw [kind] <;> decide
  refine ⟨readable.cut op ?_ (operatorKinds_apart _ kind).1, kind⟩
  rcases node with ⟨a, rfl⟩ | ⟨a, b, rfl | rfl⟩ <;> simp [Code.tokens, Expr.tokens]

section Expressions

variable {name op : Token}

theorem exprOfWord_name (cut : name.Cut) (kind : name.kind = .identifier) :
    Form.exprOfWord name.lexeme = .var (name.relaid nowhere) := by
  have spelled := cut.spells
  rw [kind] at spelled
  have nil : name.lexeme ≠ "nil" :=
    cut.lexeme_ne (by decide +kernel) (kind.trans_ne (by decide : _ ≠ Kind.kwNil))
  have yes : name.lexeme ≠ "true" :=
    cut.lexeme_ne (by decide +kernel) (kind.trans_ne (by decide : _ ≠ Kind.kwTrue))
  have no : name.lexeme ≠ "false" :=
    cut.lexeme_ne (by decide +kernel) (kind.trans_ne (by decide : _ ≠ Kind.kwFalse))
  rw [Form.exprOfWord, if_pos spelled.starts_letter, if_neg nil, if_neg yes, if_neg no,
    cut.ofText_lexeme]

theorem exprOfWord_constant {k : Constant} (plain : k.Plain) :
    Form.exprOfWord k.text = .constant k := by
  cases k with
  | nil => rfl
  | bool b => cases b <;> rfl
  | string s => exact absurd plain id
  | number x =>
    obtain ⟨-, c, cs, whole, first⟩ := Decimal.text_form plain
    have digits : ¬ (Decimal.text x).toList.head?.any Lexeme.isLetter = true := by
      rw [whole]
      rintro letter
      rcases first with digit | sign
      · exact (Lexeme.isDigit_iff.mp digit).not_letter (Lexeme.isLetter_iff.mp letter)
      · rw [sign] at letter
        cases letter
    rw [Constant.text, Form.exprOfWord, if_neg digits, Decimal.ofText_text plain]

theorem exprOfNode_operator (cut : op.Cut) (kind : op.kind ∈ operatorKinds) (parts : List Form)
    (es : List Expr) :
    Form.exprOfNode op.lexeme parts es =
      if es.length = 1 then .unary (op.relaid nowhere) (es.getD 0 default)
      else if op.kind = .kwAnd ∨ op.kind = .kwOr then
        .logical (es.getD 0 default) (op.relaid nowhere) (es.getD 1 default)
      else .binary (es.getD 0 default) (op.relaid nowhere) (es.getD 1 default) := by
  obtain ⟨-, name, equal, -⟩ := operatorKinds_apart op.kind kind
  have group : op.lexeme ≠ "group" := cut.lexeme_ne (by decide +kernel) name
  have assign : op.lexeme ≠ "=" := cut.lexeme_ne (by decide +kernel) equal
  have call : op.lexeme ≠ "call" := cut.lexeme_ne (by decide +kernel) name
  rw [Form.exprOfNode, if_neg group, if_neg assign, if_neg call, cut.ofText_lexeme]
  rfl

end Expressions

mutual

theorem Expr.expr_form (e : Expr) (readable : (Code.expr e).Readable) :
    e.form.expr = e.relaid nowhere := by
  cases e with
  | constant k => exact exprOfWord_constant (readable.plain k List.mem_cons_self)
  | group inner =>
    have read := Expr.expr_form inner (readable.part .group)
    simp [Expr.form, Form.expr, Form.exprs, Form.exprOfNode, read, Expr.relaid]
  | unary op operand =>
    have read := Expr.expr_form operand (readable.part .operand)
    obtain ⟨cut, kind⟩ := readable.operator (.inl ⟨_, rfl⟩)
    rw [Expr.form, Form.expr, exprOfNode_operator cut kind]
    simp [Form.exprs, read, Expr.relaid]
  | binary left op right =>
    have readL := Expr.expr_form left (readable.part .left)
    have readR := Expr.expr_form right (readable.part .right)
    obtain ⟨cut, kind⟩ := readable.operator (.inr ⟨_, _, .inl rfl⟩)
    have both : ∀ kind ∈ binaryKinds, ¬ (kind = .kwAnd ∨ kind = .kwOr) := by decide
    rw [Expr.form, Form.expr, exprOfNode_operator cut kind, if_neg (by simp [Form.exprs]),
      if_neg (both _ readable.formed.sound.1)]
    simp [Form.exprs, readL, readR, Expr.relaid]
  | logical left op right =>
    have readL := Expr.expr_form left (readable.part .first)
    have readR := Expr.expr_form right (readable.part .second)
    obtain ⟨cut, kind⟩ := readable.operator (.inr ⟨_, _, .inr rfl⟩)
    rw [Expr.form, Form.expr, exprOfNode_operator cut kind, if_neg (by simp [Form.exprs]),
      if_pos readable.formed.sound.1]
    simp [Form.exprs, readL, readR, Expr.relaid]
  | var name =>
    have kind : name.kind = .identifier := readable.formed.sound
    have cut := readable.cut name (by simp [Code.tokens, Expr.tokens]) (by simp [kind])
    exact exprOfWord_name cut kind
  | assign name value =>
    have read := Expr.expr_form value (readable.part .assigned)
    have kind : name.kind = .identifier := readable.formed.sound
    have cut := readable.cut name (by simp [Code.tokens, Expr.tokens]) (by simp [kind])
    simp [Expr.form, Form.expr, Form.exprs, Form.exprOfNode, Form.label, read, Expr.relaid,
      cut.ofText_lexeme]
  | call callee paren args =>
    have read := Expr.expr_form callee (readable.part .callee)
    have reads := Expr.exprs_forms args (readable.part .args)
    have kind : paren.kind = .rightParen := readable.formed.sound.1
    have cut := readable.cut paren (by simp [Code.tokens, Expr.tokens]) (by simp [kind])
    have closed : Token.ofText ")" = paren.relaid nowhere :=
      cut.ofText_kind kind (by decide) (by decide +kernel)
    simp [Expr.form, Form.expr, Form.exprs, Form.exprOfNode, read, reads, Expr.relaid, closed]

theorem Expr.exprs_forms (es : List Expr) (readable : (Code.exprs es).Readable) :
    Form.exprs (Expr.forms es) = es.map (Expr.relaid nowhere) := by
  cases es with
  | nil => rfl
  | cons e es =>
    rw [Expr.forms, Form.exprs, Expr.expr_form e (readable.part .firstExpr),
      Expr.exprs_forms es (readable.part .restExprs), List.map_cons]

end

theorem Form.names_ofNames {names : List Token} (cut : ∀ name ∈ names, name.Cut) :
    (Form.ofNames names).names = names.map (Token.relaid nowhere) := by
  cases names with
  | nil => rfl
  | cons name names =>
    obtain ⟨first, rest⟩ := List.forall_mem_cons.mp cut
    have named : name.lexeme ≠ "" := by
      intro empty
      exact first.spells.ne_nil (by rw [empty]; rfl)
    have others : ∀ name ∈ names, Token.ofText name.lexeme = name.relaid nowhere :=
      fun name member => (rest name member).ofText_lexeme
    simpa [Form.ofNames, Form.names, named, first.ofText_lexeme, Form.label] using others

mutual

theorem Stmt.stmt_form (s : Stmt) (readable : (Code.stmt s).Readable) :
    s.form.stmt = s.relaid nowhere := by
  cases s with
  | expression value =>
    have read := Expr.expr_form value (readable.part .evaluated)
    simp [Stmt.form, Form.stmt, Form.stmtOfNode, Form.exprs, read, Stmt.relaid]
  | print keyword value =>
    have read := Expr.expr_form value (readable.part .printed)
    have kind : keyword.kind = .kwPrint := readable.formed.sound
    have cut := readable.cut keyword (by simp [Code.tokens, Stmt.tokens]) (by simp [kind])
    have word : Token.ofText "print" = keyword.relaid nowhere :=
      cut.ofText_kind kind (by decide) (by decide +kernel)
    simp [Stmt.form, Form.stmt, Form.stmtOfNode, Form.exprs, read, Stmt.relaid, word]
  | varDecl name initial =>
    have kind : name.kind = .identifier := readable.formed.sound
    have cut := readable.cut name (by cases initial <;> simp [Code.tokens, Stmt.tokens])
      (by simp [kind])
    cases initial with
    | none =>
      simp [Stmt.form, Form.stmt, Form.stmtOfNode, Form.exprs, Form.label, Stmt.relaid,
        cut.ofText_lexeme]
    | some e =>
      have read := Expr.expr_form e (readable.part .initial)
      simp [Stmt.form, Form.stmt, Form.stmtOfNode, Form.exprs, Form.label, Stmt.relaid,
        cut.ofText_lexeme, read]
  | block body =>
    have reads := Stmt.stmts_forms body (readable.child .block)
    simp [Stmt.form, Form.stmt, Form.stmtOfNode, reads, Stmt.relaid]
  | ifElse condition thenBranch elseBranch =>
    have test := Expr.expr_form condition (readable.part .condition)
    have first := Stmt.stmt_form thenBranch (readable.part .thenBranch)
    cases elseBranch with
    | none =>
      simp [Stmt.form, Form.stmt, Form.stmtOfNode, Form.exprs, Form.stmts, test, first,
        Stmt.relaid]
    | some elseBranch =>
      have second := Stmt.stmt_form elseBranch (readable.part .elseBranch)
      simp [Stmt.form, Form.stmt, Form.stmtOfNode, Form.exprs, Form.stmts, test, first, second,
        Stmt.relaid]
  | whileLoop condition body =>
    have test := Expr.expr_form condition (readable.part .test)
    have read := Stmt.stmt_form body (readable.part .body)
    simp [Stmt.form, Form.stmt, Form.stmtOfNode, Form.exprs, Form.stmts, test, read, Stmt.relaid]
  | funDecl name params body =>
    have reads := Stmt.stmts_forms body (readable.child .body)
    have kinds : name.kind = .identifier ∧ ∀ p ∈ params, p.kind = .identifier :=
      readable.formed.sound
    have cut := readable.cut name (by simp [Code.tokens, Stmt.tokens]) (by simp [kinds.1])
    have listed : ∀ p ∈ params, p.Cut := fun p member => readable.cut p
      (by simp [Code.tokens, Stmt.tokens, member]) (by simp [kinds.2 p member])
    have names := Form.names_ofNames listed
    simp [Stmt.form, Form.stmt, Form.stmtOfNode, Form.stmts, Form.label, reads, names,
      cut.ofText_lexeme, Stmt.relaid]
  | ret keyword value =>
    have kind : keyword.kind = .kwReturn := readable.formed.sound
    have cut := readable.cut keyword (by cases value <;> simp [Code.tokens, Stmt.tokens])
      (by simp [kind])
    have word : Token.ofText "return" = keyword.relaid nowhere :=
      cut.ofText_kind kind (by decide) (by decide +kernel)
    cases value with
    | none => simp [Stmt.form, Form.stmt, Form.stmtOfNode, Form.exprs, Stmt.relaid, word]
    | some e =>
      have read := Expr.expr_form e (readable.part .returned)
      simp [Stmt.form, Form.stmt, Form.stmtOfNode, Form.exprs, Stmt.relaid, word, read]

theorem Stmt.stmts_forms (ss : List Stmt) (readable : (Code.stmts ss).Readable) :
    Form.stmts (Stmt.forms ss) = ss.map (Stmt.relaid nowhere) := by
  cases ss with
  | nil => rfl
  | cons s ss =>
    rw [Stmt.forms, Form.stmts, Stmt.stmt_form s (readable.part .firstStmt),
      Stmt.stmts_forms ss (readable.part .restStmts), List.map_cons]

end

theorem Constant.solid {k : Constant} (plain : k.Plain) : Form.Solid k.text := by
  cases k with
  | nil => decide
  | bool b => cases b <;> decide
  | string s => exact absurd plain id
  | number x =>
    intro c member delimiter
    obtain ⟨-, digit, point, sign⟩ := Lexeme.delimiters_apart delimiter
    rcases (Decimal.text_form plain).1 c member with here | here | here
    · exact digit (Lexeme.isDigit_iff.mp here)
    · exact point here
    · exact sign here

theorem Code.Readable.name_solid {c : Code} {name : Token} (readable : c.Readable)
    (member : name ∈ c.tokens) (kind : name.kind = .identifier) : Form.Solid name.lexeme :=
  (readable.cut name member (by simp [kind])).spells.solid (by simp [kind])

mutual

theorem Expr.form_plain (e : Expr) (readable : (Code.expr e).Readable) : e.form.Plain := by
  cases e with
  | constant k => exact Constant.solid (readable.plain k List.mem_cons_self)
  | group inner => exact ⟨by decide, Expr.form_plain inner (readable.part .group), trivial⟩
  | unary op operand =>
    obtain ⟨cut, kind⟩ := readable.operator (.inl ⟨_, rfl⟩)
    exact ⟨cut.spells.solid (operatorKinds_apart _ kind).2.2.2,
      Expr.form_plain operand (readable.part .operand), trivial⟩
  | binary left op right =>
    obtain ⟨cut, kind⟩ := readable.operator (.inr ⟨_, _, .inl rfl⟩)
    exact ⟨cut.spells.solid (operatorKinds_apart _ kind).2.2.2,
      Expr.form_plain left (readable.part .left), Expr.form_plain right (readable.part .right),
      trivial⟩
  | logical left op right =>
    obtain ⟨cut, kind⟩ := readable.operator (.inr ⟨_, _, .inr rfl⟩)
    exact ⟨cut.spells.solid (operatorKinds_apart _ kind).2.2.2,
      Expr.form_plain left (readable.part .first), Expr.form_plain right (readable.part .second),
      trivial⟩
  | var name =>
    exact readable.name_solid (by simp [Code.tokens, Expr.tokens]) readable.formed.sound
  | assign name value =>
    exact ⟨by decide,
      readable.name_solid (by simp [Code.tokens, Expr.tokens]) readable.formed.sound,
      Expr.form_plain value (readable.part .assigned), trivial⟩
  | call callee paren args =>
    exact ⟨by decide, Expr.form_plain callee (readable.part .callee),
      Expr.forms_plain args (readable.part .args)⟩

theorem Expr.forms_plain (es : List Expr) (readable : (Code.exprs es).Readable) :
    Form.PlainAll (Expr.forms es) := by
  cases es with
  | nil => trivial
  | cons e es =>
    exact ⟨Expr.form_plain e (readable.part .firstExpr),
      Expr.forms_plain es (readable.part .restExprs)⟩

end

theorem Form.ofNames_plain {names : List Token} (solid : ∀ name ∈ names, Form.Solid name.lexeme) :
    (Form.ofNames names).Plain := by
  have words (names : List Token) (solid : ∀ name ∈ names, Form.Solid name.lexeme) :
      Form.PlainAll (names.map fun name => .word name.lexeme) := by
    induction names with
    | nil => trivial
    | cons name names ih =>
      obtain ⟨first, rest⟩ := List.forall_mem_cons.mp solid
      exact ⟨first, ih rest⟩
  cases names with
  | nil => exact ⟨by decide, trivial⟩
  | cons name names =>
    obtain ⟨first, rest⟩ := List.forall_mem_cons.mp solid
    exact ⟨first, words names rest⟩

mutual

theorem Stmt.form_plain (s : Stmt) (readable : (Code.stmt s).Readable) : s.form.Plain := by
  cases s with
  | expression value =>
    exact ⟨by decide, Expr.form_plain value (readable.part .evaluated), trivial⟩
  | print keyword value =>
    exact ⟨by decide, Expr.form_plain value (readable.part .printed), trivial⟩
  | varDecl name initial =>
    have solid : Form.Solid name.lexeme := readable.name_solid
      (by cases initial <;> simp [Code.tokens, Stmt.tokens]) readable.formed.sound
    cases initial with
    | none => exact ⟨by decide, solid, trivial⟩
    | some e => exact ⟨by decide, solid, Expr.form_plain e (readable.part .initial), trivial⟩
  | block body => exact ⟨by decide, Stmt.forms_plain body (readable.child .block)⟩
  | ifElse condition thenBranch elseBranch =>
    have test := Expr.form_plain condition (readable.part .condition)
    have first := Stmt.form_plain thenBranch (readable.part .thenBranch)
    cases elseBranch with
    | none => exact ⟨by decide, test, first, trivial⟩
    | some elseBranch =>
      exact ⟨by decide, test, first, Stmt.form_plain elseBranch (readable.part .elseBranch),
        trivial⟩
  | whileLoop condition body =>
    exact ⟨by decide, Expr.form_plain condition (readable.part .test),
      Stmt.form_plain body (readable.part .body), trivial⟩
  | funDecl name params body =>
    have kinds : name.kind = .identifier ∧ ∀ p ∈ params, p.kind = .identifier :=
      readable.formed.sound
    have listed : ∀ p ∈ params, Form.Solid p.lexeme := fun p member =>
      readable.name_solid (by simp [Code.tokens, Stmt.tokens, member]) (kinds.2 p member)
    exact ⟨by decide, readable.name_solid (by simp [Code.tokens, Stmt.tokens]) kinds.1,
      Form.ofNames_plain listed, Stmt.forms_plain body (readable.child .body)⟩
  | ret keyword value =>
    cases value with
    | none => exact ⟨by decide, trivial⟩
    | some e => exact ⟨by decide, Expr.form_plain e (readable.part .returned), trivial⟩

theorem Stmt.forms_plain (ss : List Stmt) (readable : (Code.stmts ss).Readable) :
    Form.PlainAll (Stmt.forms ss) := by
  cases ss with
  | nil => trivial
  | cons s ss =>
    exact ⟨Stmt.form_plain s (readable.part .firstStmt),
      Stmt.forms_plain ss (readable.part .restStmts)⟩

end

theorem Stmt.form_chars_ne_nil (s : Stmt) : s.form.chars ≠ [] := by
  cases s with
  | varDecl name initial => cases initial <;> exact List.cons_ne_nil _ _
  | ifElse condition thenBranch elseBranch => cases elseBranch <;> exact List.cons_ne_nil _ _
  | ret keyword value => cases value <;> exact List.cons_ne_nil _ _
  | _ => exact List.cons_ne_nil _ _

theorem forms_eq_of_programText {ss rs : List Stmt} (plainS : Form.PlainAll (Stmt.forms ss))
    (plainR : Form.PlainAll (Stmt.forms rs)) (same : programText ss = programText rs) :
    Stmt.forms ss = Stmt.forms rs := by
  have chars := congrArg String.toList same
  cases ss with
  | nil =>
    cases rs with
    | nil => rfl
    | cons r rs =>
      rw [programText_nil, programText_cons] at chars
      exact absurd (List.append_eq_nil_iff.mp chars.symm).1 r.form_chars_ne_nil
  | cons s ss =>
    rw [programText_cons] at chars
    cases rs with
    | nil =>
      rw [programText_nil] at chars
      exact absurd (List.append_eq_nil_iff.mp chars).1 s.form_chars_ne_nil
    | cons r rs =>
      rw [programText_cons] at chars
      obtain ⟨first, rest⟩ := Form.chars_inj _ _ plainS.1 plainR.1 (Form.stops_lines _)
        (Form.stops_lines _) chars
      rw [Stmt.forms, Stmt.forms, first, Form.lines_inj plainS.2 plainR.2 rest]

theorem parseSource_readable {source : String}
    (plain : ∀ k ∈ Stmt.constantsAll (parseSource source).statements, k.Plain) :
    (Code.stmts (parseSource source).statements).Readable where
  formed := parse_wellFormed (scan source).tokens
  cut _ member inner := parseSource_cut member inner
  plain := plain

/-- The text of a program is unambiguous. What is recovered from two sources, without strings and
with finite numbers only, has the same text exactly when it is the same but for the places of its
tokens. -/
theorem program_text_tells_trees {a b : String}
    (plainA : ∀ k ∈ Stmt.constantsAll (parseSource a).statements, k.Plain)
    (plainB : ∀ k ∈ Stmt.constantsAll (parseSource b).statements, k.Plain) :
    programText (parseSource a).statements = programText (parseSource b).statements ↔
      (parseSource a).statements.map (Stmt.relaid nowhere) =
        (parseSource b).statements.map (Stmt.relaid nowhere) := by
  have readableA := parseSource_readable plainA
  have readableB := parseSource_readable plainB
  constructor
  · intro same
    have forms := forms_eq_of_programText (Stmt.forms_plain _ readableA)
      (Stmt.forms_plain _ readableB) same
    rw [← Stmt.stmts_forms _ readableA, ← Stmt.stmts_forms _ readableB, forms]
  · intro same
    have texts := congrArg Stmt.texts same
    rw [Stmt.texts_relaid, Stmt.texts_relaid] at texts
    rw [programText, programText, texts]

/-- A variable named like a head, a minus of each kind, a number written in two ways, and errors
that are recovered from. -/
theorem program_text_tells_trees_recovered :
    let a := "var group = -(1.5 - call(x)); 1 +; if (x) return; else \x7b\x7d"
    let b := "@ var group=\n-(01.50-call(x)); // c\nif(x)\nreturn; else\x7b\x7d )"
    programText (parseSource a).statements =
      "(var group (- (group (- 1.5 (call call x)))))\n(if x (return) (block))" ∧
    (parseSource a).statements.map (Stmt.relaid nowhere) =
      (parseSource b).statements.map (Stmt.relaid nowhere) := by
  intro a b
  have text : programText (parseSource a).statements =
      "(var group (- (group (- 1.5 (call call x)))))\n(if x (return) (block))" := by
    decide +kernel
  have other : programText (parseSource b).statements =
      "(var group (- (group (- 1.5 (call call x)))))\n(if x (return) (block))" := by
    decide +kernel
  have trees := program_text_tells_trees (a := a) (b := b) (by decide +kernel) (by decide +kernel)
  exact ⟨text, trees.mp (text.trans other.symm)⟩

end Treewalk
