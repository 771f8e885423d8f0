import Treewalk.Proofs.Rescanning
import Treewalk.Proofs.TreeTokens
import Treewalk.Proofs.WellFormedTrees

namespace Treewalk

open Grammar
open Token (Kind)

theorem Expr.tokensAll_append (es fs : List Expr) :
    Expr.tokensAll (es ++ fs) = Expr.tokensAll es ++ Expr.tokensAll fs := by
  induction es with
  | nil => rfl
  | cons e es ih => rw [List.cons_append, Expr.tokensAll, ih, Expr.tokensAll, List.append_assoc]

theorem Stmt.tokensAll_append (ss rs : List Stmt) :
    Stmt.tokensAll (ss ++ rs) = Stmt.tokensAll ss ++ Stmt.tokensAll rs := by
  induction ss with
  | nil => rfl
  | cons s ss ih => rw [List.cons_append, Stmt.tokensAll, ih, Stmt.tokensAll, List.append_assoc]

theorem node_tokens {op : Token} {shape : Shape} (row : shape? op.kind = some shape) (a b : Expr) :
    (shape.node a op b).tokens = a.tokens ++ op :: b.tokens := by
  cases kind : op.kind <;> rw [kind] at row <;> cases row <;> rfl

def Grammar.Phrase.tokens : Phrase → List Token
  | .expr _ e => e.tokens
  | .args es => Expr.tokensAll es

theorem derives_tokens {rules : Rules} {phrase : Phrase} {w : List Token}
    (derives : Derives rules phrase w) : phrase.tokens ⊆ w := by
  induction derives with
  | atom atom => cases atom <;> simp [Phrase.tokens, Expr.tokens]
  | twoSided row _ _ left right =>
    rw [Phrase.tokens, node_tokens row]
    simp only [Phrase.tokens] at left right
    grind
  | moreArgs _ _ _ args inner =>
    rw [Phrase.tokens, Expr.tokensAll_append]
    simp only [Phrase.tokens] at args inner
    simp only [Expr.tokensAll]
    grind
  | _ =>
    simp only [Phrase.tokens, Expr.tokens, Expr.tokensAll] at *
    grind

section Statements

variable {rules : Rules} {w : List Token}

theorem optional_tokens {e : Expr} {value : Option Expr} (given : Optional rules value w)
    (member : e ∈ value) : e.tokens ⊆ w := by
  cases given with
  | absent => cases member
  | present derives =>
    cases member
    exact derives_tokens derives

theorem variable_tokens {s : Stmt} (declares : Variable rules s w) : s.tokens ⊆ w := by
  cases declares with
  | bare => simp [Stmt.tokens]
  | set _ _ _ value _ =>
    have inner := derives_tokens value
    simp only [Phrase.tokens, Stmt.tokens] at *
    grind

theorem initial_tokens {s : Stmt} {initial : Option Stmt} (first : Initial rules initial w)
    (member : s ∈ initial) : s.tokens ⊆ w := by
  cases first with
  | absent => cases member
  | declared declares =>
    cases member
    exact variable_tokens declares
  | expression value _ =>
    cases member
    exact List.Subset.trans (derives_tokens value) (List.subset_append_left _ _)

theorem names_subset {names : List Token} (listed : Names names w) : names ⊆ w := by
  induction listed with
  | one => exact List.Subset.refl _
  | more _ _ _ ih => grind

theorem forLoop_tokens {t : Token} {initial : Option Stmt} {c : Expr} {increment : Option Expr}
    {s : Stmt} (member : t ∈ (Parse.forLoop initial c increment s).tokens) :
    (∃ r ∈ initial, t ∈ r.tokens) ∨ t ∈ c.tokens ∨ (∃ e ∈ increment, t ∈ e.tokens) ∨
      t ∈ s.tokens := by
  cases initial <;> cases increment <;>
    simp only [Parse.forLoop, Stmt.tokens, Stmt.tokensAll] at member <;> grind

def Grammar.Clause.tokens : Clause → List Token
  | .statement _ _ s | .declaration _ s => s.tokens
  | .declarations _ ss => Stmt.tokensAll ss

theorem forms_tokens {clause : Clause} (forms : Forms rules clause w) : clause.tokens ⊆ w := by
  induction forms with
  | expression value _ =>
    have inner := derives_tokens value
    simp only [Phrase.tokens, Clause.tokens, Stmt.tokens] at *
    grind
  | print _ value _ =>
    have inner := derives_tokens value
    simp only [Phrase.tokens, Clause.tokens, Stmt.tokens] at *
    grind
  | @ret _ _ _ _ e _ _ value _ =>
    cases e with
    | none => simp [Clause.tokens, Stmt.tokens]
    | some e =>
      have inner := optional_tokens value rfl
      simp only [Clause.tokens, Stmt.tokens] at *
      grind
  | whileLoop _ _ condition _ _ body =>
    have inner := derives_tokens condition
    simp only [Phrase.tokens, Clause.tokens, Stmt.tokens] at *
    grind
  | @forLoop _ _ _ _ _ _ _ _ _ _ _ condition _ _ _ _ first second _ third _ _ body =>
    -- The tree is not made of the clauses alone, so its tokens are traced to them one by one.
    intro t member
    have test : t ∈ (condition.getD (.constant (.bool true))).tokens →
        ∃ e ∈ condition, t ∈ e.tokens := by
      cases condition with
      | none => exact fun never => absurd never List.not_mem_nil
      | some e => exact fun member => ⟨e, rfl, member⟩
    simp only [Clause.tokens] at member body
    rcases forLoop_tokens member with ⟨r, given, member⟩ | member | ⟨e, given, member⟩ | member
    · have := initial_tokens first given member
      grind
    · obtain ⟨e, given, member⟩ := test member
      have := optional_tokens second given member
      grind
    · have := optional_tokens third given member
      grind
    · have := body member
      grind
  | ifThen _ _ condition _ _ body =>
    have inner := derives_tokens condition
    simp only [Phrase.tokens, Clause.tokens, Stmt.tokens] at *
    grind
  | ifElse _ _ condition _ _ _ _ first second =>
    have inner := derives_tokens condition
    simp only [Phrase.tokens, Clause.tokens, Stmt.tokens] at *
    grind
  | function _ _ _ listed _ _ _ _ body =>
    cases listed with
    | empty =>
      simp only [Clause.tokens, Stmt.tokens] at *
      grind
    | listed names _ =>
      have inner := names_subset names
      simp only [Clause.tokens, Stmt.tokens] at *
      grind
  | declared declares => exact variable_tokens declares
  | more _ _ before last =>
    simp only [Clause.tokens, Stmt.tokensAll_append, Stmt.tokensAll] at *
    grind
  | _ =>
    simp only [Clause.tokens, Stmt.tokens, Stmt.tokensAll] at *
    grind

end Statements

theorem parse_tokens (tokens : List Token) :
    Stmt.tokensAll (parse tokens).statements ⊆ Parse.body tokens ++ [Parse.ending tokens] := by
  obtain ⟨w, subset, program⟩ := Parse.recovered_program tokens
  exact List.Subset.trans (forms_tokens program) subset

namespace Lexeme

def fixedTexts : List (String × Kind) :=
  Kind.keywords ++ symbols.map (fun entry => (String.ofList [entry.1], entry.2)) ++
    doubled.map fun entry => (String.ofList [entry.1, '='], entry.2)

theorem Spells.mem_fixedTexts {text : List Char} {kind : Kind} (spelled : Spells text kind)
    (other : kind ∉ [.identifier, .number, .string]) : (String.ofList text, kind) ∈ fixedTexts := by
  cases spelled with
  | keyword _ _ member => exact List.mem_append_left _ (List.mem_append_left _ member)
  | symbol member =>
    exact List.mem_append_left _ (List.mem_append_right _ (List.mem_map.mpr ⟨_, member, rfl⟩))
  | double member => exact List.mem_append_right _ (List.mem_map.mpr ⟨_, member, rfl⟩)
  | _ => exact absurd (by decide) other

end Lexeme

namespace Token

def Cut (t : Token) : Prop := Lexeme.Writable t.content

def ofText (text : String) : Token :=
  let content := ((Lexeme.cutAll text.toList).findSome? Lexeme.content?).getD (.eof, "", none)
  ⟨content.1, content.2.1, content.2.2, 1, ⟨0, 0⟩⟩

namespace Cut

variable {t : Token}

/-- What was cut is told by its text. -/
theorem ofText_lexeme (cut : t.Cut) : ofText t.lexeme = t.relaid nowhere := by
  obtain ⟨x, c, content, w, text, own⟩ := cut
  have lexeme : t.lexeme.toList = c :: w := by
    unfold Lexeme.content? at content
    split at content
    · have same := congrArg (fun content => content.2.1.toList) (Option.some.inj content)
      simp only [String.toList_ofList] at same
      exact same.symm.trans text
    all_goals cases content
  have whole : Lexeme.cutAll t.lexeme.toList = [x] := by
    rw [lexeme, Lexeme.cutAll_cons, own, Lexeme.cutAll_nil]
  unfold ofText
  rw [whole, List.findSome?_cons, content]
  rfl

theorem spells (cut : t.Cut) : Lexeme.Spells t.lexeme.toList t.kind := by
  obtain ⟨x, c, content, w, text, own⟩ := cut
  have fits := Lexeme.cut_fits c w
  rw [own] at fits
  unfold Lexeme.content? at content
  cases fits with
  | token longest _ =>
    have same := congrArg (fun content => (content.1, content.2.1.toList)) (Option.some.inj content)
    simp only [String.toList_ofList] at same
    obtain ⟨kind, lexeme⟩ := Prod.mk.inj same
    have spelled := longest.spells
    rw [kind, lexeme] at spelled
    exact spelled
  | _ => cases content

theorem lexeme_eq (cut : t.Cut) {kind : Kind} {text : String} (same : t.kind = kind)
    (other : kind ∉ [.identifier, .number, .string])
    (only : ∀ entry ∈ Lexeme.fixedTexts, entry.2 = kind → entry.1 = text) : t.lexeme = text := by
  have spelled := cut.spells
  rw [same] at spelled
  have known := only _ (spelled.mem_fixedTexts other) rfl
  rwa [String.ofList_toList] at known

end Cut

end Token

theorem parseSource_cut {source : String} {t : Token}
    (member : t ∈ Stmt.tokensAll (parseSource source).statements) (inner : t.kind ≠ .eof) :
    t.Cut := by
  have read := parse_tokens (scan source).tokens member
  rcases List.mem_append.mp read with body | ending
  · have content := List.mem_map_of_mem (f := Token.content) body
    rw [scan_contents] at content
    exact Lexeme.Writable.of_piece content
  · rw [List.mem_singleton.mp ending, (scan_body source).2] at inner
    exact absurd rfl inner

end Treewalk
