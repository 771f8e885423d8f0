import Treewalk.Proofs.Code
import Treewalk.Proofs.Relaid

namespace Treewalk

mutual

def Expr.tokens : Expr → List Token
  | .constant _ => []
  | .group e => e.tokens
  | .unary op e => op :: e.tokens
  | .binary left op right | .logical left op right => left.tokens ++ op :: right.tokens
  | .var name => [name]
  | .assign name e => name :: e.tokens
  | .call callee paren args => callee.tokens ++ paren :: Expr.tokensAll args

def Expr.tokensAll : List Expr → List Token
  | [] => []
  | e :: es => e.tokens ++ Expr.tokensAll es

end

mutual

def Stmt.tokens : Stmt → List Token
  | .expression e => e.tokens
  | .print keyword e => keyword :: e.tokens
  | .varDecl name none => [name]
  | .varDecl name (some e) => name :: e.tokens
  | .block body => Stmt.tokensAll body
  | .ifElse condition thenBranch none => condition.tokens ++ thenBranch.tokens
  | .ifElse condition thenBranch (some elseBranch) =>
    condition.tokens ++ thenBranch.tokens ++ elseBranch.tokens
  | .whileLoop condition body => condition.tokens ++ body.tokens
  | .funDecl name params body => name :: params ++ Stmt.tokensAll body
  | .ret keyword none => [keyword]
  | .ret keyword (some e) => keyword :: e.tokens

def Stmt.tokensAll : List Stmt → List Token
  | [] => []
  | s :: ss => s.tokens ++ Stmt.tokensAll ss

end

def Code.tokens : Code → List Token
  | .expr e => e.tokens
  | .exprs es => Expr.tokensAll es
  | .stmt s => s.tokens
  | .stmts ss => Stmt.tokensAll ss

theorem Code.Part.tokens_subset {c c' : Code} (part : c.Part c') : c'.tokens ⊆ c.tokens := by
  cases part with
  | @condition _ _ r =>
    cases r <;> simp [Code.tokens, Stmt.tokens]
  | @thenBranch _ _ r =>
    cases r <;> simp [Code.tokens, Stmt.tokens]
  | _ => simp [Code.tokens, Expr.tokens, Expr.tokensAll, Stmt.tokens, Stmt.tokensAll]

section Still

variable {g : Place → Place}

def Still (g : Place → Place) (ts : List Token) : Prop := ∀ t ∈ ts, t.relaid g = t

@[simp] theorem still_nil : Still g [] := fun _ member => nomatch member

@[simp] theorem still_cons {t : Token} {ts : List Token} :
    Still g (t :: ts) ↔ t.relaid g = t ∧ Still g ts := List.forall_mem_cons

@[simp] theorem still_append {ts us : List Token} :
    Still g (ts ++ us) ↔ Still g ts ∧ Still g us := List.forall_mem_append

mutual

theorem Expr.relaid_eq_iff (e : Expr) : e.relaid g = e ↔ Still g e.tokens := by
  cases e with
  | constant c => simp [Expr.relaid, Expr.tokens]
  | group e => simp [Expr.relaid, Expr.tokens, Expr.relaid_eq_iff e]
  | unary op e => simp [Expr.relaid, Expr.tokens, Expr.relaid_eq_iff e]
  | binary left op right =>
    simp [Expr.relaid, Expr.tokens, Expr.relaid_eq_iff left, Expr.relaid_eq_iff right]
  | logical left op right =>
    simp [Expr.relaid, Expr.tokens, Expr.relaid_eq_iff left, Expr.relaid_eq_iff right]
  | var name => simp [Expr.relaid, Expr.tokens]
  | assign name e => simp [Expr.relaid, Expr.tokens, Expr.relaid_eq_iff e]
  | call callee paren args =>
    have rest := Expr.relaidAll_eq_iff args
    rw [Expr.relaidAll_eq] at rest
    simp [Expr.relaid, Expr.tokens, Expr.relaid_eq_iff callee, rest]

theorem Expr.relaidAll_eq_iff (es : List Expr) :
    Expr.relaidAll g es = es ↔ Still g (Expr.tokensAll es) := by
  cases es with
  | nil => simp [Expr.relaidAll, Expr.tokensAll]
  | cons e es =>
    have rest := Expr.relaidAll_eq_iff es
    rw [Expr.relaidAll_eq] at rest
    simp [Expr.tokensAll, Expr.relaid_eq_iff e, rest]

end

theorem relaid_params_iff (ts : List Token) : ts.map (Token.relaid g) = ts ↔ Still g ts := by
  induction ts with
  | nil => simp
  | cons t ts ih => simp [ih]

mutual

theorem Stmt.relaid_eq_iff (s : Stmt) : s.relaid g = s ↔ Still g s.tokens := by
  cases s with
  | expression e => simp [Stmt.relaid, Stmt.tokens, Expr.relaid_eq_iff]
  | print keyword e => simp [Stmt.relaid, Stmt.tokens, Expr.relaid_eq_iff]
  | varDecl name initial => cases initial <;> simp [Stmt.relaid, Stmt.tokens, Expr.relaid_eq_iff]
  | block body =>
    have rest := Stmt.relaidAll_eq_iff body
    rw [Stmt.relaidAll_eq] at rest
    simp [Stmt.relaid, Stmt.tokens, rest]
  | ifElse condition thenBranch elseBranch =>
    cases elseBranch with
    | none =>
      simp [Stmt.relaid, Stmt.tokens, Expr.relaid_eq_iff, Stmt.relaid_eq_iff thenBranch]
    | some elseBranch =>
      simp [Stmt.relaid, Stmt.tokens, Expr.relaid_eq_iff, Stmt.relaid_eq_iff thenBranch,
        Stmt.relaid_eq_iff elseBranch]
  | whileLoop condition body =>
    simp [Stmt.relaid, Stmt.tokens, Expr.relaid_eq_iff, Stmt.relaid_eq_iff body]
  | funDecl name params body =>
    have rest := Stmt.relaidAll_eq_iff body
    rw [Stmt.relaidAll_eq] at rest
    simp [Stmt.relaid, Stmt.tokens, relaid_params_iff, rest]
  | ret keyword value => cases value <;> simp [Stmt.relaid, Stmt.tokens, Expr.relaid_eq_iff]

theorem Stmt.relaidAll_eq_iff (ss : List Stmt) :
    Stmt.relaidAll g ss = ss ↔ Still g (Stmt.tokensAll ss) := by
  cases ss with
  | nil => simp [Stmt.relaidAll, Stmt.tokensAll]
  | cons s ss =>
    have rest := Stmt.relaidAll_eq_iff ss
    rw [Stmt.relaidAll_eq] at rest
    simp [Stmt.tokensAll, Stmt.relaid_eq_iff s, rest]

end

end Still

theorem Stmt.tokens_subset_all {s : Stmt} {ss : List Stmt} (member : s ∈ ss) :
    s.tokens ⊆ Stmt.tokensAll ss := by
  induction ss with
  | nil => cases member
  | cons r rs ih =>
    rcases List.mem_cons.mp member with rfl | member
    · exact List.subset_append_left _ _
    · exact List.Subset.trans (ih member) (List.subset_append_right _ _)

theorem AtDepth.tokens_subset {p : List Stmt} {d : Nat} {s : Stmt} (stands : AtDepth p d s) :
    s.tokens ⊆ Stmt.tokensAll p := by
  induction stands with
  | top member => exact Stmt.tokens_subset_all member
  | @thenBranch _ c s r _ ih =>
    refine List.Subset.trans ?_ ih
    cases r <;> simp [Stmt.tokens]
  | elseBranch _ ih =>
    refine List.Subset.trans ?_ ih
    simp [Stmt.tokens]
  | loopBody _ ih =>
    refine List.Subset.trans ?_ ih
    simp [Stmt.tokens]
  | block _ member ih =>
    exact List.Subset.trans (Stmt.tokens_subset_all member) ih
  | function _ member ih =>
    refine List.Subset.trans (Stmt.tokens_subset_all member) (List.Subset.trans ?_ ih)
    exact List.subset_append_right _ _

end Treewalk
