import Treewalk.Proofs.Recasting

namespace Treewalk

mutual

def Expr.ungrouped : Expr → Expr
  | .constant c => .constant c
  | .group e => e.ungrouped
  | .unary op e => .unary op e.ungrouped
  | .binary left op right => .binary left.ungrouped op right.ungrouped
  | .logical left op right => .logical left.ungrouped op right.ungrouped
  | .var name => .var name
  | .assign name e => .assign name e.ungrouped
  | .call callee paren args => .call callee.ungrouped paren (Expr.ungroupedAll args)

def Expr.ungroupedAll : List Expr → List Expr
  | [] => []
  | e :: es => e.ungrouped :: Expr.ungroupedAll es

end

mutual

def Stmt.ungrouped : Stmt → Stmt
  | .expression e => .expression e.ungrouped
  | .print keyword e => .print keyword e.ungrouped
  | .varDecl name initial => .varDecl name (initial.map Expr.ungrouped)
  | .block body => .block (Stmt.ungroupedAll body)
  | .ifElse condition thenBranch none => .ifElse condition.ungrouped thenBranch.ungrouped none
  | .ifElse condition thenBranch (some elseBranch) =>
    .ifElse condition.ungrouped thenBranch.ungrouped (some elseBranch.ungrouped)
  | .whileLoop condition body => .whileLoop condition.ungrouped body.ungrouped
  | .funDecl name params body => .funDecl name params (Stmt.ungroupedAll body)
  | .ret keyword value => .ret keyword (value.map Expr.ungrouped)

def Stmt.ungroupedAll : List Stmt → List Stmt
  | [] => []
  | s :: ss => s.ungrouped :: Stmt.ungroupedAll ss

end

def FunDecl.ungrouped (f : FunDecl) : FunDecl := { f with body := f.body.map Stmt.ungrouped }

def Machine.ungrouped (m : Machine) : Machine := m.mapDecl FunDecl.ungrouped

theorem Expr.ungroupedAll_eq (es : List Expr) : Expr.ungroupedAll es = es.map Expr.ungrouped := by
  induction es with
  | nil => rfl
  | cons e es ih => rw [Expr.ungroupedAll, ih, List.map_cons]

theorem Stmt.ungroupedAll_eq (ss : List Stmt) : Stmt.ungroupedAll ss = ss.map Stmt.ungrouped := by
  induction ss with
  | nil => rfl
  | cons s ss ih => rw [Stmt.ungroupedAll, ih, List.map_cons]

/-- Taking groups out, as a recasting of programs. Tokens and faults stay. -/
def ungrouping : Recasting where
  token := id
  expr := Expr.ungrouped
  stmt := Stmt.ungrouped
  fault := id
  token_kind _ := rfl
  token_lexeme _ := rfl
  fault_atToken _ _ := rfl
  expr_constant _ := rfl
  expr_group e _ := by rw [Expr.ungrouped]
  expr_unary _ _ := rfl
  expr_binary _ _ _ := rfl
  expr_logical _ _ _ := rfl
  expr_var _ := rfl
  expr_assign _ _ := rfl
  expr_call f paren es := by rw [Expr.ungrouped, Expr.ungroupedAll_eq, id]
  stmt_expression _ := rfl
  stmt_print _ _ := rfl
  stmt_varDecl _ _ := rfl
  stmt_block ss := by rw [Stmt.ungrouped, Stmt.ungroupedAll_eq]
  stmt_ifElse c s r := by cases r <;> rfl
  stmt_whileLoop _ _ := rfl
  stmt_funDecl name params ss := by rw [Stmt.ungrouped, Stmt.ungroupedAll_eq, List.map_id, id]
  stmt_ret _ _ := rfl

theorem Recasting.halt_ungrouping (h : Halt) : ungrouping.halt h = h := by cases h <;> rfl

theorem Machine.mapDecl_ungrouping (m : Machine) : m.mapDecl ungrouping.decl = m.ungrouped := by
  have decl : ungrouping.decl = FunDecl.ungrouped := by
    funext f
    rw [Recasting.decl, FunDecl.ungrouped]
    simp [ungrouping]
  rw [decl, ungrouped]

/-- Two runs end in the same way, with the same output, on machines that differ in groups only. -/
def EndAlike : EStateM.Result Halt Machine Unit → EStateM.Result Halt Machine Unit → Prop
  | .ok _ n, .ok _ n' => n.sink = n'.sink ∧ n.ungrouped = n'.ungrouped
  | .error h n, .error h' n' => h = h' ∧ n.sink = n'.sink ∧ n.ungrouped = n'.ungrouped
  | _, _ => False

theorem endAlike_of_result {x y : EStateM.Result Halt Machine Unit}
    (same : ungrouping.result id x = ungrouping.result id y) : EndAlike x y := by
  -- The sink is a part of the machine that has no groups.
  have sink {n n' : Machine} (alike : n.ungrouped = n'.ungrouped) : n.sink = n'.sink := by
    have whole : n.ungrouped.sink = n'.ungrouped.sink := by rw [alike]
    exact whole
  cases x <;> cases y <;>
    simp only [Recasting.result, Machine.mapDecl_ungrouping, Recasting.halt_ungrouping] at same
  · obtain ⟨-, machines⟩ := EStateM.Result.ok.inj same
    exact ⟨sink machines, machines⟩
  · cases same
  · cases same
  · obtain ⟨halts, machines⟩ := EStateM.Result.error.inj same
    exact ⟨halts, sink machines, machines⟩

/-- Parentheses carry no meaning. Programs that are the same without their groups, run on machines
that are the same without theirs, end in the same way and print the same. A fault is the same fault
at the same place. -/
theorem parentheses_carry_no_meaning {ss ss' : List Stmt} {m m' : Machine}
    (programs : ss.map Stmt.ungrouped = ss'.map Stmt.ungrouped)
    (machines : m.ungrouped = m'.ungrouped) (fuel : Nat) :
    EndAlike (interpret fuel ss m) (interpret fuel ss' m') := by
  have without (ss : List Stmt) (m : Machine) :
      interpret fuel (ss.map Stmt.ungrouped) m.ungrouped =
        ungrouping.result id (interpret fuel ss m) := by
    rw [← Machine.mapDecl_ungrouping]
    exact ungrouping.interpret_follows fuel ss m
  have same := without ss m
  rw [programs, machines, without] at same
  exact endAlike_of_result same.symm

theorem EndAlike.final {x y : Eval Unit} {m m' : Machine} (alike : EndAlike (x m) (y m')) :
    (x.final m).ungrouped = (y.final m').ungrouped := by
  unfold Eval.final
  cases first : x m <;> cases second : y m' <;> rw [first, second] at alike
  · exact alike.2
  · exact alike.elim
  · exact alike.elim
  · exact alike.2.2

def negating (operand : Expr → Expr) : Stmt :=
  .funDecl ⟨.identifier, "f", none, 1, ⟨4, 5⟩⟩ [⟨.identifier, "a", none, 1, ⟨6, 7⟩⟩]
    [.ret ⟨.kwReturn, "return", none, 1, ⟨11, 17⟩⟩
      (some (.unary ⟨.minus, "-", none, 1, ⟨18, 19⟩⟩
        (operand (.var ⟨.identifier, "a", none, 1, ⟨20, 21⟩⟩))))]

def callingOnNil (part : Expr → Expr) : Stmt :=
  .print ⟨.kwPrint, "print", none, 1, ⟨0, 5⟩⟩
    (.call (part (.var ⟨.identifier, "f", none, 1, ⟨7, 8⟩⟩)) ⟨.rightParen, ")", none, 1, ⟨15, 16⟩⟩
      [part (.constant .nil)])

theorem parentheses_carry_no_meaning_in_closure :
    let start := Machine.start {} (.ticking 0)
    let m := (interpret 9 [negating .group]).final start
    let m' := (interpret 9 [negating id]).final start
    [callingOnNil .group].map Stmt.ungrouped = [callingOnNil id].map Stmt.ungrouped ∧
    m.ungrouped = m'.ungrouped ∧
    EndAlike (interpret 9 [callingOnNil .group] m) (interpret 9 [callingOnNil id] m') := by
  intro start m m'
  have declarations : [negating .group].map Stmt.ungrouped = [negating id].map Stmt.ungrouped := rfl
  have machines : m.ungrouped = m'.ungrouped :=
    (parentheses_carry_no_meaning declarations (rfl : start.ungrouped = _) 9).final
  exact ⟨rfl, machines, parentheses_carry_no_meaning rfl machines 9⟩

end Treewalk
