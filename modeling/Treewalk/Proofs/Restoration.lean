import Treewalk.Proofs.LexicalDepth

namespace Treewalk

/-- Standing in the same scope, as what single actions keep. Entering a scope is no action of its
own: it comes with the leaving of that scope. -/
def standing : Discipline where
  machine _ := True
  after := Machine.Keeps
  value _ _ := True
  code _ _ _ := True
  after_refl _ := .refl
  after_trans := Machine.Keeps.trans
  value_after _ _ _ := trivial
  code_after _ _ _ := trivial
  part _ _ := trivial
  plain _ := trivial
  found _ _ := trivial
  assigned _ _ _ := ⟨trivial, rfl, rfl⟩
  defined _ _ _ _ := ⟨trivial, rfl, rfl⟩
  closed _ _ := ⟨trivial, ⟨rfl, rfl⟩, trivial⟩
  block _ _ := ⟨trivial, trivial⟩
  body _ _ _ := ⟨trivial, trivial⟩
  left _ _ after := ⟨trivial, rfl, after.globals⟩
  value_left _ := trivial
  printed _ _ := ⟨trivial, rfl, rfl⟩
  asked _ _ := ⟨trivial, rfl, rfl⟩

section Evaluation

variable (fuel : Nat) (m : Machine)

theorem eval_keeps (e : Expr) : m.Keeps ((e.eval (Function.apply fuel)).final m) := by
  have calls := standing.apply_obeys fuel
  have obeys := Discipline.eval_obeys (d := 0) calls e (m := m) trivial trivial
  exact obeys.final.2

theorem evalAll_keeps (es : List Expr) :
    m.Keeps ((Expr.evalAll (Function.apply fuel) es).final m) := by
  have calls := standing.apply_obeys fuel
  have obeys := Discipline.evalAll_obeys (d := 0) calls es (m := m) trivial trivial
  exact obeys.final.2

theorem exec_keeps (turns : Nat) (s : Stmt) :
    m.Keeps ((s.exec (Function.apply fuel) turns).final m) := by
  have calls := standing.apply_obeys fuel
  have obeys := Discipline.exec_obeys calls turns (d := 0) (m := m) s trivial trivial
  exact obeys.final.2

theorem execAll_keeps (turns : Nat) (ss : List Stmt) :
    m.Keeps ((Stmt.execAll (Function.apply fuel) turns ss).final m) := by
  have calls := standing.apply_obeys fuel
  have obeys := Discipline.execAll_obeys calls turns (d := 0) (m := m) ss trivial trivial
  exact obeys.final.2

theorem apply_keeps (f : Function) (args : List Value) :
    m.Keeps ((f.apply fuel args).final m) := by
  have obeys := standing.apply_obeys fuel m f args trivial trivial fun _ _ => trivial
  exact obeys.final.2

theorem interpret_keeps (ss : List Stmt) : m.Keeps ((interpret fuel ss).final m) := by
  have obeys := Discipline.interpret_obeys (D := standing) (d := 0) (m := m) fuel ss trivial trivial
  exact obeys.final.2

end Evaluation

namespace Session

theorem run_keeps (x : Session) (fuel : Nat) (source : String) :
    x.machine.Keeps (x.run fuel source).2.machine := by
  by_cases clean : (parseSource source).errors = []
  · rw [run_clean clean]
    exact interpret_keeps fuel x.machine (parseSource source).statements
  · rw [run_refused clean]
    exact .refl

def after (x : Session) (runs : List (Nat × String)) : Session :=
  runs.foldl (fun x run => (x.run run.1 run.2).2) x

theorem after_keeps (x : Session) (runs : List (Nat × String)) :
    x.machine.Keeps (x.after runs).machine := by
  induction runs generalizing x with
  | nil => exact .refl
  | cons run runs ih => exact (x.run_keeps run.1 run.2).trans (ih _)

end Session

/-- However expressions, statements and calls end, the current scope is again the one before, and
after any runs a session is in the outermost scope, where it started. -/
theorem current_scope_comes_back :
    (∀ (fuel turns : Nat) (m : Machine),
      (∀ e : Expr, ((e.eval (Function.apply fuel)).final m).current = m.current) ∧
      (∀ s : Stmt, ((s.exec (Function.apply fuel) turns).final m).current = m.current) ∧
      (∀ ss : List Stmt,
        ((Stmt.execAll (Function.apply fuel) turns ss).final m).current = m.current) ∧
      ∀ (f : Function) (args : List Value), ((f.apply fuel args).final m).current = m.current) ∧
    ∀ (sink : Sink) (clock : Clock) (runs : List (Nat × String)),
      let x := Session.start sink clock
      (x.after runs).machine.current = x.machine.globals ∧
      (x.after runs).machine.globals = x.machine.globals := by
  refine ⟨fun fuel turns m => ⟨?_, ?_, ?_, ?_⟩, ?_⟩
  · exact fun e => (eval_keeps fuel m e).current
  · exact fun s => (exec_keeps fuel m turns s).current
  · exact fun ss => (execAll_keeps fuel m turns ss).current
  · exact fun f args => (apply_keeps fuel m f args).current
  · intro sink clock runs x
    have kept := x.after_keeps runs
    have atStart : x.machine.current = x.machine.globals := rfl
    exact ⟨kept.current.trans atStart, kept.globals⟩

end Treewalk
