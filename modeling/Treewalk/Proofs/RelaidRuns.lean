import Treewalk.Proofs.Recasting
import Treewalk.Proofs.Relaid
import Treewalk.Session

namespace Treewalk

def FunDecl.relaid (g : Place → Place) (f : FunDecl) : FunDecl :=
  { name := f.name.relaid g
    params := f.params.map (Token.relaid g)
    body := f.body.map (Stmt.relaid g) }

def Machine.relaid (g : Place → Place) (m : Machine) : Machine := m.mapDecl (FunDecl.relaid g)

def Fault.place (f : Fault) : Place := ⟨f.line, f.span⟩

def Fault.relaid (g : Place → Place) (f : Fault) : Fault :=
  { f with line := (g f.place).line, span := (g f.place).span }

variable {g : Place → Place}

def relaying (g : Place → Place) : Recasting where
  token := Token.relaid g
  expr := Expr.relaid g
  stmt := Stmt.relaid g
  fault := Fault.relaid g
  token_kind _ := rfl
  token_lexeme _ := rfl
  fault_atToken _ _ := rfl
  expr_constant _ := rfl
  expr_group e call := by rw [Expr.relaid, Expr.eval]
  expr_unary _ _ := rfl
  expr_binary _ _ _ := rfl
  expr_logical _ _ _ := rfl
  expr_var _ := rfl
  expr_assign _ _ := rfl
  expr_call f paren es := by rw [Expr.relaid, Expr.relaidAll_eq]
  stmt_expression _ := rfl
  stmt_print _ _ := rfl
  stmt_varDecl _ _ := rfl
  stmt_block ss := by rw [Stmt.relaid, Stmt.relaidAll_eq]
  stmt_ifElse c s r := by cases r <;> rfl
  stmt_whileLoop _ _ := rfl
  stmt_funDecl name params ss := by rw [Stmt.relaid, Stmt.relaidAll_eq]
  stmt_ret _ _ := rfl

def Diagnostic.place (d : Diagnostic) : Place := ⟨d.line, d.span⟩

def Diagnostic.relaid (g : Place → Place) (d : Diagnostic) : Diagnostic :=
  { d with line := (g d.place).line, span := (g d.place).span }

def Report.relaid (g : Place → Place) (r : Report) : Report :=
  { r with diagnostics := r.diagnostics.map (Diagnostic.relaid g) }

theorem Report.ofErrors_relaid (errors : List SyntaxError) :
    Report.ofErrors (errors.map (SyntaxError.relaid g)) = (Report.ofErrors errors).relaid g := by
  simp only [Report.ofErrors, Report.relaid, List.isEmpty_map, List.map_map]
  rfl

namespace Session

def relaid (g : Place → Place) (x : Session) : Session := { machine := x.machine.relaid g }

def runParsed (x : Session) (fuel : Nat) (parsed : Parsed) : Report × Session :=
  if parsed.errors.isEmpty then
    match interpret fuel parsed.statements x.machine with
    | .ok _ machine => (.ofErrors [], { machine })
    | .error halt machine => (.ofHalt halt, { machine })
  else (.ofErrors parsed.errors, x)

theorem run_eq (x : Session) (fuel : Nat) (source : String) :
    x.run fuel source = x.runParsed fuel (parseSource source) := rfl

theorem runParsed_relaid (x : Session) (fuel : Nat) (parsed : Parsed) :
    (x.relaid g).runParsed fuel (parsed.relaid g) =
      ((x.runParsed fuel parsed).1.relaid g, (x.runParsed fuel parsed).2.relaid g) := by
  have same : interpret fuel (parsed.statements.map (Stmt.relaid g)) (x.machine.relaid g) =
      (relaying g).result id (interpret fuel parsed.statements x.machine) :=
    (relaying g).interpret_follows fuel parsed.statements x.machine
  simp only [runParsed, Session.relaid, Parsed.relaid, List.isEmpty_map, same,
    Report.ofErrors_relaid]
  split
  · cases interpret fuel parsed.statements x.machine with
    | ok _ machine => rfl
    | error halt machine => cases halt <;> rfl
  · rfl

end Session

end Treewalk
