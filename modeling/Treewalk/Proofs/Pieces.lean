import Treewalk.Proofs.DiagnosticPlaces
import Treewalk.Proofs.Lines

namespace Treewalk

open Grammar

section Twice

variable {g h : Place → Place}

theorem Token.relaid_relaid (t : Token) : (t.relaid h).relaid g = t.relaid (g ∘ h) := rfl

mutual

theorem Expr.relaid_relaid (e : Expr) : (e.relaid h).relaid g = e.relaid (g ∘ h) := by
  cases e with
  | constant c => rfl
  | group e => simp only [Expr.relaid, e.relaid_relaid]
  | unary op e => simp only [Expr.relaid, e.relaid_relaid, op.relaid_relaid]
  | binary left op right | logical left op right =>
    simp only [Expr.relaid, left.relaid_relaid, right.relaid_relaid, op.relaid_relaid]
  | var name => rfl
  | assign name e => simp only [Expr.relaid, e.relaid_relaid, name.relaid_relaid]
  | call callee paren args =>
    simp only [Expr.relaid, callee.relaid_relaid, paren.relaid_relaid, Expr.relaidAll_twice args]

theorem Expr.relaidAll_twice (es : List Expr) :
    Expr.relaidAll g (Expr.relaidAll h es) = Expr.relaidAll (g ∘ h) es := by
  cases es with
  | nil => rfl
  | cons e es => simp only [Expr.relaidAll, e.relaid_relaid, Expr.relaidAll_twice es]

end

theorem Expr.relaid_option (e : Option Expr) :
    (e.map (Expr.relaid h)).map (Expr.relaid g) = e.map (Expr.relaid (g ∘ h)) := by
  cases e with
  | none => rfl
  | some e => simp only [Option.map_some, e.relaid_relaid]

theorem Token.relaid_params (ts : List Token) :
    (ts.map (Token.relaid h)).map (Token.relaid g) = ts.map (Token.relaid (g ∘ h)) := by
  rw [List.map_map]
  rfl

mutual

theorem Stmt.relaid_relaid (s : Stmt) : (s.relaid h).relaid g = s.relaid (g ∘ h) := by
  cases s with
  | expression e => simp only [Stmt.relaid, e.relaid_relaid]
  | print keyword e => simp only [Stmt.relaid, e.relaid_relaid, keyword.relaid_relaid]
  | varDecl name initial => simp only [Stmt.relaid, Expr.relaid_option, name.relaid_relaid]
  | block body => simp only [Stmt.relaid, Stmt.relaidAll_twice body]
  | ifElse condition thenBranch elseBranch =>
    cases elseBranch with
    | none => simp only [Stmt.relaid, condition.relaid_relaid, thenBranch.relaid_relaid]
    | some elseBranch =>
      simp only [Stmt.relaid, condition.relaid_relaid, thenBranch.relaid_relaid,
        elseBranch.relaid_relaid]
  | whileLoop condition body =>
    simp only [Stmt.relaid, condition.relaid_relaid, body.relaid_relaid]
  | funDecl name params body =>
    simp only [Stmt.relaid, name.relaid_relaid, Token.relaid_params, Stmt.relaidAll_twice body]
  | ret keyword value => simp only [Stmt.relaid, Expr.relaid_option, keyword.relaid_relaid]

theorem Stmt.relaidAll_twice (ss : List Stmt) :
    Stmt.relaidAll g (Stmt.relaidAll h ss) = Stmt.relaidAll (g ∘ h) ss := by
  cases ss with
  | nil => rfl
  | cons s ss => simp only [Stmt.relaidAll, s.relaid_relaid, Stmt.relaidAll_twice ss]

end

theorem Parsed.relaid_relaid (p : Parsed) : (p.relaid h).relaid g = p.relaid (g ∘ h) := by
  have statements := Stmt.relaidAll_twice (g := g) (h := h) p.statements
  simp only [Stmt.relaidAll_eq] at statements
  have errors : (p.errors.map (SyntaxError.relaid h)).map (SyntaxError.relaid g) =
      p.errors.map (SyntaxError.relaid (g ∘ h)) := by
    rw [List.map_map]
    rfl
  simp only [Parsed.relaid, statements, errors]

theorem FunDecl.relaid_comp : FunDecl.relaid g ∘ FunDecl.relaid h = FunDecl.relaid (g ∘ h) := by
  funext decl
  have body := Stmt.relaidAll_twice (g := g) (h := h) decl.body
  simp only [Stmt.relaidAll_eq] at body
  simp only [Function.comp_apply, FunDecl.relaid, Token.relaid_params, body, Token.relaid_relaid]

theorem Session.relaid_relaid (x : Session) : (x.relaid h).relaid g = x.relaid (g ∘ h) := by
  simp only [Session.relaid, Machine.relaid, Machine.mapDecl_mapDecl, FunDecl.relaid_comp]

theorem Parsed.relaid_id (p : Parsed) : p.relaid id = p := by
  have statements := (Stmt.relaidAll_eq_iff (g := id) p.statements).mpr fun _ _ => rfl
  rw [Stmt.relaidAll_eq] at statements
  have errors : p.errors.map (SyntaxError.relaid id) = p.errors := List.map_id p.errors
  simp only [Parsed.relaid, statements, errors]

theorem FunDecl.relaid_id : FunDecl.relaid id = id := by
  funext decl
  have body := (Stmt.relaidAll_eq_iff (g := id) decl.body).mpr fun _ _ => rfl
  have params := (relaid_params_iff (g := id) decl.params).mpr fun _ _ => rfl
  rw [Stmt.relaidAll_eq] at body
  simp only [FunDecl.relaid, body, params]
  rfl

theorem Session.relaid_id (x : Session) : x.relaid id = x := by
  rw [Session.relaid, Machine.relaid, FunDecl.relaid_id, Machine.mapDecl_id]

end Twice

theorem Grammar.Forms.append {rules : Rules} {inside : Bool} {a b : List Stmt} {v w : List Token}
    (first : Forms rules (.declarations inside a) v)
    (second : Forms rules (.declarations inside b) w) :
    Forms rules (.declarations inside (a ++ b)) (v ++ w) := by
  generalize clause : Clause.declarations inside b = c at second
  induction second generalizing b with
  | empty =>
    cases clause
    simpa using first
  | more _ last ih _ =>
    cases clause
    rw [← List.append_assoc, ← List.append_assoc]
    exact .more (ih rfl) last
  | _ => cases clause

theorem Parsed.eq_of_clean {parsed : Parsed} (clean : parsed.errors = []) :
    parsed = ⟨parsed.statements, []⟩ := by
  obtain ⟨statements, errors⟩ := parsed
  exact congrArg (Parsed.mk statements) clean

theorem parseSource_newline {p q : String} (upper : (parseSource p).errors = [])
    (lower : (parseSource q).errors = []) :
    parseSource (p ++ "\n" ++ q) =
      { statements := (parseSource p).statements ++
          ((parseSource q).relaid (Place.below p)).statements
        errors := [] } := by
  obtain ⟨textP, grammarP⟩ := List.append_eq_nil_iff.mp upper
  obtain ⟨textQ, grammarQ⟩ := List.append_eq_nil_iff.mp lower
  have scanned := scan_newline p q (by simp [textP])
  rw [textP, textQ] at scanned
  have moved := parse_relaid (g := Place.below p) (scan_ends q)
  have body : Parse.body (scan (p ++ "\n" ++ q)).tokens =
      Parse.body (scan p).tokens ++
        Parse.body ((scan q).tokens.map (Token.relaid (Place.below p))) := by
    have plain : ∀ t ∈ Parse.body (scan p).tokens, (!t.is .eof) = true :=
      fun t member => List.mem_takeWhile_imp (p := fun t : Token => !t.is .eof) member
    rw [scanned]
    exact List.takeWhile_append_of_pos plain
  have first : Program .strict (parse (scan p).tokens).statements (Parse.body (scan p).tokens) :=
    (Parse.program_iff .strict _ _).mpr ⟨Rules.waives_strict_iff.mpr grammarP, rfl⟩
  have second : Program .strict ((parseSource q).relaid (Place.below p)).statements
      (Parse.body ((scan q).tokens.map (Token.relaid (Place.below p)))) := by
    refine (Parse.program_iff .strict _ _).mpr ⟨Rules.waives_strict_iff.mpr ?_, ?_⟩
    · rw [moved]
      simp [Parsed.relaid, grammarQ]
    · rw [moved]
      rfl
  have whole := first.append second
  rw [← body] at whole
  obtain ⟨clean, statements⟩ := (Parse.program_iff .strict _ _).mp whole
  have errors := Rules.waives_strict_iff.mp clean
  simp only [parseSource, scanned] at errors statements ⊢
  simp [errors, statements]

theorem interpret_append (fuel : Nat) (a b : List Stmt) :
    interpret fuel (a ++ b) = interpret fuel a >>= fun _ => interpret fuel b := by
  induction a with
  | nil => rfl
  | cons s a ih => simp only [List.cons_append, interpret, ih, bind_assoc]

theorem Session.runParsed_append (x : Session) (fuel : Nat) (a b : List Stmt) :
    x.runParsed fuel ⟨a ++ b, []⟩ =
      if (x.runParsed fuel ⟨a, []⟩).1.outcome = .success then
        (x.runParsed fuel ⟨a, []⟩).2.runParsed fuel ⟨b, []⟩
      else x.runParsed fuel ⟨a, []⟩ := by
  cases first : interpret fuel a x.machine with
  | ok u machine =>
    have both : interpret fuel (a ++ b) x.machine = interpret fuel b machine := by
      rw [interpret_append]
      change EStateM.bind _ _ _ = _
      rw [EStateM.bind, first]
    simp only [runParsed, List.isEmpty_nil, if_true, both, first]
    rfl
  | error halt machine =>
    have both : interpret fuel (a ++ b) x.machine = .error halt machine := by
      rw [interpret_append]
      change EStateM.bind _ _ _ = _
      rw [EStateM.bind, first]
    simp only [runParsed, List.isEmpty_nil, if_true, both, first]
    cases halt <;> rfl

/-- A place with a mark, on or off. -/
def Place.marked (mark : Bool) (p : Place) : Place := ⟨2 * p.line + mark.toNat, p.span⟩

/-- Takes the marks off and moves the places where they were on. -/
def Place.unmarked (move : Place → Place) (p : Place) : Place :=
  if p.line % 2 = 1 then move ⟨p.line / 2, p.span⟩ else ⟨p.line / 2, p.span⟩

theorem Place.unmarked_off (move : Place → Place) : unmarked move ∘ marked false = id := by
  funext p
  simp [unmarked, marked]

theorem Place.unmarked_on (move : Place → Place) : unmarked move ∘ marked true = move := by
  funext p
  have odd : (2 * p.line + 1) % 2 = 1 := by omega
  have half : (2 * p.line + 1) / 2 = p.line := by omega
  simp [unmarked, marked, odd, half]

/-- The run of a program whose places are marked, in a session whose places are not. -/
def Session.runMarked (x : Session) (fuel : Nat) (parsed : Parsed) : Report × Session :=
  (x.relaid (Place.marked false)).runParsed fuel (parsed.relaid (Place.marked true))

theorem Session.runMarked_unmarked (x : Session) (fuel : Nat) (parsed : Parsed)
    (move : Place → Place) :
    x.runParsed fuel (parsed.relaid move) =
      ((x.runMarked fuel parsed).1.relaid (Place.unmarked move),
        (x.runMarked fuel parsed).2.relaid (Place.unmarked move)) := by
  have run := (x.relaid (Place.marked false)).runParsed_relaid (g := Place.unmarked move) fuel
    (parsed.relaid (Place.marked true))
  rw [relaid_relaid, Parsed.relaid_relaid, Place.unmarked_off, Place.unmarked_on, relaid_id] at run
  exact run

theorem Session.run_newline {p q : String} (upper : (parseSource p).errors = [])
    (lower : (parseSource q).errors = []) (x : Session) (fuel : Nat) :
    x.run fuel (p ++ "\n" ++ q) =
      if (x.run fuel p).1.outcome = .success then
        (x.run fuel p).2.runParsed fuel ((parseSource q).relaid (Place.below p))
      else x.run fuel p := by
  have moved : ((parseSource q).relaid (Place.below p)).errors = [] := by
    simp [Parsed.relaid, lower]
  have both := x.runParsed_append fuel (parseSource p).statements
    ((parseSource q).relaid (Place.below p)).statements
  rw [← Parsed.eq_of_clean upper, ← Parsed.eq_of_clean moved,
    ← parseSource_newline upper lower] at both
  rw [run_eq, run_eq, both]

theorem relaid_agree {run a b : Report × Session} {g h : Place → Place}
    (first : a = (run.1.relaid g, run.2.relaid g))
    (second : b = (run.1.relaid h, run.2.relaid h)) :
    a.1.outcome = b.1.outcome ∧
    a.1.diagnostics.map Diagnostic.message = b.1.diagnostics.map Diagnostic.message ∧
    a.2.machine.sink = b.2.machine.sink ∧
    a.2.machine.clock = b.2.machine.clock := by
  subst first second
  have message (k : Place → Place) : Diagnostic.message ∘ Diagnostic.relaid k = Diagnostic.message :=
    rfl
  simp [Report.relaid, Session.relaid, Machine.relaid, Machine.mapDecl, message]

/-- Running a program in pieces is running it whole. -/
theorem pieces_run_as_whole {p q : String} (upper : (parseSource p).errors = [])
    (lower : (parseSource q).errors = []) :
    (parseSource (p ++ "\n" ++ q)).errors = [] ∧
    ∀ (x : Session) (fuel : Nat),
      let first := x.run fuel p
      let second := first.2.run fuel q
      let whole := x.run fuel (p ++ "\n" ++ q)
      let marked := first.2.runMarked fuel (parseSource q)
      (first.1.outcome ≠ .success → whole = first) ∧
      (first.1.outcome = .success →
        whole.1.outcome = second.1.outcome ∧
        whole.1.diagnostics.map Diagnostic.message = second.1.diagnostics.map Diagnostic.message ∧
        whole.2.machine.sink = second.2.machine.sink ∧
        whole.2.machine.clock = second.2.machine.clock ∧
        second = (marked.1.relaid (Place.unmarked id), marked.2.relaid (Place.unmarked id)) ∧
        whole = (marked.1.relaid (Place.unmarked (Place.below p)),
          marked.2.relaid (Place.unmarked (Place.below p)))) := by
  have errors : (parseSource (p ++ "\n" ++ q)).errors = [] := by
    rw [parseSource_newline upper lower]
  refine ⟨errors, ?_⟩
  intro x fuel first second whole marked
  have split := x.run_newline upper lower fuel
  constructor
  · intro failed
    rwa [if_neg failed] at split
  · intro succeeded
    have ended := first.2.runMarked_unmarked fuel (parseSource q) (Place.below p)
    have here := first.2.runMarked_unmarked fuel (parseSource q) id
    rw [if_pos succeeded, ended] at split
    rw [Parsed.relaid_id, ← Session.run_eq] at here
    obtain ⟨outcome, messages, sink, clock⟩ := relaid_agree split here
    exact ⟨outcome, messages, sink, clock, here, split⟩

theorem pieces_run_as_whole_of_call :
    let x := Session.start {} (.ticking 0)
    let p := "fun f() \x7b return -nil; \x7d // upper"
    let q := "print f;\nprint f();"
    let first := x.run 9 p
    let second := first.2.run 9 q
    let whole := x.run 9 (p ++ "\n" ++ q)
    (parseSource p).errors = [] ∧ (parseSource q).errors = [] ∧
    first.1.outcome = .success ∧ second.1.outcome = .runtimeError ∧
    whole.1.outcome = second.1.outcome ∧
    whole.1.diagnostics.map Diagnostic.message = second.1.diagnostics.map Diagnostic.message ∧
    whole.2.machine.sink = second.2.machine.sink := by
  intro x p q first second whole
  have upper : (parseSource p).errors = [] := by decide +kernel
  have lower : (parseSource q).errors = [] := by decide +kernel
  have succeeded : first.1.outcome = .success := by decide +kernel
  have faulted : second.1.outcome = .runtimeError := by decide +kernel
  have pieces := ((pieces_run_as_whole upper lower).2 x 9).2 succeeded
  exact ⟨upper, lower, succeeded, faulted, pieces.1, pieces.2.1, pieces.2.2.1⟩

end Treewalk
