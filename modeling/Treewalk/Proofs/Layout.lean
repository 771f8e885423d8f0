import Treewalk.Proofs.RelaidRuns

namespace Treewalk

def nowhere : Place → Place := fun _ => ⟨1, ⟨0, 0⟩⟩

def Token.content (t : Token) : Token.Kind × String × Option Token.Literal :=
  (t.kind, t.lexeme, t.literal)

theorem relaid_nowhere_of_content {ts us : List Token}
    (same : ts.map Token.content = us.map Token.content) :
    ts.map (Token.relaid nowhere) = us.map (Token.relaid nowhere) := by
  have rebuilt : Token.relaid nowhere =
      (fun c => ⟨c.1, c.2.1, c.2.2, 1, ⟨0, 0⟩⟩ : _ → Token) ∘ Token.content := rfl
  rw [rebuilt, ← List.map_map, same, List.map_map]

/-- Layout does not matter. Where the tokens of two texts agree in kind, text and literal, and two
sessions agree but for the places in their functions, the texts are read alike and run alike. -/
theorem layout_does_not_matter {a b : String} {x y : Session}
    (cleanA : (scan a).errors = []) (cleanB : (scan b).errors = [])
    (tokens : (scan a).tokens.map Token.content = (scan b).tokens.map Token.content)
    (sessions : x.relaid nowhere = y.relaid nowhere) :
    (parseSource a).relaid nowhere = (parseSource b).relaid nowhere ∧
    ∀ fuel,
      (x.run fuel a).1.outcome = (y.run fuel b).1.outcome ∧
      (x.run fuel a).2.machine.sink = (y.run fuel b).2.machine.sink ∧
      (x.run fuel a).2.machine.clock = (y.run fuel b).2.machine.clock ∧
      (x.run fuel a).1.diagnostics.map (Diagnostic.relaid nowhere) =
        (y.run fuel b).1.diagnostics.map (Diagnostic.relaid nowhere) ∧
      (x.run fuel a).2.relaid nowhere = (y.run fuel b).2.relaid nowhere := by
  have parsed : (parseSource a).relaid nowhere = (parseSource b).relaid nowhere := by
    rw [parseSource_relaid cleanA, parseSource_relaid cleanB, relaid_nowhere_of_content tokens]
  refine ⟨parsed, ?_⟩
  intro fuel
  have runA := x.runParsed_relaid (g := nowhere) fuel (parseSource a)
  have runB := y.runParsed_relaid (g := nowhere) fuel (parseSource b)
  rw [sessions, parsed, runB, ← Session.run_eq, ← Session.run_eq] at runA
  obtain ⟨reports, ended⟩ := Prod.mk.inj runA.symm
  have machines := congrArg Session.machine ended
  have outcomes := congrArg Report.outcome reports
  have sinks := congrArg Machine.sink machines
  have clocks := congrArg Machine.clock machines
  have diagnostics := congrArg Report.diagnostics reports
  exact ⟨outcomes, sinks, clocks, diagnostics, ended⟩

theorem layout_does_not_matter_to_call :
    let x := Session.start {} (.ticking 0)
    let y := (x.run 9 "fun f() \x7b return -nil; \x7d").2
    let z := (x.run 9 "fun f()\n\x7b\n  // fails\n  return -nil;\n\x7d\n").2
    y.relaid nowhere = z.relaid nowhere ∧
    (y.run 9 "print f();").1.diagnostics.map (Diagnostic.relaid nowhere) =
      (z.run 9 "print\n  f ( );").1.diagnostics.map (Diagnostic.relaid nowhere) := by
  intro x y z
  have declared := layout_does_not_matter (x := x) (y := x)
    (a := "fun f() \x7b return -nil; \x7d")
    (b := "fun f()\n\x7b\n  // fails\n  return -nil;\n\x7d\n")
    (by decide +kernel) (by decide +kernel) (by decide +kernel) rfl
  have called := layout_does_not_matter (x := y) (y := z) (a := "print f();")
    (b := "print\n  f ( );") (by decide +kernel) (by decide +kernel) (by decide +kernel)
    (declared.2 9).2.2.2.2
  exact ⟨(declared.2 9).2.2.2.2, (called.2 9).2.2.2.1⟩

end Treewalk
