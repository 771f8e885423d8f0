import Treewalk.Proofs.RelaidRuns
import Treewalk.Proofs.Restoration
import Treewalk.Proofs.StaticPositions
import Treewalk.Proofs.TreeTokens

namespace Treewalk

/-- In order, in range, between characters, and on a line of the source. -/
structure Diagnostic.PointsInto (source : String) (d : Diagnostic) : Prop where
  inside : d.span.Inside source
  first : 1 ≤ d.line
  last : d.line ≤ 1 + source.toList.count '\n'

theorem Diagnostic.PointsInto.of_lineAt {source : String} {d : Diagnostic}
    (inside : d.span.Inside source) (line : lineAt source d.span.stop = some d.line) :
    d.PointsInto source :=
  have bounds := lineAt_bounds inside.stops line
  ⟨inside, bounds.1, bounds.2⟩

/-- Moves every place but the known ones. -/
noncomputable def away (known : Place → Prop) (p : Place) : Place :=
  open Classical in if known p then p else ⟨p.line + 1, p.span⟩

def places (source : String) : List Place := (scan source).tokens.map Token.place

section Away

variable {known : Place → Prop}

theorem away_line_iff {p : Place} : (away known p).line = p.line ↔ known p := by
  unfold away
  split
  · next here => simp [here]
  · next other => simp [other]

theorem Token.relaid_away_iff {t : Token} : t.relaid (away known) = t ↔ known t.place := by
  constructor
  · intro same
    exact away_line_iff.mp (congrArg Token.line same)
  · intro here
    have stays : away known t.place = t.place := if_pos here
    rw [Token.relaid, stays]
    rfl

theorem parseSource_away (known : Place → Prop) {source : String}
    (clean : (parseSource source).errors = []) (all : ∀ p ∈ places source, known p) :
    (parseSource source).relaid (away known) = parseSource source := by
  have lexical : (scan source).errors = [] := (List.append_eq_nil_iff.mp clean).1
  have same : (scan source).tokens.map (Token.relaid (away known)) = (scan source).tokens := by
    rw [relaid_params_iff]
    intro t member
    exact Token.relaid_away_iff.mpr (all t.place (List.mem_map_of_mem member))
  rw [parseSource_relaid lexical, same, parseSource, lexical]
  rfl

theorem place_of_tree {source : String} (clean : (parseSource source).errors = []) {t : Token}
    (member : t ∈ Stmt.tokensAll (parseSource source).statements) : t.place ∈ places source := by
  have same := parseSource_away (· ∈ places source) clean fun _ here => here
  have statements := congrArg Parsed.statements same
  rw [Parsed.relaid, ← Stmt.relaidAll_eq, Stmt.relaidAll_eq_iff] at statements
  exact Token.relaid_away_iff.mp (statements t member)

end Away

theorem Diagnostic.PointsInto.of_place {source : String} {d : Diagnostic}
    (member : d.place ∈ places source) : d.PointsInto source := by
  obtain ⟨t, token, same⟩ := List.mem_map.mp member
  obtain ⟨inside, line, -, -⟩ := scan_stands token
  have sameLine : t.line = d.line := congrArg Place.line same
  have sameSpan : t.span = d.span := congrArg Place.span same
  rw [sameSpan] at inside line
  rw [sameLine] at line
  exact .of_lineAt inside line

theorem Diagnostic.PointsInto.of_error {source : String} {d : Diagnostic}
    (member : d ∈ (Report.ofErrors (parseSource source).errors).diagnostics) :
    d.PointsInto source := by
  obtain ⟨e, error, rfl⟩ := List.mem_map.mp member
  obtain ⟨inside, line⟩ := parseSource_error_stands error
  exact .of_lineAt inside line

theorem Report.place_known {known : Place → Prop} {r : Report}
    (still : r.relaid (away known) = r) {d : Diagnostic} (member : d ∈ r.diagnostics) :
    known d.place := by
  have all : r.diagnostics.map (Diagnostic.relaid (away known)) = r.diagnostics.map id := by
    rw [List.map_id]
    exact congrArg Report.diagnostics still
  have same := List.map_inj_left.mp all d member
  exact away_line_iff.mp (congrArg Diagnostic.line same)

/-- `t` stands in a function that the program declares, at any depth. -/
def InFunction (p : List Stmt) (t : Token) : Prop :=
  ∃ d name params body, AtDepth p d (.funDecl name params body) ∧
    t ∈ (Stmt.funDecl name params body).tokens

theorem InFunction.mem_tokens {p : List Stmt} {t : Token} (inside : InFunction p t) :
    t ∈ Stmt.tokensAll p := by
  obtain ⟨d, name, params, body, stands, member⟩ := inside
  exact stands.tokens_subset member

theorem Value.Lexical.relaid_eq {programs : List (List Stmt)} {s : Store} {g : Place → Place}
    {v : Value} (value : v.Lexical programs s)
    (still : ∀ p ∈ programs, ∀ t, InFunction p t → t.relaid g = t) :
    v.mapDecl (FunDecl.relaid g) = v := by
  cases v with
  | function f =>
    cases f with
    | native id n => rfl
    | closure id decl scope =>
      obtain ⟨-, p, member, stands⟩ := value id decl scope rfl
      have same := (Stmt.relaid_eq_iff (g := g) (.funDecl decl.name decl.params decl.body)).mpr
        fun t here => still p member t ⟨_, _, _, _, stands, here⟩
      simp only [Stmt.relaid, Stmt.relaidAll_eq, Stmt.funDecl.injEq] at same
      simp [Value.mapDecl, Function.mapDecl, FunDecl.relaid, same]
  | _ => rfl

namespace Session

variable {x : Session} {fuel : Nat} {source : String}

theorem run_report (errors : (parseSource source).errors ≠ []) :
    (x.run fuel source).1 = .ofErrors (parseSource source).errors := by
  have nonempty : (parseSource source).errors.isEmpty = false := by
    simpa [List.isEmpty_eq_false_iff] using errors
  simp only [run, nonempty, Bool.false_eq_true, if_false]

theorem run_kind (clean : (parseSource source).errors = []) {d : Diagnostic}
    (member : d ∈ (x.run fuel source).1.diagnostics) : d.kind = .runtime := by
  simp only [run, clean, List.isEmpty_nil, if_true] at member
  cases result : interpret fuel (parseSource source).statements x.machine with
  | ok _ machine =>
    rw [result] at member
    cases member
  | error halt machine =>
    rw [result] at member
    cases halt with
    | fault f =>
      rw [List.mem_singleton.mp member]
      rfl
    | exhausted => cases member

/-- A fault lies at a token of the source, or in a function of a program that ran before. -/
theorem Reached.fault_place {programs : List (List Stmt)} (reached : Reached programs x)
    (clean : (parseSource source).errors = []) {d : Diagnostic}
    (member : d ∈ (x.run fuel source).1.diagnostics) :
    d.place ∈ places source ∨ ∃ p ∈ programs, ∃ t, InFunction p t ∧ t.place = d.place := by
  -- Once all other places are moved, the program and the session are what they were, so the report
  -- is too.
  let known (q : Place) : Prop :=
    q ∈ places source ∨ ∃ p ∈ programs, ∃ t, InFunction p t ∧ t.place = q
  have program := parseSource_away known clean fun _ here => .inl here
  have store : x.machine.store.mapDecl (FunDecl.relaid (away known)) = x.machine.store := by
    apply Store.mapDecl_eq_self
    intro e c found b member
    apply (reached.rests.lexical.store.values e c found b member).relaid_eq
    intro p before t inside
    exact Token.relaid_away_iff.mpr (.inr ⟨p, before, t, inside, rfl⟩)
  have session : x.relaid (away known) = x := by
    rw [Session.relaid, Machine.relaid, Machine.mapDecl, store]
  have same := x.runParsed_relaid (g := away known) fuel (parseSource source)
  rw [session, program, ← run_eq] at same
  exact Report.place_known (congrArg Prod.fst same.symm) member

end Session

def cleanSources (runs : List (Nat × String)) : List String :=
  (runs.map Prod.snd).filter fun source => (parseSource source).errors.isEmpty

theorem Session.Reached.after {programs : List (List Stmt)} {x : Session}
    (reached : Session.Reached programs x) (runs : List (Nat × String)) :
    Session.Reached
      (programs ++ (cleanSources runs).map fun source => (parseSource source).statements)
      (x.after runs) := by
  induction runs generalizing programs x with
  | nil =>
    have none : programs ++ (cleanSources []).map (fun source => (parseSource source).statements) =
        programs := List.append_nil programs
    rw [none]
    exact reached
  | cons run runs ih =>
    have first : x.after (run :: runs) = (x.run run.1 run.2).2.after runs := rfl
    rw [first]
    by_cases clean : (parseSource run.2).errors = []
    · simpa [cleanSources, clean] using ih (reached.ran run.1 run.2 clean)
    · simpa [cleanSources, clean] using ih (reached.refused run.1 run.2 clean)

/-- Every diagnostic points into the source it is reported with, or else tells of a fault in a
function of a source that the session ran before, and points there. -/
theorem diagnostics_point_into_sources (sink : Sink) (clock : Clock) (runs : List (Nat × String))
    (fuel : Nat) (source : String) :
    ∀ d ∈ (((Session.start sink clock).after runs).run fuel source).1.diagnostics,
      d.PointsInto source ∨
      d.kind = .runtime ∧ ∃ earlier ∈ cleanSources runs, d.PointsInto earlier ∧
        ∃ t, InFunction (parseSource earlier).statements t ∧ t.place = d.place := by
  intro d member
  by_cases clean : (parseSource source).errors = []
  · have reached := (Session.Reached.start sink clock).after runs
    rcases reached.fault_place clean member with here | ⟨p, found, t, inside, place⟩
    · exact .inl (.of_place here)
    · obtain ⟨earlier, among, rfl⟩ := List.mem_map.mp found
      have ran : (parseSource earlier).errors = [] :=
        List.isEmpty_iff.mp (List.mem_filter.mp among).2
      have there := place_of_tree ran inside.mem_tokens
      rw [place] at there
      exact .inr ⟨Session.run_kind clean member, earlier, among, .of_place there, t, inside, place⟩
  · rw [Session.run_report clean] at member
    exact .inl (.of_error member)

def faultyFunction : String := "fun f() \x7b return -nil; \x7d"

def callFault : Diagnostic :=
  { kind := .runtime, line := 1, location := none, message := "Operand must be a number."
    span := ⟨17, 18⟩, help := none }

theorem callFault_reported :
    (((Session.start {} (.ticking 0)).after [(9, faultyFunction)]).run 9 "f();").1.diagnostics =
      [callFault] := by
  decide +kernel

theorem diagnostics_point_into_sources_of_call :
    callFault.PointsInto "f();" ∨
    callFault.kind = .runtime ∧ ∃ earlier ∈ cleanSources [(9, faultyFunction)],
      callFault.PointsInto earlier ∧
      ∃ t, InFunction (parseSource earlier).statements t ∧ t.place = callFault.place := by
  apply diagnostics_point_into_sources {} (.ticking 0) [(9, faultyFunction)] 9 "f();" callFault
  rw [callFault_reported]
  exact List.mem_singleton_self callFault

/-- A function of an earlier source faults outside the source that calls it. -/
theorem earlier_function_points_outside :
    ∃ d ∈
        (((Session.start {} (.ticking 0)).after [(9, faultyFunction)]).run 9 "f();").1.diagnostics,
      ¬ d.PointsInto "f();" := by
  rw [callFault_reported]
  refine ⟨callFault, List.mem_singleton_self callFault, ?_⟩
  intro points
  have short : callFault.span.stop ≤ 4 := points.inside.bounded
  exact absurd short (by decide)

end Treewalk
