import Treewalk.Proofs.Restoration

namespace Treewalk

def accepts (source : String) : Bool := (parseSource source).errors.isEmpty

structure Run where
  source : String
  report : Report
  printed : ByteArray

def Session.printedSince (x y : Session) : ByteArray :=
  y.machine.sink.taken.extract x.machine.sink.taken.size y.machine.sink.taken.size

def Session.history (x : Session) : List (Nat × String) → List Run
  | [] => []
  | (fuel, source) :: runs =>
    let ended := x.run fuel source
    { source, report := ended.1, printed := x.printedSince ended.2 } :: ended.2.history runs

/-- The outcome of a report and its diagnostics say the same. -/
structure Report.Consistent (r : Report) : Prop where
  success : r.outcome = .success ↔ r.diagnostics = []
  runtimeError : r.outcome = .runtimeError ↔ ∃ d, r.diagnostics = [d] ∧ d.kind = .runtime
  staticError : r.outcome = .staticError ↔
    r.diagnostics ≠ [] ∧ ∀ d ∈ r.diagnostics, d.kind = .static

namespace Report

theorem ofErrors_nonempty {errors : List SyntaxError} (nonempty : errors ≠ []) :
    ofErrors errors = ⟨.staticError, errors.map .ofSyntaxError⟩ := by
  cases errors with
  | nil => exact absurd rfl nonempty
  | cons e es => rfl

theorem ofErrors_consistent (errors : List SyntaxError) : (ofErrors errors).Consistent := by
  have static : ∀ d ∈ errors.map Diagnostic.ofSyntaxError, d.kind = .static := by
    intro d member
    obtain ⟨e, -, rfl⟩ := List.mem_map.mp member
    rfl
  cases errors with
  | nil => exact ⟨by simp [ofErrors], by simp [ofErrors], by simp [ofErrors]⟩
  | cons e es =>
    refine ⟨by simp [ofErrors], ?_, by simpa [ofErrors] using static⟩
    constructor
    · intro outcome
      cases outcome
    · rintro ⟨d, only, runtime⟩
      have member : d ∈ (e :: es).map Diagnostic.ofSyntaxError := by
        change (e :: es).map Diagnostic.ofSyntaxError = [d] at only
        simp [only]
      rw [static d member] at runtime
      cases runtime

theorem ofHalt_consistent (f : Fault) : (ofHalt (.fault f)).Consistent := by
  constructor <;> simp [ofHalt, Diagnostic.ofFault]

end Report

namespace Session

theorem run_consistent (x : Session) (fuel : Nat) (source : String)
    (ends : (x.run fuel source).1.outcome ≠ .exhausted) : (x.run fuel source).1.Consistent := by
  unfold run at ends ⊢
  dsimp only at ends ⊢
  split
  · cases result : interpret fuel (parseSource source).statements x.machine with
    | ok _ machine => exact Report.ofErrors_consistent []
    | error halt machine =>
      cases halt with
      | fault f => exact Report.ofHalt_consistent f
      | exhausted => simp_all [Report.ofHalt]
  · exact Report.ofErrors_consistent _

theorem printedSince_self (x : Session) : x.printedSince x = .empty := by
  apply ByteArray.ext
  simp [printedSince]

variable {x : Session} {fuel : Nat} {source : String}

theorem run_rejected (rejected : accepts source = false) :
    x.run fuel source = (.ofErrors (parseSource source).errors, x) := by
  have some : (parseSource source).errors.isEmpty = false := rejected
  rw [run, some]
  rfl

theorem history_filter (x : Session) (runs : List (Nat × String)) :
    x.after (runs.filter fun run => accepts run.2) = x.after runs ∧
    x.history (runs.filter fun run => accepts run.2) =
      (x.history runs).filter fun run => accepts run.source := by
  induction runs generalizing x with
  | nil => exact ⟨rfl, rfl⟩
  | cons run runs ih =>
    obtain ⟨fuel, source⟩ := run
    cases accepted : accepts source with
    | true =>
      obtain ⟨ended, later⟩ := ih (x.run fuel source).2
      have kept : ((fuel, source) :: runs).filter (fun run => accepts run.2) =
          (fuel, source) :: runs.filter fun run => accepts run.2 := by simp [accepted]
      rw [kept]
      refine ⟨ended, ?_⟩
      simp only [history, later, List.filter_cons, accepted, if_true]
    | false =>
      obtain ⟨ended, later⟩ := ih x
      have left : ((fuel, source) :: runs).filter (fun run => accepts run.2) =
          runs.filter fun run => accepts run.2 := by simp [accepted]
      have first : x.run fuel source = (.ofErrors (parseSource source).errors, x) :=
        run_rejected accepted
      have session : x.after ((fuel, source) :: runs) = (x.run fuel source).2.after runs := rfl
      rw [left, session]
      simp only [history, first, List.filter_cons, accepted]
      exact ⟨ended, later⟩

theorem mem_history {run : Run} {runs : List (Nat × String)} (member : run ∈ x.history runs) :
    ∃ (y : Session) (fuel : Nat), run.report = (y.run fuel run.source).1 ∧
      run.printed = y.printedSince (y.run fuel run.source).2 := by
  induction runs generalizing x with
  | nil => cases member
  | cons first runs ih =>
    obtain ⟨fuel, source⟩ := first
    rcases List.mem_cons.mp member with rfl | later
    · exact ⟨x, fuel, rfl, rfl⟩
    · exact ih later

end Session

theorem tokenListing_rejects {source : String}
    (rejected : (tokenListing source).2.outcome = .staticError) :
    accepts source = false ∧ (tokenListing source).2.diagnostics <+:
      (Report.ofErrors (parseSource source).errors).diagnostics := by
  have nonempty : (scan source).errors ≠ [] := by
    intro none
    simp [tokenListing, Report.ofErrors, none] at rejected
  constructor
  · simp [accepts, parseSource, nonempty]
  · exact List.IsPrefix.map Diagnostic.ofSyntaxError (List.prefix_append _ _)

/-- Rejected sources leave no trace in a session: without them the other runs have the same reports
and the same output, and the session ends the same. Each of them prints nothing and is reported with
its errors in order, as reading it alone reports it. What scanning alone rejects is rejected, with
further diagnostics at most after those of scanning. The outcome of any report says what its
diagnostics are; only a run that used up its allowance has neither. -/
theorem rejected_sources_leave_no_trace (x : Session) (runs : List (Nat × String)) :
    x.after (runs.filter fun run => accepts run.2) = x.after runs ∧
    x.history (runs.filter fun run => accepts run.2) =
      (x.history runs).filter (fun run => accepts run.source) ∧
    (∀ run ∈ x.history runs,
      (accepts run.source = false →
        run.printed = .empty ∧
        run.report = ⟨.staticError, (parseSource run.source).errors.map .ofSyntaxError⟩ ∧
        (treeListing run.source).2 = run.report) ∧
      ((tokenListing run.source).2.outcome = .staticError →
        run.report.outcome = .staticError ∧
        (tokenListing run.source).2.diagnostics <+: run.report.diagnostics) ∧
      (run.report.outcome ≠ .exhausted → run.report.Consistent)) ∧
    ∀ source, (tokenListing source).2.Consistent ∧ (treeListing source).2.Consistent := by
  obtain ⟨ended, history⟩ := x.history_filter runs
  refine ⟨ended, history, ?_, fun source =>
    ⟨Report.ofErrors_consistent _, Report.ofErrors_consistent _⟩⟩
  intro run member
  obtain ⟨y, fuel, report, printed⟩ := Session.mem_history member
  have refused (rejected : accepts run.source = false) :
      run.report = .ofErrors (parseSource run.source).errors ∧ run.printed = .empty := by
    rw [report, printed, Session.run_rejected rejected]
    exact ⟨rfl, y.printedSince_self⟩
  have static (rejected : accepts run.source = false) :
      run.report = ⟨.staticError, (parseSource run.source).errors.map .ofSyntaxError⟩ := by
    rw [(refused rejected).1]
    exact Report.ofErrors_nonempty (by simpa [accepts] using rejected)
  refine ⟨?_, ?_, ?_⟩
  · intro rejected
    obtain ⟨same, nothing⟩ := refused rejected
    exact ⟨nothing, static rejected, same.symm⟩
  · intro outcome
    obtain ⟨rejected, before⟩ := tokenListing_rejects outcome
    rw [← (refused rejected).1] at before
    exact ⟨by rw [static rejected], before⟩
  · rw [report]
    exact y.run_consistent fuel run.source

end Treewalk
