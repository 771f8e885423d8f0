import Treewalk.Proofs.Completion
import Treewalk.Proofs.FaultRecovery

namespace Treewalk

open Grammar Grammar.Rules
open Token (Kind)

/-- Problems that end the declaration being read. -/
def Problem.isFault : Problem → Bool
  | .unexpectedCharacter | .unterminatedString => false
  | .assignmentTarget | .tooManyArguments | .tooManyParameters | .topLevelReturn => false
  | _ => true

theorem Problem.isFault_iff (problem : Problem) :
    problem.isFault = true ↔ "Expect".toList <+: problem.message.toList := by
  cases problem <;> decide +kernel

theorem Problem.not_waived_of_isFault {problem : Problem} (fault : problem.isFault = true) :
    relaxed.waives problem = false := by
  cases problem <;> first | rfl | cases fault

namespace Parse

theorem Goal.closer_isFault (goal : Goal) : goal.closer.2.isFault = true := by
  cases goal <;> rfl

theorem OpenExpr.stuck_isFault {read : OpenExpr} {t : Token} {problem : Problem}
    (stuck : (read.feed t).2 = .stuck problem) : problem.isFault = true := by
  rcases feed_stuck_cases stuck with rfl | rfl | rfl <;> rfl

/-- First the assignments refused here, then remarks on `t`, then at most one fault at `t`. -/
def Adds (t : Token) (es : List SyntaxError) : Prop :=
  ∃ refused remarks, ∃ fault : Option Problem,
    es = refused ++ (remarks ++ fault.toList).map (SyntaxError.atToken t) ∧
    (∀ e ∈ refused, e.problem = .assignmentTarget) ∧
    (∀ problem ∈ remarks, relaxed.waives problem = true) ∧
    ∀ problem ∈ fault, problem.isFault = true

namespace Adds

variable {t : Token} {es : List SyntaxError}

theorem nil : Adds t [] := ⟨[], [], none, by simp⟩

theorem remark {problem : Problem} (waived : relaxed.waives problem = true) :
    Adds t [.atToken t problem] := ⟨[], [problem], none, by simpa using waived⟩

theorem fault {problem : Problem} (adds : Adds t es)
    (soft : relaxed.Waives es)
    (hard : problem.isFault = true) : Adds t (es ++ [.atToken t problem]) := by
  obtain ⟨refused, remarks, none | first, rfl, targets, waived, _⟩ := adds
  · exact ⟨refused, remarks, some problem, by simp, targets, waived, by simpa using hard⟩
  · rename_i faults
    have waived := soft (.atToken t first) (by simp)
    have never := Problem.not_waived_of_isFault (faults first rfl)
    exact absurd waived (by simp [SyntaxError.atToken, never])

theorem soft_or_fault (adds : Adds t es) :
    relaxed.Waives es ∨
    ∃ soft problem, es = soft ++ [.atToken t problem] ∧ problem.isFault = true ∧
      relaxed.Waives soft := by
  obtain ⟨refused, remarks, fault, rfl, targets, waived, faults⟩ := adds
  have soft : relaxed.Waives (refused ++ remarks.map (SyntaxError.atToken t)) := by
    intro e member
    rcases List.mem_append.mp member with member | member
    · rw [targets e member]
      rfl
    · obtain ⟨problem, remark, rfl⟩ := List.mem_map.mp member
      exact waived problem remark
  cases fault with
  | none => exact .inl (by simpa using soft)
  | some problem => exact .inr ⟨_, problem, by simp, faults problem rfl, soft⟩

end Adds

theorem OpenExpr.feed_adds (read : OpenExpr) (t : Token) : Adds t (read.feed t).1 := by
  obtain ⟨pending, operand⟩ := read
  cases operand with
  | none =>
    simp only [feed, feedOperand]
    split
    · split
      · exact .nil
      · split
        · exact .remark rfl
        · exact .nil
    · exact .nil
  | some value =>
    simp only [feed, feedOperator]
    split
    · exact .nil
    · exact .nil
    · exact .nil
    · refine ⟨(settle pending value []).errors, [], none, by simp, ?_, by simp⟩
      intro e member
      rcases settle_errors _ _ _ e member with never | target
      · simp at never
      · exact target

theorem OpenExpr.feed_soft (read : OpenExpr) (t : Token) : relaxed.Waives (read.feed t).1 := by
  intro e member
  rcases read.feed_problem t e member with same | same <;> simp [same, relaxed, Rules.waives]

@[simp] theorem push_appendList {α : Type} (a : Array α) (l : List α) (x : α) :
    (a ++ l).push x = a ++ (l ++ [x]) := by
  apply Array.toList_inj.mp
  simp

namespace State

variable {s base : State} {t : Token}

/-- The declaration being read is given up; the lists stay as they are. -/
structure Drops (s s' : State) : Prop where
  outer : s'.outer = s.outer
  layer : s'.layer = { done := s.layer.done }
  mode : s'.mode = .declaration ∨ s'.mode = .recovery

theorem Drops.fail (s : State) (t : Token) (problem : Problem) : Drops s (s.fail t problem) := by
  refine ⟨rfl, rfl, ?_⟩
  by_cases ends : t.is .semicolon = true
  · exact .inl (by simp [State.fail, ends])
  · exact .inr (by simp [State.fail, ends])

/-- `f` reads `t`, whatever errors there were before. -/
def Steps (f : Array SyntaxError → State) (base : State) (t : Token) : Prop :=
  ∃ es s', (∀ errors, f errors = { s' with errors := errors ++ es }) ∧ Adds t es ∧
    (relaxed.Waives es ∨ Drops base s')

namespace Steps

variable {f : Array SyntaxError → State}

theorem quiet (same : ∀ errors, f errors = { f #[] with errors }) : Steps f base t :=
  ⟨[], f #[], by simpa using same, .nil, .inl .nil⟩

theorem complete {x : Stmt} (s : State) (same : ∀ errors, f errors = { s with errors }.complete x) :
    Steps f base t := by
  refine quiet ?_
  intro errors
  rw [same, same, s.complete_errors x errors, s.complete_errors x #[]]

theorem fail {problem : Problem} (hard : problem.isFault = true)
    (same : ∀ errors, f errors = { base with errors }.fail t problem) : Steps f base t := by
  refine ⟨[.atToken t problem], base.fail t problem, ?_, Adds.nil.fault .nil hard,
    .inr (.fail _ _ _)⟩
  intro errors
  simp [same, State.fail]

end Steps

theorem feedValue_steps (s : State) (goal : Goal) (read : OpenExpr) (t : Token) :
    Steps (fun errors => { s with errors }.feedValue goal read t) s t := by
  have adds := read.feed_adds t
  have soft := read.feed_soft t
  rcases fed : read.feed t with ⟨es, next | value | problem⟩
  · rw [fed] at adds soft
    exact ⟨es, { s with mode := .value goal next }, by simp [feedValue, fed], adds, .inl soft⟩
  · rw [fed] at adds soft
    by_cases closed : t.is goal.closer.1 = true
    · refine ⟨es, s.reach value goal, ?_, adds, .inl soft⟩
      intro errors
      rw [← reach_errors]
      simp [feedValue, fed, closed]
    · exact ⟨es ++ [.atToken t goal.closer.2], s.fail t goal.closer.2,
        by simp [feedValue, fed, closed, fail], adds.fault soft goal.closer_isFault,
        .inr (.fail _ _ _)⟩
  · have stuck : (read.feed t).2 = .stuck problem := by rw [fed]
    rw [fed] at adds soft
    exact ⟨es ++ [.atToken t problem], s.fail t problem, by simp [feedValue, fed, fail],
      adds.fault soft (OpenExpr.stuck_isFault stuck), .inr (.fail _ _ _)⟩

theorem startStatement_steps (s : State) (t : Token) :
    Steps (fun errors => { s with errors }.startStatement t) s t := by
  unfold startStatement
  split
  case h_7 => exact s.feedValue_steps _ _ t
  case h_4 =>
    have same (errors : Array SyntaxError) : { s with errors }.inFunction = s.inFunction := rfl
    by_cases inside : s.inFunction = true
    · exact .quiet (by simp [same, inside, expectHeader])
    · exact ⟨[.atToken t .topLevelReturn], s.expectHeader (.returnValue t),
        by simp [same, inside, expectHeader, report], .remark rfl, .inl (.single rfl)⟩
  all_goals exact .quiet fun _ => rfl

theorem startDeclaration_steps (s : State) (t : Token) :
    Steps (fun errors => { s with errors }.startDeclaration t) s t := by
  simp only [startDeclaration]
  split
  case h_3 => exact .complete { s with layer := _, outer := _ } fun _ => rfl
  case h_4 => exact s.startStatement_steps t
  all_goals exact .quiet fun _ => rfl

theorem feedParameter_steps (s : State) (name : Token) (params : Array Token) (t : Token) :
    Steps (fun errors => { s with errors }.feedParameter name params t) s t := by
  unfold feedParameter
  split
  · exact .quiet fun _ => rfl
  by_cases many : maxArguments ≤ params.size
  · have waived : relaxed.Waives [.atToken t .tooManyParameters] := .single rfl
    have remark : Adds t [.atToken t .tooManyParameters] := .remark rfl
    have fault : Problem.isFault .parameterName = true := rfl
    by_cases named : t.is .identifier = true
    · exact ⟨_, s.expectHeader (.parameterEnd name (params.push t)),
        by simp [many, named, report, expectHeader], remark, .inl waived⟩
    · exact ⟨_, s.fail t .parameterName, by simp [many, named, report, State.fail],
        remark.fault waived fault, .inr (.fail _ _ _)⟩
  · by_cases named : t.is .identifier = true
    · exact .quiet (by simp [many, named, expectHeader])
    · have fault : Problem.isFault .parameterName = true := rfl
      exact .fail fault (by simp [many, named])

theorem feedHeader_steps (s : State) (t : Token) (due : Header) :
    Steps (fun errors => { s with errors }.feedHeader t due) s t := by
  cases due with
  | parameter name params => exact s.feedParameter_steps name params t
  | variableEnd site name =>
    simp only [feedHeader]
    split
    · exact .quiet fun _ => rfl
    · split
      · cases site with
        | declaration => exact .complete s fun _ => rfl
        | forClause => exact .quiet fun _ => rfl
      · exact .fail rfl fun _ => rfl
  | returnValue keyword =>
    simp only [feedHeader]
    split
    · exact .complete s fun _ => rfl
    · exact s.feedValue_steps _ _ t
  | _ =>
    simp only [feedHeader]
    repeat' split
    all_goals first
      | exact s.feedValue_steps _ _ t
      | exact .fail rfl fun _ => rfl
      | exact .quiet fun _ => rfl

theorem feed_steps (s : State) (t : Token) :
    Steps (fun errors => { s with errors }.feed t) s.closed t := by
  obtain ⟨layer, outer, mode, errors⟩ := s
  cases mode with
  | declaration => exact startDeclaration_steps ⟨layer, outer, .declaration, errors⟩ t
  | recovery =>
    simp only [feed]
    split
    · exact startDeclaration_steps ⟨layer, outer, .recovery, errors⟩ t
    · split <;> exact .quiet fun _ => rfl
  | statement => exact startStatement_steps ⟨layer, outer, .statement, errors⟩ t
  | afterThen condition thenBranch =>
    simp only [feed]
    split
    · exact .quiet fun _ => rfl
    · exact startDeclaration_steps (completeAll ⟨layer, outer, _, errors⟩ _) t
  | header due => exact feedHeader_steps ⟨layer, outer, _, errors⟩ t due
  | value goal read => exact feedValue_steps ⟨layer, outer, _, errors⟩ goal read t

theorem feed_adds (s : State) (t : Token) :
    ∃ es, (s.feed t).errors.toList = s.errors.toList ++ es ∧ Adds t es := by
  obtain ⟨es, s', step, adds, _⟩ := s.feed_steps t
  have here : s.feed t = { s' with errors := s.errors ++ es } := step s.errors
  exact ⟨es, by simp [here], adds⟩

end State

end Parse

end Treewalk
