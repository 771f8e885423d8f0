import Mathlib.Data.List.Nodup
import Treewalk.Proofs.Code
import Treewalk.Proofs.FaultRecovery
import Treewalk.Proofs.Tiling

namespace Treewalk

namespace Parse

def Hole.returns (inside : Bool) : Hole → List (Token × Bool)
  | .elseBranch _ s => s.returns inside
  | .forBody initial _ _ => Stmt.returnsAll inside initial.toList
  | .thenBranch _ | .whileBody _ => []

def Layer.returns (inside : Bool) (l : Layer) : List (Token × Bool) :=
  Stmt.returnsAll inside l.done.toList ++ l.holes.flatMap (·.returns inside)

def outerReturns : List (Opener × Layer) → List (Token × Bool)
  | [] => []
  | (_, layer) :: outer => layer.returns (inBody outer) ++ outerReturns outer

def Header.returns (inside : Bool) : Header → List (Token × Bool)
  | .returnValue keyword => [(keyword, inside)]
  | .forCondition initial | .forIncrement initial _ => Stmt.returnsAll inside initial.toList
  | _ => []

def Goal.returns (inside : Bool) : Goal → List (Token × Bool)
  | .returned keyword => [(keyword, inside)]
  | .forCondition initial | .forIncrement initial _ => Stmt.returnsAll inside initial.toList
  | _ => []

def Mode.returns (inside : Bool) : Mode → List (Token × Bool)
  | .afterThen _ s => s.returns inside
  | .header due => due.returns inside
  | .value goal _ => goal.returns inside
  | .declaration | .recovery | .statement => []

namespace State

def kept (s : State) : List (Token × Bool) := s.layer.returns s.inFunction ++ outerReturns s.outer

def returns (s : State) : List (Token × Bool) := s.mode.returns s.inFunction ++ s.kept

def marks (s : State) : List SyntaxError :=
  s.errors.toList.filter (·.problem = .topLevelReturn)

def opensReturn (s : State) (t : Token) : Bool :=
  t.is .kwReturn &&
    match s.mode with
    | .declaration | .recovery | .statement | .afterThen _ _ => true
    | .header _ | .value _ _ => false

end State

variable {s : State} {t : Token} {r : Token × Bool} {inside : Bool}

theorem Hole.mem_returns_fill {hole : Hole} {x : Stmt} (member : r ∈ (hole.fill x).returns inside) :
    r ∈ hole.returns inside ∨ r ∈ x.returns inside := by
  cases hole with
  | thenBranch c => exact .inr member
  | elseBranch c y => simpa [Hole.fill, Hole.returns, Stmt.returns] using member
  | whileBody c => exact .inr member
  | forBody initial c increment =>
    cases initial <;> cases increment <;>
      simpa [Hole.fill, forLoop, Hole.returns, Stmt.returns, Stmt.returnsAll] using member

theorem mem_returns_fillAll {holes : List Hole} {x : Stmt}
    (member : r ∈ (holes.foldl (fun y hole => hole.fill y) x).returns inside) :
    r ∈ holes.flatMap (·.returns inside) ∨ r ∈ x.returns inside := by
  induction holes generalizing x with
  | nil => exact .inr member
  | cons hole holes ih =>
    rw [List.flatMap_cons, List.mem_append]
    rcases ih member with later | here
    · exact .inl (.inr later)
    · exact (Hole.mem_returns_fill here).imp .inl id

def Filled.returns (inside : Bool) : Filled → List (Token × Bool)
  | .finished y => y.returns inside
  | .waiting holes _ y => holes.flatMap (·.returns inside) ++ y.returns inside

theorem mem_returns_fill {holes : List Hole} {x : Stmt}
    (member : r ∈ (fill holes x).returns inside) :
    r ∈ holes.flatMap (·.returns inside) ∨ r ∈ x.returns inside := by
  fun_induction fill holes x with
  | case1 x => exact .inr member
  | case2 c holes x => exact List.mem_append.mp member
  | case3 hole holes x _ ih =>
    rw [List.flatMap_cons, List.mem_append]
    rcases ih member with later | here
    · exact .inl (.inr later)
    · exact (Hole.mem_returns_fill here).imp .inl id

theorem or_nil {p : Prop} (either : p ∨ r ∈ ([] : List (Token × Bool))) : p :=
  either.elim id (absurd · List.not_mem_nil)

namespace State

theorem mem_kept : r ∈ s.kept ↔ r ∈ Stmt.returnsAll s.inFunction s.layer.done.toList ∨
    r ∈ s.layer.holes.flatMap (·.returns s.inFunction) ∨ r ∈ outerReturns s.outer := by
  rw [kept, Layer.returns, List.mem_append, List.mem_append, or_assoc]

theorem mem_kept_of_holes (heads : r ∈ s.layer.holes.flatMap (·.returns s.inFunction)) :
    r ∈ s.kept := mem_kept.mpr (.inr (.inl heads))

theorem mem_kept_of_outer (outer : r ∈ outerReturns s.outer) : r ∈ s.kept :=
  mem_kept.mpr (.inr (.inr outer))

theorem mem_returns : r ∈ s.returns ↔ r ∈ s.mode.returns s.inFunction ∨ r ∈ s.kept :=
  List.mem_append

theorem mem_returns_fail {problem : Problem} (member : r ∈ (s.fail t problem).returns) :
    r ∈ s.kept := by
  have mode : (s.fail t problem).mode.returns s.inFunction = [] := by
    unfold fail
    split <;> rfl
  rcases mem_returns.mp member with never | member
  · change r ∈ (s.fail t problem).mode.returns s.inFunction at never
    rw [mode] at never
    cases never
  · rcases mem_kept.mp member with done | never | outer
    · exact mem_kept.mpr (.inl done)
    · cases never
    · exact mem_kept_of_outer outer

theorem mem_returns_expectHeader {due : Header} (member : r ∈ (s.expectHeader due).returns) :
    r ∈ s.kept ∨ r ∈ due.returns s.inFunction :=
  (mem_returns.mp member).symm

theorem mem_returns_expectValue {goal : Goal} (member : r ∈ (s.expectValue goal).returns) :
    r ∈ s.kept ∨ r ∈ goal.returns s.inFunction :=
  (mem_returns.mp member).symm

theorem mem_returns_expectStatement {hole : Hole} (member : r ∈ (s.expectStatement hole).returns) :
    r ∈ s.kept ∨ r ∈ hole.returns s.inFunction := by
  rcases mem_returns.mp member with never | member
  · cases never
  · rcases mem_kept.mp member with done | heads | outer
    · exact .inl (mem_kept.mpr (.inl done))
    · change r ∈ (hole :: s.layer.holes).flatMap (·.returns s.inFunction) at heads
      rw [List.flatMap_cons, List.mem_append] at heads
      exact heads.symm.imp mem_kept_of_holes id
    · exact .inl (mem_kept_of_outer outer)

theorem mem_returns_enter {opener : Opener} (member : r ∈ (s.enter opener).returns) :
    r ∈ s.kept := by
  rcases mem_returns.mp member with never | member
  · cases never
  · rcases mem_kept.mp member with never | never | outer
    · cases never
    · cases never
    · exact outer

theorem mem_returns_finishDeclaration {x : Stmt} (member : r ∈ (s.finishDeclaration x).returns) :
    r ∈ s.kept ∨ r ∈ x.returns s.inFunction := by
  rcases mem_returns.mp member with never | member
  · cases never
  · rcases mem_kept.mp member with done | never | outer
    · change r ∈ Stmt.returnsAll s.inFunction (s.layer.done.push x).toList at done
      rw [Array.toList_push, Stmt.returnsAll_append, List.mem_append] at done
      rcases done with done | here
      · exact .inl (mem_kept.mpr (.inl done))
      · exact .inr (by simpa [Stmt.returnsAll] using here)
    · cases never
    · exact .inl (mem_kept_of_outer outer)

theorem mem_returns_completeAll {x : Stmt} (member : r ∈ (s.completeAll x).returns) :
    r ∈ s.kept ∨ r ∈ x.returns s.inFunction := by
  rcases mem_returns_finishDeclaration member with kept | here
  · exact .inl kept
  · exact (mem_returns_fillAll here).imp mem_kept_of_holes id

theorem mem_returns_complete {x : Stmt} (member : r ∈ (s.complete x).returns) :
    r ∈ s.kept ∨ r ∈ x.returns s.inFunction := by
  have filled : r ∈ (fill s.layer.holes x).returns s.inFunction →
      r ∈ s.kept ∨ r ∈ x.returns s.inFunction := fun member =>
    (mem_returns_fill member).imp mem_kept_of_holes id
  unfold complete at member
  split at member
  · next y same =>
    rw [same] at filled
    exact (mem_returns_finishDeclaration member).elim .inl filled
  · next holes condition y same =>
    rw [same] at filled
    rcases mem_returns.mp member with here | member
    · exact filled (List.mem_append_right _ here)
    · rcases mem_kept.mp member with done | heads | outer
      · exact .inl (mem_kept.mpr (.inl done))
      · exact filled (List.mem_append_left _ heads)
      · exact .inl (mem_kept_of_outer outer)

theorem mem_returns_reach {value : Expr} {goal : Goal} (member : r ∈ (s.reach value goal).returns) :
    r ∈ s.kept ∨ r ∈ goal.returns s.inFunction := by
  cases goal with
  | variableValue site name =>
    cases site with
    | declaration => exact mem_returns_complete member
    | forClause => exact mem_returns_expectHeader member
  | expression => exact mem_returns_complete member
  | printed keyword => exact mem_returns_complete member
  | returned keyword => exact mem_returns_complete member
  | ifCondition => exact mem_returns_expectStatement member
  | whileCondition => exact mem_returns_expectStatement member
  | forInitial => exact mem_returns_expectHeader member
  | forCondition initial => exact mem_returns_expectHeader member
  | forIncrement initial condition => exact mem_returns_expectStatement member

theorem mem_returns_feedValue {goal : Goal} {read : OpenExpr}
    (member : r ∈ (s.feedValue goal read t).returns) :
    r ∈ s.kept ∨ r ∈ goal.returns s.inFunction := by
  simp only [feedValue] at member
  split at member
  · exact (mem_returns.mp member).symm
  · have dropped := mem_returns_fail member
    exact .inl dropped
  · split at member
    · have reached := mem_returns_reach member
      exact reached
    · have dropped := mem_returns_fail member
      exact .inl dropped

theorem mem_returns_startStatement (member : r ∈ (s.startStatement t).returns) :
    r ∈ s.kept ∨ (t.kind = .kwReturn ∧ r = (t, s.inFunction)) := by
  unfold startStatement at member
  split at member
  · exact .inl (or_nil (mem_returns_expectHeader member))
  · exact .inl (or_nil (mem_returns_expectHeader member))
  · exact .inl (or_nil (mem_returns_expectValue member))
  · next kind =>
    have started : r ∈ s.kept ∨ r ∈ [(t, s.inFunction)] := by
      split at member
      · exact mem_returns_expectHeader member
      · have started := mem_returns_expectHeader member
        exact started
    exact started.imp id fun here => ⟨kind, List.mem_singleton.mp here⟩
  · exact .inl (or_nil (mem_returns_expectHeader member))
  · exact .inl (mem_returns_enter member)
  · exact .inl (or_nil (mem_returns_feedValue member))

theorem mem_returns_close {opener : Opener} {layer : Layer} {outer : List (Opener × Layer)}
    (around : s.outer = (opener, layer) :: outer)
    (member : r ∈ ({ s with layer, outer }.complete (opener.close s.layer.done.toList)).returns) :
    r ∈ s.kept := by
  have inside : s.inFunction = (opener.isBody || inBody outer) := by
    rw [inFunction, around]
    rfl
  have completed := mem_returns_complete member
  rw [mem_kept, around, inside]
  rcases completed with below | here
  · exact .inr (.inr below)
  · cases opener with
    | block => exact .inl here
    | body name params => exact .inl here

theorem mem_returns_startDeclaration (member : r ∈ (s.startDeclaration t).returns) :
    r ∈ s.kept ∨ (t.kind = .kwReturn ∧ r = (t, s.inFunction)) := by
  unfold startDeclaration at member
  split at member
  · exact .inl (or_nil (mem_returns_expectHeader member))
  · exact .inl (or_nil (mem_returns_expectHeader member))
  · exact .inl (mem_returns_close ‹_› member)
  · exact mem_returns_startStatement member

theorem mem_returns_feedParameter {name : Token} {params : Array Token}
    (member : r ∈ (s.feedParameter name params t).returns) : r ∈ s.kept := by
  unfold feedParameter at member
  split at member
  · exact or_nil (mem_returns_expectHeader member)
  · split at member <;> split at member
    · have named := mem_returns_expectHeader member
      exact or_nil named
    · have dropped := mem_returns_fail member
      exact dropped
    · exact or_nil (mem_returns_expectHeader member)
    · exact mem_returns_fail member

theorem mem_returns_feedHeader {due : Header} (member : r ∈ (s.feedHeader t due).returns) :
    r ∈ s.kept ∨ r ∈ due.returns s.inFunction := by
  cases due <;> simp only [feedHeader] at member
  case parameter name params => exact .inl (mem_returns_feedParameter member)
  case functionName | functionParen | variableName | forParen =>
    split at member
    · exact mem_returns_expectHeader member
    · exact .inl (mem_returns_fail member)
  case ifParen | whileParen =>
    split at member
    · exact mem_returns_expectValue member
    · exact .inl (mem_returns_fail member)
  case parameterEnd =>
    split at member
    · exact mem_returns_expectHeader member
    · split at member
      · exact mem_returns_expectHeader member
      · exact .inl (mem_returns_fail member)
  case bodyBrace =>
    split at member
    · exact .inl (mem_returns_enter member)
    · exact .inl (mem_returns_fail member)
  case variableEnd site name =>
    split at member
    · exact mem_returns_expectValue member
    · split at member
      · cases site with
        | declaration => exact mem_returns_complete member
        | forClause => exact mem_returns_expectHeader member
      · exact .inl (mem_returns_fail member)
  case returnValue keyword =>
    split at member
    · exact mem_returns_complete member
    · exact mem_returns_feedValue member
  case forInitial =>
    split at member
    · exact mem_returns_expectHeader member
    · split at member
      · exact mem_returns_expectHeader member
      · exact mem_returns_feedValue member
  case forCondition initial =>
    split at member
    · exact mem_returns_expectHeader member
    · exact mem_returns_feedValue member
  case forIncrement initial condition =>
    split at member
    · exact mem_returns_expectStatement member
    · exact mem_returns_feedValue member

theorem mem_returns_feed (member : r ∈ (s.feed t).returns) :
    r ∈ s.returns ∨ (s.opensReturn t = true ∧ r = (t, s.inFunction)) := by
  have opens (awaited : s.opensReturn t = t.is .kwReturn)
      (opened : t.kind = .kwReturn ∧ r = (t, s.inFunction)) :
      s.opensReturn t = true ∧ r = (t, s.inFunction) :=
    ⟨awaited.trans (Token.is_eq_true.mpr opened.1), opened.2⟩
  unfold feed at member
  split at member
  · next mode =>
    exact (mem_returns_startDeclaration member).imp (List.mem_append_right _)
      (opens (by simp [opensReturn, mode]))
  · next mode =>
    split at member
    · exact (mem_returns_startDeclaration member).imp (List.mem_append_right _)
        (opens (by simp [opensReturn, mode]))
    · split at member
      · exact .inl (List.mem_append_right _ member)
      · exact .inl member
  · next mode =>
    exact (mem_returns_startStatement member).imp (List.mem_append_right _)
      (opens (by simp [opensReturn, mode]))
  · next condition thenBranch mode =>
    rw [mem_returns, mode]
    split at member
    · exact .inl (mem_returns_expectStatement member).symm
    · refine (mem_returns_startDeclaration member).imp (fun kept => ?_)
        (opens (by simp [opensReturn, mode]))
      exact (mem_returns_completeAll (mem_returns.mpr (.inr kept))).symm
  · next due mode =>
    rw [mem_returns, mode]
    exact .inl (mem_returns_feedHeader member).symm
  · next goal read mode =>
    rw [mem_returns, mode]
    exact .inl (mem_returns_feedValue member).symm

theorem marks_push {e : SyntaxError} {s' : State} (quiet : e.problem ≠ .topLevelReturn)
    (pushed : s'.errors = s.errors.push e) : s'.marks = s.marks := by
  simp [marks, pushed, quiet]

theorem marks_of_errors {s' : State} (same : s'.errors = s.errors) : s'.marks = s.marks := by
  rw [marks, same, marks]

theorem marks_fail {problem : Problem} (quiet : problem ≠ .topLevelReturn) :
    (s.fail t problem).marks = s.marks := marks_push quiet rfl

theorem marks_complete (x : Stmt) : (s.complete x).marks = s.marks :=
  marks_of_errors (errors_complete x)

theorem marks_feedValue (goal : Goal) (read : OpenExpr) :
    (s.feedValue goal read t).marks = s.marks := by
  have read_marks : State.marks { s with errors := s.errors ++ (read.feed t).1 } = s.marks := by
    have quiet : (read.feed t).1.filter (·.problem = .topLevelReturn) = [] := by
      apply List.filter_eq_nil_iff.mpr
      intro e member
      simp [quiet_feed read t e member]
    simp [marks, quiet]
  simp only [feedValue]
  split
  · exact read_marks
  · next problem stuck =>
    have fault := OpenExpr.feed_stuck stuck
    rw [marks_fail, read_marks]
    rintro rfl
    cases fault
  · split
    · rw [marks_of_errors (reach_keeps _ _ _), read_marks]
    · rw [marks_fail, read_marks]
      intro same
      have fault := goal.closer_isSoft
      rw [same] at fault
      cases fault

def strayReport (t : Token) (inside : Bool) : List SyntaxError :=
  if t.kind = .kwReturn ∧ inside = false then [.atToken t .topLevelReturn] else []

theorem strayReport_nil (other : t.kind ≠ .kwReturn) : strayReport t inside = [] :=
  if_neg fun both => other both.1

theorem marks_startStatement :
    (s.startStatement t).marks = s.marks ++ strayReport t s.inFunction := by
  by_cases kind : t.kind = .kwReturn
  · rw [startStatement_return kind]
    cases inside : s.inFunction with
    | true => simp [strayReport, marks]
    | false => simp [strayReport, kind, marks, SyntaxError.atToken]
  · rw [strayReport_nil kind, List.append_nil]
    unfold startStatement
    split
    case h_4 => exact absurd ‹_› kind
    case h_7 => exact marks_feedValue _ _
    all_goals rfl

theorem marks_startDeclaration :
    (s.startDeclaration t).marks = s.marks ++ strayReport t s.inFunction := by
  unfold startDeclaration
  split
  case h_1 kind | h_2 kind =>
    rw [strayReport_nil (by simp [kind]), List.append_nil]
    rfl
  case h_3 opener layer outer kind around =>
    rw [strayReport_nil (by simp [kind]), List.append_nil]
    exact marks_of_errors (errors_complete _)
  case h_4 => exact marks_startStatement

theorem marks_feedParameter (name : Token) (params : Array Token) :
    (s.feedParameter name params t).marks = s.marks := by
  unfold feedParameter
  split
  · rfl
  · have reported : (s.report (.atToken t .tooManyParameters)).marks = s.marks :=
      marks_push (by simp [SyntaxError.atToken]) rfl
    split <;> split
    · exact reported
    · rw [marks_fail (by decide), reported]
    · rfl
    · exact marks_fail (by decide)

theorem marks_feedHeader (due : Header) : (s.feedHeader t due).marks = s.marks := by
  cases due <;> simp only [feedHeader]
  case parameter name params => exact marks_feedParameter name params
  case parameterEnd =>
    split
    · rfl
    · split
      · rfl
      · exact marks_fail (by decide)
  case variableEnd site name =>
    split
    · rfl
    · split
      · cases site with
        | declaration => exact marks_complete _
        | forClause => rfl
      · exact marks_fail (by decide)
  case returnValue keyword =>
    split
    · exact marks_complete _
    · exact marks_feedValue _ _
  case forInitial =>
    split
    · rfl
    · split
      · rfl
      · exact marks_feedValue _ _
  case forCondition initial | forIncrement initial condition =>
    split
    · rfl
    · exact marks_feedValue _ _
  all_goals
    split
    · rfl
    · exact marks_fail (by decide)

theorem marks_feed :
    (s.feed t).marks = s.marks ++ if s.opensReturn t then strayReport t s.inFunction else [] := by
  have started : (if t.is .kwReturn then strayReport t s.inFunction else []) =
      strayReport t s.inFunction := by
    by_cases kind : t.kind = .kwReturn <;> simp [strayReport, Token.is, kind]
  unfold feed
  split
  · next mode =>
    simp only [opensReturn, mode, Bool.and_true, started]
    exact marks_startDeclaration
  · next mode =>
    simp only [opensReturn, mode, Bool.and_true, started]
    split
    · exact marks_startDeclaration
    · next noStart =>
      have other : t.kind ≠ .kwReturn := by
        intro kind
        simp [kind, Token.Kind.startsStatement] at noStart
      rw [strayReport_nil other, List.append_nil]
      split <;> rfl
  · next mode =>
    simp only [opensReturn, mode, Bool.and_true, started]
    exact marks_startStatement
  · next condition thenBranch mode =>
    simp only [opensReturn, mode, Bool.and_true, started]
    split
    · next kind =>
      rw [strayReport_nil (by simp [Token.is_eq_true.mp kind]), List.append_nil]
      rfl
    · exact marks_startDeclaration
  · next due mode =>
    simp only [opensReturn, mode, Bool.and_false, Bool.false_eq_true, if_false, List.append_nil]
    exact marks_feedHeader due
  · next goal read mode =>
    simp only [opensReturn, mode, Bool.and_false, Bool.false_eq_true, if_false, List.append_nil]
    exact marks_feedValue goal read

/-- Of the returns that have been read, those in no function are reported, and no others. -/
structure Reports (s : State) (read : List Token) : Prop where
  fed : ∀ r ∈ s.returns, r.1 ∈ read
  marked : ∀ r ∈ s.returns, r.2 = false ↔ SyntaxError.atToken r.1 .topLevelReturn ∈ s.marks
  placed : ∀ e ∈ s.marks, ∃ k ∈ read, e = .atToken k .topLevelReturn

variable {read w : List Token}

theorem mem_marks_feed {e : SyntaxError} : e ∈ (s.feed t).marks ↔ e ∈ s.marks ∨
    (s.opensReturn t = true ∧ s.inFunction = false ∧ e = .atToken t .topLevelReturn) := by
  rw [marks_feed, List.mem_append]
  by_cases opens : s.opensReturn t = true
  · have kind : t.kind = .kwReturn := by
      simp only [opensReturn, Bool.and_eq_true] at opens
      exact Token.is_eq_true.mp opens.1
    cases inside : s.inFunction <;> simp [opens, strayReport, kind]
  · simp [opens]

theorem Reports.feed (reports : s.Reports read) (fresh : t.span ∉ read.map Token.span) :
    (s.feed t).Reports (read ++ [t]) := by
  have apart {k : Token} (member : k ∈ read) :
      SyntaxError.atToken k .topLevelReturn ≠ .atToken t .topLevelReturn := by
    intro same
    have span : k.span = t.span := congrArg SyntaxError.span same
    exact fresh (span ▸ List.mem_map_of_mem member)
  constructor
  · intro r member
    rw [List.mem_append]
    rcases mem_returns_feed member with before | ⟨-, rfl⟩
    · exact .inl (reports.fed r before)
    · exact .inr List.mem_cons_self
  · intro r member
    rw [mem_marks_feed]
    rcases mem_returns_feed member with before | ⟨opens, rfl⟩
    · rw [reports.marked r before]
      exact ⟨.inl, fun either => either.resolve_right fun ⟨_, _, same⟩ =>
        apart (reports.fed r before) same⟩
    · refine ⟨fun outside => .inr ⟨opens, outside, rfl⟩, fun either => ?_⟩
      rcases either with before | ⟨_, outside, _⟩
      · obtain ⟨k, member, same⟩ := reports.placed _ before
        exact absurd same.symm (apart member)
      · exact outside
  · intro e member
    rcases mem_marks_feed.mp member with before | ⟨-, -, rfl⟩
    · obtain ⟨k, member, same⟩ := reports.placed e before
      exact ⟨k, List.mem_append_left _ member, same⟩
    · exact ⟨t, by simp, rfl⟩

theorem Reports.run (reports : s.Reports read) (apart : ((read ++ w).map Token.span).Nodup) :
    (w.foldl State.feed s).Reports (read ++ w) := by
  induction w generalizing s read with
  | nil => simpa using reports
  | cons t w ih =>
    have fresh : t.span ∉ read.map Token.span := by
      rw [List.map_append, List.map_cons] at apart
      have disjoint := (List.nodup_append.mp apart).2.2
      intro member
      exact disjoint _ member _ List.mem_cons_self rfl
    rw [← List.singleton_append, ← List.append_assoc] at apart ⊢
    exact ih (reports.feed fresh) apart

theorem reports_start : State.Reports {} [] where
  fed _ member := absurd member List.not_mem_nil
  marked _ member := absurd member List.not_mem_nil
  placed _ member := absurd member List.not_mem_nil

theorem mem_kept_of_program (member : r ∈ Stmt.returnsAll false s.program.done.toList) :
    r ∈ s.kept := by
  have last : ∀ (outer : List (Opener × Layer)) (entry : Opener × Layer),
      outer.getLast? = some entry → r ∈ Stmt.returnsAll false entry.2.done.toList →
      r ∈ outerReturns outer := by
    intro outer
    induction outer with
    | nil => exact fun _ never => nomatch never
    | cons first rest ih =>
      intro entry found member
      rw [outerReturns, List.mem_append]
      cases rest with
      | nil =>
        cases found
        exact .inl (List.mem_append_left _ member)
      | cons next rest => exact .inr (ih entry found member)
  rw [mem_kept]
  unfold program at member
  split at member
  · next opener layer found => exact .inr (.inr (last s.outer _ found member))
  · next none =>
    have empty : s.outer = [] := List.getLast?_eq_none_iff.mp none
    have outside : s.inFunction = false := by
      rw [inFunction, empty]
      rfl
    rw [outside]
    exact .inl member

theorem mem_returns_finish (ends : t.kind = .eof)
    (member : r ∈ Stmt.returnsAll false (s.finish t).program.done.toList) : r ∈ s.returns := by
  have fed : r ∈ (s.feed t).returns → r ∈ s.returns := by
    intro member
    refine (mem_returns_feed member).resolve_right fun ⟨opens, _⟩ => ?_
    simp [opensReturn, Token.is, ends] at opens
  have kept := mem_kept_of_program member
  simp only [finish] at kept
  split at kept
  · exact List.mem_append_right _ kept
  · exact List.mem_append_right _ kept
  · next condition thenBranch mode =>
    rw [mem_returns, mode]
    have completed : r ∈ (s.completeAll (.ifElse condition thenBranch none)).returns :=
      mem_returns.mpr (.inr kept)
    exact (mem_returns_completeAll completed).symm
  all_goals exact fed (mem_returns.mpr (.inr kept))

theorem mem_marks_finish {e : SyntaxError} (ends : t.kind = .eof) :
    e ∈ (s.finish t).marks ↔ e ∈ s.marks := by
  have fed : e ∈ (s.feed t).marks ↔ e ∈ s.marks := by
    rw [mem_marks_feed]
    simp [opensReturn, Token.is, ends]
  have missing (s' : State) (n : Nat) :
      State.marks { s' with errors := s'.errors ++ List.replicate n (SyntaxError.atToken t .blockEnd) } =
        s'.marks := by
    simp [marks, SyntaxError.atToken]
  rw [finish, missing]
  split
  case h_4 | h_5 | h_6 => exact fed
  all_goals rfl

end State

/-- Of the returns recovered from tokens, those in no function are reported, and no others. -/
theorem parse_reports (tokens : List Token) (apart : ((body tokens).map Token.span).Nodup)
    (member : r ∈ Stmt.returnsAll false (parse tokens).statements) :
    r.2 = false ↔ ∃ e ∈ (parse tokens).errors,
      e.problem = .topLevelReturn ∧ e.line = r.1.line ∧ e.span = r.1.span := by
  have ends := ending_kind tokens
  have reports := State.reports_start.run (w := body tokens) apart
  rw [List.nil_append] at reports
  have read := State.mem_returns_finish ends member
  have marks {e : SyntaxError} : e ∈ (parse tokens).errors ∧ e.problem = .topLevelReturn ↔
      e ∈ ((body tokens).foldl State.feed {}).marks := by
    rw [← State.mem_marks_finish ends, State.marks, List.mem_filter, decide_eq_true_eq]
    rfl
  rw [reports.marked r read, ← marks]
  constructor
  · rintro ⟨reported, problem⟩
    exact ⟨_, reported, problem, rfl, rfl⟩
  · rintro ⟨e, reported, problem, -, span⟩
    obtain ⟨k, fed, rfl⟩ := reports.placed e (marks.mp ⟨reported, problem⟩)
    have same : k = r.1 := List.inj_on_of_nodup_map apart fed (reports.fed r read) span
    rw [← same]
    exact ⟨reported, problem⟩

end Parse

theorem Problem.message_eq_topLevelReturn {p : Problem} :
    p.message = "Can't return from top-level code." ↔ p = .topLevelReturn := by
  cases p <;> decide

theorem body_sublist (source : String) {found : List Found} {eof : Token}
    (tokens : (scan source).tokens = found.filterMap Found.token? ++ [eof])
    (last : eof.kind = .eof) :
    (Parse.body (scan source).tokens).Sublist (found.filterMap Found.token?) := by
  rw [tokens, Parse.body, List.takeWhile_append]
  split
  · rw [List.takeWhile_cons_of_neg (by simp [Token.is, last]), List.append_nil]
  · exact List.takeWhile_sublist _

theorem tokens_spans_sublist (found : List Found) :
    ((found.filterMap Found.token?).map Token.span).Sublist (found.map Found.span) := by
  induction found with
  | nil => exact .slnil
  | cons a found ih =>
    cases a with
    | token t => exact ih.cons_cons t.span
    | error e => exact ih.cons e.span

def Reported (errors : List SyntaxError) (message : String) (t : Token) : Prop :=
  ∃ e ∈ errors, e.message = message ∧ e.line = t.line ∧ e.span = t.span

theorem parseSource_reports {source : String} {r : Token × Bool}
    (member : r ∈ Stmt.returnsAll false (parseSource source).statements) :
    r.2 = false ↔
      Reported (parseSource source).errors "Can't return from top-level code." r.1 := by
  obtain ⟨found, eof, tokens, last, errors, tiles⟩ := scan_found source
  have apart : ((Parse.body (scan source).tokens).map Token.span).Nodup := by
    have tokensApart := tiles.ordered.spans_nodup.sublist (tokens_spans_sublist found)
    exact tokensApart.sublist ((body_sublist source tokens last).map Token.span)
  rw [Parse.parse_reports (scan source).tokens apart member]
  constructor
  · rintro ⟨e, reported, problem, place⟩
    exact ⟨e, List.mem_append_right _ reported, Problem.message_eq_topLevelReturn.mpr problem, place⟩
  · rintro ⟨e, reported, message, place⟩
    rcases List.mem_append.mp reported with lexical | reported
    · rw [errors] at lexical
      rcases tiles.error_message lexical with other | other <;>
      · rw [other] at message
        exact absurd message (by decide)
    · exact ⟨e, reported, Problem.message_eq_topLevelReturn.mp message, place⟩

end Treewalk
