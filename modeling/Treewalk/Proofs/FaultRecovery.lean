import Mathlib.Data.List.TakeWhile
import Treewalk.Proofs.ParseExact

namespace Treewalk

open Token (Kind)

/-- Problems after which a simple statement is still read on. -/
def Problem.isSoft : Problem → Bool
  | .assignmentTarget | .tooManyArguments | .topLevelReturn => true
  | _ => false

def hard (es : List SyntaxError) : List SyntaxError := es.filter (!·.problem.isSoft)

/-- What remains, inside a function, of the errors that tokens give outside all functions. -/
def heard (inside : Bool) (es : List SyntaxError) : List SyntaxError :=
  es.filter fun e => !(inside && e.problem == .topLevelReturn)

theorem hard_append (es es' : List SyntaxError) : hard (es ++ es') = hard es ++ hard es' :=
  List.filter_append ..

theorem heard_append (inside : Bool) (es es' : List SyntaxError) :
    heard inside (es ++ es') = heard inside es ++ heard inside es' := List.filter_append ..

@[simp] theorem heard_false (es : List SyntaxError) : heard false es = es := by
  simp [heard]

theorem hard_heard (inside : Bool) (es : List SyntaxError) : hard (heard inside es) = hard es := by
  rw [hard, heard, List.filter_filter]
  apply List.filter_congr
  intro e _
  by_cases ret : e.problem = .topLevelReturn <;> simp [ret, Problem.isSoft]

theorem heard_of_quiet {inside : Bool} {es : List SyntaxError}
    (quiet : ∀ e ∈ es, e.problem ≠ .topLevelReturn) : heard inside es = es := by
  apply List.filter_eq_self.mpr
  intro e member
  simp [quiet e member]

namespace Parse

theorem settle_errors (pending : List Pending) (value : Expr) (es : List SyntaxError) :
    ∀ e ∈ (settle pending value es).errors, e ∈ es ∨ e.problem = .assignmentTarget := by
  fun_induction settle pending value es with
  | case1 _ _ _ _ ih => exact ih
  | case2 _ _ _ _ _ _ ih => exact ih
  | case3 _ _ _ _ _ ih => exact ih
  | case4 target equals _ _ es _ ih =>
    intro e member
    rcases ih e member with earlier | same
    · rcases List.mem_append.mp earlier with before | last
      · exact .inl before
      · rw [List.mem_singleton.mp last]
        exact .inr rfl
    · exact .inr same
  | case5 => exact fun e member => .inl member

theorem OpenExpr.feed_problem (read : OpenExpr) (t : Token) :
    ∀ e ∈ (read.feed t).1, e.problem = .assignmentTarget ∨ e.problem = .tooManyArguments := by
  obtain ⟨pending, operand⟩ := read
  cases operand with
  | none =>
    intro e member
    simp only [feed, feedOperand] at member
    split at member
    · split at member
      · simp at member
      · split at member
        · simp only [List.mem_singleton] at member
          exact .inr (by rw [member]; rfl)
        · simp at member
    · simp at member
  | some value =>
    intro e member
    simp only [feed, feedOperator] at member
    split at member
    · simp at member
    · simp at member
    · simp at member
    · rcases settle_errors _ _ _ e member with never | same
      · simp at never
      · exact .inl same

theorem startOperand_stuck {pending : List Pending} {t : Token} {problem : Problem}
    (stuck : startOperand pending t = .stuck problem) : problem = .expression := by
  simp only [startOperand] at stuck
  split at stuck
  · simp at stuck
  · simp at stuck
  · simp at stuck
  · split at stuck
    · simp at stuck
    · cases stuck
      rfl

theorem endInner_stuck {settled : Settled} {t : Token} {problem : Problem}
    (stuck : endInner settled t = .stuck problem) :
    problem = .groupEnd ∨ problem = .argumentsEnd := by
  simp only [endInner] at stuck
  split at stuck
  · split at stuck
    · simp at stuck
    · cases stuck
      exact .inl rfl
  · split at stuck
    · simp at stuck
    · split at stuck
      · simp at stuck
      · cases stuck
        exact .inr rfl
  · simp at stuck

theorem OpenExpr.feed_stuck_cases {read : OpenExpr} {t : Token} {problem : Problem}
    (stuck : (read.feed t).2 = .stuck problem) :
    problem = .expression ∨ problem = .groupEnd ∨ problem = .argumentsEnd := by
  obtain ⟨pending, operand⟩ := read
  cases operand with
  | none =>
    simp only [feed, feedOperand] at stuck
    split at stuck
    · split at stuck
      · simp at stuck
      · split at stuck <;> exact .inl (startOperand_stuck stuck)
    · exact .inl (startOperand_stuck stuck)
  | some value =>
    simp only [feed, feedOperator] at stuck
    split at stuck
    · simp at stuck
    · simp at stuck
    · simp at stuck
    · exact .inr (endInner_stuck stuck)

theorem OpenExpr.feed_stuck {read : OpenExpr} {t : Token} {problem : Problem}
    (stuck : (read.feed t).2 = .stuck problem) : problem.isSoft = false := by
  rcases feed_stuck_cases stuck with rfl | rfl | rfl <;> rfl

theorem hard_feed (read : OpenExpr) (t : Token) : hard (read.feed t).1 = [] := by
  apply List.filter_eq_nil_iff.mpr
  intro e member
  rcases read.feed_problem t e member with same | same <;> simp [same, Problem.isSoft]

theorem quiet_feed (read : OpenExpr) (t : Token) :
    ∀ e ∈ (read.feed t).1, e.problem ≠ .topLevelReturn := by
  intro e member
  rcases read.feed_problem t e member with same | same <;> simp [same]

structure Goal.Simple (goal : Goal) : Prop where
  closer : goal.closer.1 = .semicolon
  reach : ∀ value, ∃ x, ∀ s : State, s.reach value goal = s.complete x

theorem Goal.Simple.expression : Goal.Simple .expression := ⟨rfl, fun _ => ⟨_, fun _ => rfl⟩⟩

theorem Goal.Simple.printed (keyword : Token) : Goal.Simple (.printed keyword) :=
  ⟨rfl, fun _ => ⟨_, fun _ => rfl⟩⟩

theorem Goal.Simple.variableValue (name : Token) :
    Goal.Simple (.variableValue .declaration name) := ⟨rfl, fun _ => ⟨_, fun _ => rfl⟩⟩

theorem Goal.Simple.returned (keyword : Token) : Goal.Simple (.returned keyword) :=
  ⟨rfl, fun _ => ⟨_, fun _ => rfl⟩⟩

theorem Goal.closer_isSoft (goal : Goal) : goal.closer.2.isSoft = false := by
  cases goal <;> rfl

inductive Mode.Simple : Mode → Prop
  | recovery : Simple .recovery
  | variableName : Simple (.header (.variableName .declaration))
  | variableEnd (name : Token) : Simple (.header (.variableEnd .declaration name))
  | returnValue (keyword : Token) : Simple (.header (.returnValue keyword))
  | value {goal : Goal} (read : OpenExpr) : goal.Simple → Simple (.value goal read)

def Mode.faults : Mode → Nat
  | .recovery | .declaration => 1
  | _ => 0

/-- From `mode`, reading `w` goes on to `next` in whatever list, with the errors `es`. -/
structure Mode.Goes (mode : Mode) (w : List Token) (es : List SyntaxError) (next : Mode) :
    Prop where
  reads : ∀ s : State, s.layer.holes = [] → { s with mode }.Reads w es { s with mode := next }
  counts : mode.faults + (hard es).length = next.faults
  quiet : ∀ e ∈ es, e.problem ≠ .topLevelReturn

def Mode.Ends (mode : Mode) (w : List Token) (x : Stmt) : Prop :=
  ∃ es, ∀ s : State, s.layer.holes = [] → { s with mode }.Reads w es (s.finishDeclaration x)

def Mode.Closes (mode : Mode) (w : List Token) : Prop :=
  (∃ es, mode.Goes w es .declaration) ∨ ∃ x, mode.Ends w x

namespace Mode

variable {mode next last : Mode} {v w : List Token} {es es' : List SyntaxError} {t : Token}
  {x : Stmt}

theorem Goes.trans (first : mode.Goes v es next) (second : next.Goes w es' last) :
    mode.Goes (v ++ w) (es ++ es') last where
  reads s free := (first.reads s free).append (second.reads s free)
  counts := by
    rw [hard_append, List.length_append, ← second.counts, ← first.counts]
    omega
  quiet e member := (List.mem_append.mp member).elim (first.quiet e) (second.quiet e)

theorem Goes.ends (first : mode.Goes v es next) (second : next.Ends w x) :
    mode.Ends (v ++ w) x := by
  obtain ⟨es', reads⟩ := second
  exact ⟨es ++ es', fun s free => (first.reads s free).append (reads s free)⟩

theorem Goes.silent (same : mode.faults = next.faults)
    (step : ∀ layer outer errors, State.feed ⟨layer, outer, mode, errors⟩ t =
      ⟨layer, outer, next, errors⟩) : mode.Goes [t] [] next where
  reads s _ := .single fun errors => by simpa using step s.layer s.outer errors
  counts := by simpa [hard] using same
  quiet := by simp

theorem Goes.fail (problem : Problem) (es : List SyntaxError) (free : mode.faults = 0)
    (fault : problem.isSoft = false) (soft : hard es = [])
    (quiet : ∀ e ∈ es, e.problem ≠ .topLevelReturn)
    (lands : (if t.is .semicolon then .declaration else .recovery) = next)
    (step : ∀ layer outer errors, State.feed ⟨layer, outer, mode, errors⟩ t =
      State.fail ⟨layer, outer, mode, errors ++ es⟩ t problem) :
    mode.Goes [t] (es ++ [.atToken t problem]) next where
  reads s bare := by
    obtain ⟨⟨done, holes⟩, outer, _, _⟩ := s
    cases bare
    refine .single ?_
    intro errors
    rw [step, State.fail, lands]
    simp [← appendList_append]
  counts := by
    have one : hard [SyntaxError.atToken t problem] = [.atToken t problem] := by
      simp [hard, SyntaxError.atToken, fault]
    rw [hard_append, soft, one, free, ← lands]
    split <;> rfl
  quiet e member := by
    rcases List.mem_append.mp member with before | last
    · exact quiet e before
    · rw [List.mem_singleton.mp last]
      rintro rfl
      cases fault

end Mode

theorem State.complete_of_free {s : State} (free : s.layer.holes = []) (x : Stmt) :
    s.complete x = s.finishDeclaration x := by
  simp [complete, free, fill]

theorem State.reads_complete {mode : Mode} {t : Token} {es : List SyntaxError} {x : Stmt}
    (step : ∀ layer outer errors, feed ⟨layer, outer, mode, errors⟩ t =
      complete ⟨layer, outer, mode, errors ++ es⟩ x) (s : State) (free : s.layer.holes = []) :
    { s with mode }.Reads [t] es (s.finishDeclaration x) := by
  refine .single ?_
  intro errors
  rw [step, complete_of_free]
  · rfl
  · exact free

namespace Mode

section

variable {mode next : Mode} {t : Token} (goal : Goal) (read : OpenExpr) (simple : goal.Simple)
  (free : mode.faults = 0) (step : ∀ layer outer errors,
    State.feed ⟨layer, outer, mode, errors⟩ t =
      State.feedValue ⟨layer, outer, mode, errors⟩ goal read t)

include free step in
theorem stuck_goes {problem : Problem} {es : List SyntaxError}
    (fed : read.feed t = (es, .stuck problem))
    (lands : (if t.is .semicolon then .declaration else .recovery) = next) :
    mode.Goes [t] (es ++ [.atToken t problem]) next := by
  have soft := hard_feed read t
  have quiet := quiet_feed read t
  have stuck : (read.feed t).2 = .stuck problem := by rw [fed]
  rw [fed] at soft quiet
  refine .fail problem es free (OpenExpr.feed_stuck stuck) soft quiet lands ?_
  intro layer outer errors
  rw [step]
  simp only [State.feedValue, fed]

include simple free step

theorem value_goes (other : t.is .semicolon = false) :
    ∃ es next, Simple next ∧ mode.Goes [t] es next := by
  have soft := hard_feed read t
  have quiet := quiet_feed read t
  rcases fed : read.feed t with ⟨es, next | value | problem⟩
  · rw [fed] at soft quiet
    refine ⟨es, .value goal next, .value next simple, ?_, ?_, quiet⟩
    · intro s _
      refine .single ?_
      intro errors
      rw [step]
      simp only [State.feedValue, fed]
    · rw [free, soft]
      rfl
  · rw [fed] at soft quiet
    refine ⟨_, .recovery, .recovery,
      .fail goal.closer.2 es free goal.closer_isSoft soft quiet ?_ ?_⟩
    · simp [other]
    · intro layer outer errors
      rw [step]
      simp [State.feedValue, fed, simple.closer, other]
  · exact ⟨_, .recovery, .recovery, stuck_goes goal read free step fed (by simp [other])⟩

theorem value_ends (kind : t.kind = .semicolon) :
    mode.Closes [t] := by
  have semicolon : t.is .semicolon = true := by simp [Token.is, kind]
  rcases fed : read.feed t with ⟨es, next | value | problem⟩
  · exact absurd (by rw [fed]) (read.feed_ne_more (t := t) (by simp [foreign, kind]) next)
  · obtain ⟨x, reach⟩ := simple.reach value
    refine .inr ⟨x, es, State.reads_complete fun layer outer errors => ?_⟩
    rw [step]
    simp only [State.feedValue, fed, simple.closer, semicolon, if_true, reach]
  · exact .inl ⟨_, stuck_goes goal read free step fed (by simp [semicolon])⟩

end

variable {mode : Mode} {t : Token}

theorem Simple.step (simple : mode.Simple) (other : t.is .semicolon = false)
    (later : mode = .recovery → t.kind.startsStatement = false) :
    ∃ es next, Simple next ∧ mode.Goes [t] es next := by
  cases simple with
  | recovery =>
    refine ⟨[], .recovery, .recovery, .silent rfl ?_⟩
    intro layer outer errors
    simp [State.feed, later rfl, other]
  | variableName =>
    by_cases named : t.is .identifier = true
    · refine ⟨[], .header (.variableEnd .declaration t), .variableEnd t, .silent rfl ?_⟩
      intro layer outer errors
      simp [State.feed, State.feedHeader, State.expectHeader, named]
    · refine ⟨_, .recovery, .recovery, .fail .variableName [] rfl rfl rfl (by simp) ?_ ?_⟩
      · simp [other]
      · intro layer outer errors
        simp [State.feed, State.feedHeader, named]
  | variableEnd name =>
    by_cases given : t.is .equal = true
    · refine ⟨[], .value (.variableValue .declaration name) {}, .value {} (.variableValue name),
        .silent rfl ?_⟩
      intro layer outer errors
      simp [State.feed, State.feedHeader, State.expectValue, given]
    · refine ⟨_, .recovery, .recovery, .fail .variableEnd [] rfl rfl rfl (by simp) ?_ ?_⟩
      · simp [other]
      · intro layer outer errors
        simp [State.feed, State.feedHeader, given, other]
  | returnValue keyword =>
    refine value_goes (.returned keyword) {} (.returned keyword) rfl ?_ other
    intro layer outer errors
    simp [State.feed, State.feedHeader, other]
  | value read simple => exact value_goes _ read simple rfl (fun _ _ _ => rfl) other

theorem Simple.semicolon (simple : mode.Simple) (kind : t.kind = .semicolon) :
    mode.Closes [t] := by
  cases simple with
  | recovery =>
    refine .inl ⟨[], .silent rfl ?_⟩
    intro layer outer errors
    simp [State.feed, Token.is, kind, Kind.startsStatement]
  | variableName =>
    refine .inl ⟨_, .fail .variableName [] rfl rfl rfl (by simp) (by simp [Token.is, kind]) ?_⟩
    intro layer outer errors
    simp [State.feed, State.feedHeader, Token.is, kind]
  | variableEnd name =>
    refine .inr ⟨.varDecl name none, [], State.reads_complete fun layer outer errors => ?_⟩
    simp [State.feed, State.feedHeader, Token.is, kind]
  | returnValue keyword =>
    refine .inr ⟨.ret keyword none, [], State.reads_complete fun layer outer errors => ?_⟩
    simp [State.feed, State.feedHeader, Token.is, kind]
  | value read simple => exact value_ends _ read simple rfl (fun _ _ _ => rfl) kind

theorem Simple.run {front : List Token} {last : Token} (simple : mode.Simple)
    (ends : last.kind = .semicolon) (inner : ∀ t ∈ front, t.is .semicolon = false)
    (first : mode = .recovery → ∀ t ∈ front, t.kind.startsStatement = false)
    (later : ∀ t ∈ front.tail, t.kind.startsStatement = false) :
    mode.Closes (front ++ [last]) := by
  induction front generalizing mode with
  | nil => exact simple.semicolon ends
  | cons t front ih =>
    have plain (u : Token) (member : u ∈ front) : u.kind.startsStatement = false := later u member
    obtain ⟨es, next, simple', goes⟩ :=
      simple.step (inner t (by simp)) (fun same => first same t (by simp))
    have rest := ih simple' (fun u member => inner u (by simp [member])) (fun _ => plain)
      (fun u member => plain u (List.mem_of_mem_tail member))
    rcases rest with ⟨es', goes'⟩ | ⟨x, ends'⟩
    · exact .inl ⟨_, goes.trans goes'⟩
    · exact .inr ⟨x, goes.ends ends'⟩

end Mode

/-- The tokens of a statement without parts of its own, whether or not it can be read. -/
structure SimpleTokens (b : List Token) : Prop where
  flat : ∀ t ∈ b, t.kind ∉ [.leftBrace, .rightBrace, .eof]
  ends : ∃ front last, b = front ++ [last] ∧ last.kind = .semicolon ∧
    ∀ t ∈ front, t.kind ≠ .semicolon
  first : ∀ t ∈ b.head?, t.kind ∉ [.kwFun, .kwFor, .kwIf, .kwWhile, .kwElse]
  later : ∀ t ∈ b.tail, t.kind ∉
    [.kwClass, .kwFun, .kwVar, .kwFor, .kwIf, .kwWhile, .kwPrint, .kwReturn]

def Dropped (b : List Token) (es : List SyntaxError) : Prop :=
  ∀ (inside : Bool) (s : State), s.AwaitsDeclaration inside → s.Reads b (heard inside es) s

/-- `b` is given up with exactly one hard error, or is read as one statement. -/
def DroppedOrRead (b : List Token) : Prop :=
  (∃ es, (hard es).length = 1 ∧ Dropped b es) ∨ ∃ x es, ReadsDeclarations false [x] b es

theorem State.AwaitsDeclaration.mode_eq {inside : Bool} {s : State}
    (awaits : s.AwaitsDeclaration inside) : { s with mode := .declaration } = s := by
  rw [← awaits.mode]

theorem State.AwaitsDeclaration.finishDeclaration {inside : Bool} {s : State}
    (awaits : s.AwaitsDeclaration inside) (x : Stmt) : s.finishDeclaration x = s.addDone [x] := by
  rw [← State.complete_of_free awaits.holes, ← awaits.completeAll, ← State.closed_complete,
    State.complete_of_free awaits.holes]
  rfl

theorem dropped_or_read {mode : Mode} {b w : List Token} {es₀ : List SyntaxError}
    (free : mode.faults = 0) (soft : hard es₀ = [])
    (opening : ∀ (inside : Bool) (s s' : State) (es : List SyntaxError),
      s.AwaitsDeclaration inside → State.Reads { s with mode } w es s' →
      s.Reads b (heard inside es₀ ++ es) s')
    (run : mode.Closes w) : DroppedOrRead b := by
  rcases run with ⟨es, goes⟩ | ⟨x, es, reads⟩
  · refine .inl ⟨es₀ ++ es, ?_, ?_⟩
    · have counts := goes.counts
      rw [free, Nat.zero_add] at counts
      rw [hard_append, soft, List.nil_append, counts]
      rfl
    · intro inside s awaits
      have all := goes.reads s awaits.holes
      rw [awaits.mode_eq] at all
      rw [heard_append, heard_of_quiet goes.quiet]
      exact opening inside s s es awaits all
  · refine .inr ⟨x, es₀ ++ es, ?_⟩
    intro s awaits
    have all := opening false s _ es awaits (reads s awaits.holes)
    rw [heard_false, awaits.finishDeclaration] at all
    refine ⟨_, all, ?_⟩
    rw [State.closed]
    simp only [State.addDone, awaits.mode]

theorem startsStatement_of_not_mem {k : Kind}
    (other : k ∉ [.kwClass, .kwFun, .kwVar, .kwFor, .kwIf, .kwWhile, .kwPrint, .kwReturn]) :
    k.startsStatement = false := by
  cases k <;> simp [Kind.startsStatement] at other ⊢

theorem State.feedValue_mode (s : State) (mode : Mode) (goal : Goal) (read : OpenExpr) (t : Token) :
    { s with mode }.feedValue goal read t = s.feedValue goal read t := by
  simp only [feedValue]
  split
  · rfl
  · rfl
  · split
    · exact reach_mode { s with errors := s.errors ++ (read.feed t).1 } _ goal mode
    · rfl

theorem State.AwaitsDeclaration.feed_expression {inside : Bool} {s : State} {t : Token}
    (awaits : s.AwaitsDeclaration inside)
    (other : t.kind ∉ [.kwFun, .kwFor, .kwIf, .kwWhile, .leftBrace, .rightBrace, .kwVar, .kwPrint,
      .kwReturn]) (errors : Array SyntaxError) :
    { s with errors }.feed t = State.feed { s with mode := .value .expression {}, errors } t := by
  have start : { s with errors }.startDeclaration t =
      { s with errors }.feedValue .expression {} t := by
    cases kind : t.kind <;> simp [kind] at other <;> simp [startDeclaration, startStatement, kind]
  rw [awaits.feed, start]
  exact (feedValue_mode { s with errors } (.value .expression {}) .expression {} t).symm

theorem opens_keyword {mode : Mode} {t : Token} {rest : List Token} (es₀ : List SyntaxError)
    (free : mode.faults = 0) (soft : hard es₀ = [])
    (step : ∀ (inside : Bool) (s : State), s.AwaitsDeclaration inside →
      ∀ errors, { s with errors }.feed t = { s with mode, errors := errors ++ heard inside es₀ })
    (run : mode.Closes rest) : DroppedOrRead (t :: rest) := by
  refine dropped_or_read free soft ?_ run
  intro inside s s' es awaits reads
  exact .cons (step inside s awaits) reads

theorem opens_expression {t : Token} {rest : List Token}
    (other : t.kind ∉ [.kwFun, .kwFor, .kwIf, .kwWhile, .leftBrace, .rightBrace, .kwVar, .kwPrint,
      .kwReturn]) (inside : Bool) (s s' : State) (es : List SyntaxError)
    (awaits : s.AwaitsDeclaration inside)
    (reads : State.Reads { s with mode := .value .expression {} } (t :: rest) es s') :
    s.Reads (t :: rest) (heard inside [] ++ es) s' := by
  intro errors
  rw [List.foldl_cons, awaits.feed_expression other, ← List.foldl_cons]
  exact reads errors

namespace SimpleTokens

variable {b : List Token}

theorem body_eq (simple : SimpleTokens b) : body b = b := by
  apply List.takeWhile_eq_self_iff.mpr
  intro t member
  have flat := simple.flat t member
  simp only [List.mem_cons, not_or] at flat
  simp [Token.is, flat.2.2.1]

theorem starts (simple : SimpleTokens b) : ∃ t rest, b = t :: rest ∧ t.kind ≠ .kwElse := by
  obtain ⟨front, last, same, _, _⟩ := simple.ends
  cases b with
  | nil => simp at same
  | cons t rest =>
    have first := simple.first t (by simp)
    simp only [List.mem_cons, not_or] at first
    exact ⟨t, rest, rfl, first.2.2.2.2.1⟩

theorem outcome (simple : SimpleTokens b) : DroppedOrRead b := by
  obtain ⟨front, last, rfl, ends, unended⟩ := simple.ends
  have inner (t : Token) (member : t ∈ front) : t.is .semicolon = false := by
    simpa [Token.is] using unended t member
  cases front with
  | nil =>
    have run := (Mode.Simple.value {} .expression).run ends inner (by simp) (by simp)
    refine dropped_or_read rfl rfl (opens_expression ?_) run
    simp [ends]
  | cons t front =>
    have plain (u : Token) (member : u ∈ front) : u.kind.startsStatement = false :=
      startsStatement_of_not_mem (simple.later u (by simp [member]))
    have within (u : Token) (member : u ∈ front) : u.is .semicolon = false :=
      inner u (by simp [member])
    have first := simple.first t (by simp)
    have flat := simple.flat t (by simp)
    have after {mode : Mode} (inMode : mode.Simple) : mode.Closes (front ++ [last]) :=
      inMode.run ends within (fun _ => plain)
        (fun u member => plain u (List.mem_of_mem_tail member))
    by_cases isVar : t.kind = .kwVar
    · refine opens_keyword [] rfl rfl ?_ (after .variableName)
      intro inside s awaits errors
      rw [awaits.feed]
      simp [State.startDeclaration, State.expectHeader, isVar, heard]
    by_cases isPrint : t.kind = .kwPrint
    · refine opens_keyword [] rfl rfl ?_ (after (.value {} (.printed t)))
      intro inside s awaits errors
      rw [awaits.feed]
      simp [State.startDeclaration, State.startStatement, State.expectValue, isPrint, heard]
    by_cases isReturn : t.kind = .kwReturn
    · refine opens_keyword [.atToken t .topLevelReturn] rfl rfl ?_ (after (.returnValue t))
      intro inside s awaits errors
      have same : State.inFunction { s with errors } = inside := awaits.inFunction
      rw [awaits.feed]
      simp only [State.startDeclaration, isReturn, State.startStatement_return isReturn, same]
      cases inside <;> simp [State.report, State.expectHeader, heard, SyntaxError.atToken]
    · have run := (Mode.Simple.value {} .expression).run ends inner (by simp) plain
      refine dropped_or_read rfl rfl (opens_expression ?_) run
      simp only [List.mem_cons, List.not_mem_nil, not_or] at first flat ⊢
      simp [first, flat, isVar, isPrint, isReturn]

end SimpleTokens

structure BadStatement (b : List Token) : Prop extends SimpleTokens b where
  lost : (parse b).statements = []

theorem Dropped.after {b v : List Token} {es es' : List SyntaxError} {inside : Bool}
    {xs : List Stmt} (dropped : Dropped b es') (starts : ∃ t rest, b = t :: rest ∧ t.kind ≠ .kwElse)
    (before : ReadsDeclarations inside xs v es) :
    ReadsDeclarations inside xs (v ++ b) (es ++ heard inside es') := by
  intro s awaits
  obtain ⟨t, rest, rfl, other⟩ := starts
  obtain ⟨s', reads, closes⟩ := before s awaits
  have skips := dropped inside (s.addDone xs) (awaits.addDone xs)
  rw [← closes] at skips
  refine ⟨_, reads.append (State.reads_of_closed other skips), ?_⟩
  rw [closes, State.closed]
  simp only [State.addDone, awaits.mode]

theorem BadStatement.parse_alone {b : List Token} (bad : BadStatement b) :
    Dropped b (parse b).errors ∧ (hard (parse b).errors).length = 1 := by
  rcases bad.outcome with ⟨es, one, dropped⟩ | ⟨x, es, reads⟩
  · have alone := dropped.after bad.starts (.empty : ReadsDeclarations false [] [] [])
    rw [List.nil_append, List.nil_append, heard_false, ← bad.body_eq] at alone
    rw [parse_of_reads alone]
    exact ⟨dropped, one⟩
  · have lost := bad.lost
    rw [← bad.body_eq] at reads
    rw [parse_of_reads reads] at lost
    cases lost

end Parse

open Grammar Parse

structure Insert where
  inside : Bool
  tokens : List Token

def Insert.errors (i : Insert) : List SyntaxError := heard i.inside (parse i.tokens).errors

/-- `w'` is `w`, the tokens of a clause, with bad statements before, between and after the
declarations of any of its declaration lists. -/
inductive Inserted : Clause → List Token → List Token → List Insert → Prop
  | unchanged {clause : Clause} {w : List Token} :
    Forms .strict clause w → Inserted clause w w []
  | bad {inside : Bool} {ss : List Stmt} {w w' b : List Token} {is : List Insert} :
    Inserted (.declarations inside ss) w w' is → BadStatement b →
    Inserted (.declarations inside ss) w (w' ++ b) (is ++ [⟨inside, b⟩])
  | more {inside : Bool} {s : Stmt} {ss : List Stmt} {v v' w w' : List Token}
      {is js : List Insert} :
    Inserted (.declarations inside ss) v v' is → Inserted (.declaration inside s) w w' js →
    Inserted (.declarations inside (ss ++ [s])) (v ++ w) (v' ++ w') (is ++ js)
  | statement {inside dangling : Bool} {s : Stmt} {w w' : List Token} {is : List Insert} :
    Inserted (.statement inside dangling s) w w' is → Inserted (.declaration inside s) w w' is
  | function {inside : Bool} {keyword name opened closed entered left : Token}
      {p w w' params : List Token} {ss : List Stmt} {is : List Insert} :
    keyword.kind = .kwFun → name.kind = .identifier → opened.kind = .leftParen →
    Params .strict params p → closed.kind = .rightParen → entered.kind = .leftBrace →
    Inserted (.declarations true ss) w w' is → left.kind = .rightBrace →
    Inserted (.declaration inside (.funDecl name params ss))
      (keyword :: name :: opened :: (p ++ closed :: entered :: (w ++ [left])))
      (keyword :: name :: opened :: (p ++ closed :: entered :: (w' ++ [left]))) is
  | block {inside : Bool} {opened closed : Token} {w w' : List Token} {ss : List Stmt}
      {is : List Insert} :
    opened.kind = .leftBrace → Inserted (.declarations inside ss) w w' is →
    closed.kind = .rightBrace →
    Inserted (.statement inside false (.block ss)) (opened :: (w ++ [closed]))
      (opened :: (w' ++ [closed])) is
  | whileLoop {inside dangling : Bool} {keyword opened closed : Token} {c w w' : List Token}
      {condition : Expr} {s : Stmt} {is : List Insert} :
    keyword.kind = .kwWhile → opened.kind = .leftParen →
    Derives .strict (.expr .expression condition) c → closed.kind = .rightParen →
    Inserted (.statement inside dangling s) w w' is →
    Inserted (.statement inside dangling (.whileLoop condition s))
      (keyword :: opened :: (c ++ closed :: w)) (keyword :: opened :: (c ++ closed :: w')) is
  | forLoop {inside dangling : Bool} {keyword opened semicolon closed : Token}
      {i c n w w' : List Token} {initial : Option Stmt} {condition increment : Option Expr}
      {s : Stmt} {is : List Insert} :
    keyword.kind = .kwFor → opened.kind = .leftParen → Initial .strict initial i →
    Optional .strict condition c → semicolon.kind = .semicolon → Optional .strict increment n →
    closed.kind = .rightParen → Inserted (.statement inside dangling s) w w' is →
    Inserted (.statement inside dangling
        (Parse.forLoop initial (condition.getD (.constant (.bool true))) increment s))
      (keyword :: opened :: (i ++ (c ++ semicolon :: (n ++ closed :: w))))
      (keyword :: opened :: (i ++ (c ++ semicolon :: (n ++ closed :: w')))) is
  | ifThen {inside dangling : Bool} {keyword opened closed : Token} {c w w' : List Token}
      {condition : Expr} {s : Stmt} {is : List Insert} :
    keyword.kind = .kwIf → opened.kind = .leftParen →
    Derives .strict (.expr .expression condition) c → closed.kind = .rightParen →
    Inserted (.statement inside dangling s) w w' is →
    Inserted (.statement inside true (.ifElse condition s none))
      (keyword :: opened :: (c ++ closed :: w)) (keyword :: opened :: (c ++ closed :: w')) is
  | ifElse {inside dangling : Bool} {keyword opened closed other : Token}
      {c v v' w w' : List Token} {condition : Expr} {s s' : Stmt} {is js : List Insert} :
    keyword.kind = .kwIf → opened.kind = .leftParen →
    Derives .strict (.expr .expression condition) c → closed.kind = .rightParen →
    Inserted (.statement inside false s) v v' is → other.kind = .kwElse →
    Inserted (.statement inside dangling s') w w' js →
    Inserted (.statement inside dangling (.ifElse condition s (some s')))
      (keyword :: opened :: (c ++ closed :: (v ++ other :: w)))
      (keyword :: opened :: (c ++ closed :: (v' ++ other :: w'))) (is ++ js)

namespace Inserted

variable {clause : Clause} {w w' : List Token} {is : List Insert}

theorem bad_of_mem (inserted : Inserted clause w w' is) : ∀ i ∈ is, BadStatement i.tokens := by
  induction inserted with
  | unchanged => simp
  | bad _ isBad ih =>
    intro i member
    rcases List.mem_append.mp member with before | last
    · exact ih i before
    · rw [List.mem_singleton.mp last]
      exact isBad
  | more _ _ ih ih' | ifElse _ _ _ _ _ _ _ ih ih' =>
    intro i member
    exact (List.mem_append.mp member).elim (ih i) (ih' i)
  | statement _ ih | block _ _ _ ih | whileLoop _ _ _ _ _ ih | ifThen _ _ _ _ _ ih => exact ih
  | function _ _ _ _ _ _ _ _ ih | forLoop _ _ _ _ _ _ _ _ ih => exact ih

theorem strictly {reading : List SyntaxError → Prop}
    (reads : ∃ es, Rules.strict.Waives es ∧ reading es) : reading [] := by
  obtain ⟨es, waived, read⟩ := reads
  rwa [Rules.waives_strict_iff.mp waived] at read

/-- With the inserted tokens, the clause is read as without them, and each insertion gives its own
errors. -/
theorem reads (inserted : Inserted clause w w' is) :
    ReadsClause clause w' (is.flatMap Insert.errors) := by
  induction inserted with
  | unchanged forms => exact strictly (forms_reads forms)
  | bad _ isBad ih =>
    rw [List.flatMap_append, List.flatMap_singleton]
    exact isBad.parse_alone.1.after isBad.starts ih
  | more _ _ before next =>
    rw [List.flatMap_append]
    exact before.more next
  | statement _ ih =>
    obtain ⟨⟨t, rest, rfl, other⟩, reads⟩ := ih
    exact .statement other reads
  | function kind named opens params ends enters _ leaves ih =>
    exact .function kind named opens (strictly (params_read params ends)) enters ih leaves
  | block opens _ ends ih =>
    exact ⟨⟨_, _, rfl, by rw [opens]; decide⟩, .block opens ih ends⟩
  | whileLoop kind opens condition ends _ ih =>
    exact ⟨⟨_, _, rfl, by rw [kind]; decide⟩,
      .whileLoop kind opens (strictly (expression_reads condition)) ends ih.2⟩
  | forLoop kind opens first second between third ends _ ih =>
    exact ⟨⟨_, _, rfl, by rw [kind]; decide⟩,
      .forLoop kind opens (strictly (initial_reads first)) (strictly (optional_reads second))
        between (strictly (optional_reads third)) ends ih.2⟩
  | ifThen kind opens condition ends _ ih =>
    exact ⟨⟨_, _, rfl, by rw [kind]; decide⟩,
      .ifThen kind opens (strictly (expression_reads condition)) ends ih.2⟩
  | ifElse kind opens condition ends _ otherwise _ ih ih' =>
    rw [List.flatMap_append]
    exact ⟨⟨_, _, rfl, by rw [kind]; decide⟩,
      .ifElse kind opens (strictly (expression_reads condition)) ends ih.2 otherwise ih'.2⟩

end Inserted

theorem hard_flatMap {is : List Insert}
    (one : ∀ i ∈ is, (hard (parse i.tokens).errors).length = 1) :
    (hard (is.flatMap Insert.errors)).map ([·]) = is.map fun i => hard (parse i.tokens).errors := by
  induction is with
  | nil => rfl
  | cons i is ih =>
    obtain ⟨e, alone⟩ := List.length_eq_one_iff.mp (one i (by simp))
    have here : hard i.errors = [e] := by rw [Insert.errors, hard_heard, alone]
    have rest := ih fun j member => one j (by simp [member])
    rw [List.flatMap_cons, hard_append, here, List.map_append, rest]
    simp [alone]

/-- Faults are reported independently. Take a program without errors and put any number of bad
simple statements between its declarations, in any of its lists. The same statements are read. The
errors are those of the inserted tokens; but for soft ones they are one for each insertion, in
order, and the one that its tokens give alone. -/
theorem faults_are_independent {sound : List Token} (clean : (parse sound).errors = []) :
    Inserted (.declarations false (parse sound).statements) (body sound) (body sound) [] ∧
    ∀ (faulty : List Token) (is : List Insert),
      Inserted (.declarations false (parse sound).statements) (body sound) (body faulty) is →
      (parse faulty).statements = (parse sound).statements ∧
      (parse faulty).errors = is.flatMap Insert.errors ∧
      (hard (parse faulty).errors).map ([·]) = is.map fun i => hard (parse i.tokens).errors := by
  have program : Program .strict (parse sound).statements (body sound) :=
    (program_iff _ _ _).mpr ⟨Rules.waives_strict_iff.mpr clean, rfl⟩
  refine ⟨.unchanged program, ?_⟩
  intro faulty is inserted
  have parsed : parse faulty = ⟨(parse sound).statements, is.flatMap Insert.errors⟩ :=
    parse_of_reads inserted.reads
  rw [parsed]
  refine ⟨rfl, rfl, hard_flatMap ?_⟩
  intro i member
  exact (inserted.bad_of_mem i member).parse_alone.2

def word (kind : Kind) (lexeme : String) (start : Nat) : Token :=
  { kind, lexeme, line := 1, span := ⟨start, start + lexeme.length⟩ }

def functionHead : List Token :=
  [word .kwFun "fun" 0, word .identifier "f" 4, word .leftParen "(" 5, word .rightParen ")" 6,
    word .leftBrace "\x7b" 8]

def functionEnd : Token := word .rightBrace "\x7d" 20

def printNil : List Token :=
  [word .kwPrint "print" 31, word .kwNil "nil" 37, word .semicolon ";" 40]

def badReturn : List Token :=
  [word .kwReturn "return" 10, word .rightParen ")" 17, word .semicolon ";" 18]

def badVariable : List Token :=
  [word .kwVar "var" 22, word .kwNil "nil" 26, word .semicolon ";" 29]

theorem badReturn_bad : BadStatement badReturn where
  flat := by decide
  ends := ⟨badReturn.dropLast, word .semicolon ";" 18, rfl, rfl, by decide⟩
  first := by decide
  later := by decide
  lost := rfl

theorem badVariable_bad : BadStatement badVariable where
  flat := by decide
  ends := ⟨badVariable.dropLast, word .semicolon ";" 29, rfl, rfl, by decide⟩
  first := by decide
  later := by decide
  lost := rfl

def soundTokens : List Token := functionHead ++ [functionEnd] ++ printNil

def faultyTokens : List Token :=
  functionHead ++ badReturn ++ [functionEnd] ++ badVariable ++ printNil

def twoInserts : List Insert := [⟨true, badReturn⟩, ⟨false, badVariable⟩]

theorem twoInserts_inserted :
    Inserted (.declarations false (parse soundTokens).statements) (body soundTokens)
      (body faultyTokens) twoInserts := by
  have inFunction : Inserted (.declarations true []) [] badReturn [⟨true, badReturn⟩] :=
    .bad (.unchanged .empty) badReturn_bad
  have function : Inserted (.declaration false (.funDecl (word .identifier "f" 4) [] []))
      (functionHead ++ [functionEnd]) (functionHead ++ badReturn ++ [functionEnd]) _ :=
    .function rfl rfl rfl .empty rfl rfl inFunction rfl
  have printed : Forms .strict (.statement false false
      (.print (word .kwPrint "print" 31) (.constant .nil))) printNil :=
    .print rfl (.tighter (Nat.zero_le _) (.atom (.nil rfl))) rfl
  exact .more (.bad (.more (.unchanged .empty) function) badVariable_bad)
    (.unchanged (.statement printed))

theorem faults_are_independent_in_body_and_program :
    (parse soundTokens).errors = [] ∧
    (parse faultyTokens).statements = (parse soundTokens).statements ∧
    (parse faultyTokens).errors = twoInserts.flatMap Insert.errors ∧
    (hard (parse faultyTokens).errors).map ([·]) =
      twoInserts.map fun i => hard (parse i.tokens).errors :=
  have clean : (parse soundTokens).errors = [] := rfl
  ⟨clean, (faults_are_independent clean).2 faultyTokens twoInserts twoInserts_inserted⟩

end Treewalk
