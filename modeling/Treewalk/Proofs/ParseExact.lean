import Treewalk.Parse
import Treewalk.Proofs.StatementGrammar

namespace Treewalk.Parse

open Grammar Grammar.Rules
open Token (Kind)

def foreign : List Kind := [.eof, .semicolon, .rightBrace]

theorem OpenExpr.feed_ne_more {t : Token} (read : OpenExpr) (ends : t.kind ∈ foreign)
    (next : OpenExpr) : (read.feed t).2 ≠ .more next := by
  have cases : t.kind = .eof ∨ t.kind = .semicolon ∨ t.kind = .rightBrace := by
    simpa [foreign] using ends
  have notClosed : t.is .rightParen = false := by
    rcases cases with ends | ends | ends <;> simp [Token.is, ends]
  have notComma : t.is .comma = false := by
    rcases cases with ends | ends | ends <;> simp [Token.is, ends]
  have stuck (pending : List Pending) : startOperand pending t = .stuck .expression := by
    rcases cases with ends | ends | ends <;> simp [startOperand, primary?, ends]
  unfold OpenExpr.feed
  split
  · unfold feedOperand
    split
    · rw [notClosed, Bool.and_false, if_neg Bool.false_ne_true]
      split <;> simp [stuck]
    · simp [stuck]
  · rcases cases with ends | ends | ends <;>
      simp only [feedOperator, ends, Level.ofKind?, endInner, notClosed, notComma] <;>
      split <;> simp

namespace State

variable {rules : Rules} {s : State} {t : Token} {w : List Token}

@[simp] theorem errors_expectHeader (due : Header) : (s.expectHeader due).errors = s.errors := rfl

@[simp] theorem errors_expectValue (goal : Goal) : (s.expectValue goal).errors = s.errors := rfl

@[simp] theorem errors_expectStatement (hole : Hole) :
    (s.expectStatement hole).errors = s.errors := rfl

@[simp] theorem errors_enter (opener : Opener) : (s.enter opener).errors = s.errors := rfl

@[simp] theorem errors_completeAll (x : Stmt) : (s.completeAll x).errors = s.errors := rfl

@[simp] theorem errors_complete (x : Stmt) : (s.complete x).errors = s.errors := by
  rw [s.complete_errors x s.errors]

@[simp] theorem errors_fail (problem : Problem) :
    (s.fail t problem).errors = s.errors.push (.atToken t problem) := rfl

@[simp] theorem errors_report (e : SyntaxError) : (s.report e).errors = s.errors.push e := rfl

theorem feedValue_errors (s : State) (goal : Goal) (read : OpenExpr) (t : Token) :
    s.errors.toList <+: (s.feedValue goal read t).errors.toList := by
  simp only [feedValue]
  split
  · simp
  · simp
  · split
    · simp [reach_keeps]
    · simp

theorem startStatement_errors (s : State) (t : Token) :
    s.errors.toList <+: (s.startStatement t).errors.toList := by
  unfold startStatement
  split
  case h_7 => exact s.feedValue_errors _ _ _
  case h_4 => split <;> simp
  all_goals simp

theorem startDeclaration_errors (s : State) (t : Token) :
    s.errors.toList <+: (s.startDeclaration t).errors.toList := by
  unfold startDeclaration
  split
  case h_4 => exact s.startStatement_errors t
  all_goals simp

theorem feedParameter_errors (s : State) (name : Token) (params : Array Token) (t : Token) :
    s.errors.toList <+: (s.feedParameter name params t).errors.toList := by
  unfold feedParameter
  split
  · simp
  · by_cases many : maxArguments ≤ params.size <;> by_cases named : t.is .identifier = true <;>
      simp [many, named]

theorem feedHeader_errors (s : State) (t : Token) (due : Header) :
    s.errors.toList <+: (s.feedHeader t due).errors.toList := by
  cases due with
  | parameter name params => exact s.feedParameter_errors name params t
  | returnValue keyword =>
    simp only [feedHeader]
    split
    · simp
    · exact s.feedValue_errors _ _ _
  | forInitial =>
    simp only [feedHeader]
    split
    · simp
    · split
      · simp
      · exact s.feedValue_errors _ _ _
  | forCondition initial =>
    simp only [feedHeader]
    split
    · simp
    · exact s.feedValue_errors _ _ _
  | forIncrement initial condition =>
    simp only [feedHeader]
    split
    · simp
    · exact s.feedValue_errors _ _ _
  | variableEnd site name =>
    simp only [feedHeader]
    split
    · simp
    · split
      · cases site <;> simp
      · simp
  | parameterEnd name params =>
    simp only [feedHeader]
    split
    · simp
    · split <;> simp
  | _ =>
    simp only [feedHeader]
    split <;> simp

theorem feed_errors (s : State) (t : Token) : s.errors.toList <+: (s.feed t).errors.toList := by
  unfold feed
  split
  · exact s.startDeclaration_errors t
  · split
    · exact s.startDeclaration_errors t
    · split <;> simp
  · exact s.startStatement_errors t
  · split
    · simp
    · exact (s.completeAll _).startDeclaration_errors t
  · exact s.feedHeader_errors t _
  · exact s.feedValue_errors _ _ t

theorem run_errors (s : State) (w : List Token) :
    s.errors.toList <+: (w.foldl feed s).errors.toList := by
  induction w generalizing s with
  | nil => exact List.prefix_rfl
  | cons t w ih => exact (s.feed_errors t).trans (ih (s.feed t))

theorem finish_errors (s : State) (t : Token) :
    s.errors.toList <+: (s.finish t).errors.toList := by
  have fed : s.errors.toList <+: (s.feed t).errors.toList := s.feed_errors t
  simp only [finish, Array.toList_appendList]
  split
  case h_4 | h_5 | h_6 => exact fed.trans (List.prefix_append _ _)
  all_goals exact List.prefix_append _ _

theorem Accepted.of_prefix {s' : State} (accepted : s'.Accepted rules)
    (earlier : s.errors.toList <+: s'.errors.toList) : s.Accepted rules := by
  intro e member
  exact accepted e (Array.mem_toList_iff.mp (earlier.subset (Array.mem_toList_iff.mpr member)))

theorem run_spells {v : List Token} (spells : s.Spells rules v)
    (accepted : (w.foldl feed s).Accepted rules) : (w.foldl feed s).Spells rules (v ++ w) := by
  induction w generalizing s v with
  | nil => simpa using spells
  | cons t w ih =>
    have here : (s.feed t).Accepted rules := accepted.of_prefix (run_errors _ w)
    simpa using ih (feed_spells spells here) accepted

theorem spells_empty : State.Spells rules {} [] :=
  ⟨[], [], [], [], rfl, .nil, .empty, .nil, .declaration rfl⟩

theorem feedValue_eof {goal : Goal} {read : OpenExpr} {r : List Token} (ends : t.kind = .eof)
    (spells : read.Spells rules r) : ¬ (s.feedValue goal read t).Accepted rules := by
  intro accepted
  have waived : rules.Waives (read.feed t).1 := by
    intro e member
    exact accepted e (s.feedValue_keeps goal read t (by simp [member]))
  have follows := feed_follows t spells waived
  have other : t.is goal.closer.1 = false := by
    cases goal <;> simp [Goal.closer, Token.is, ends]
  rcases fed : read.feed t with ⟨es, next | value | problem⟩
  · exact OpenExpr.feed_ne_more (t := t) read (by simp [foreign, ends]) next (by rw [fed])
  · simp only [feedValue, fed, other] at accepted
    exact not_accepted_fail (Goal.closer_hard goal) accepted
  · rw [fed] at follows
    simp only [feedValue, fed] at accepted
    exact not_accepted_fail follows accepted

theorem startStatement_eof (ends : t.kind = .eof) : ¬ (s.startStatement t).Accepted rules := by
  simp only [startStatement, ends]
  exact feedValue_eof ends .empty

theorem feedHeader_eof (due : Header) (ends : t.kind = .eof) :
    ¬ (s.feedHeader t due).Accepted rules := by
  have no (kind : Kind) (other : kind ≠ .eof) : t.is kind = false := by
    simpa [Token.is, ends] using other.symm
  cases due with
  | parameter name params =>
    simp only [feedHeader, feedParameter, no .rightParen (by decide), no .identifier (by decide),
      Bool.and_false]
    exact not_accepted_fail rfl
  | returnValue keyword =>
    simp only [feedHeader, no .semicolon (by decide)]
    exact feedValue_eof ends .empty
  | forInitial =>
    simp only [feedHeader, no .semicolon (by decide), no .kwVar (by decide)]
    exact feedValue_eof ends .empty
  | forCondition initial =>
    simp only [feedHeader, no .semicolon (by decide)]
    exact feedValue_eof ends .empty
  | forIncrement initial condition =>
    simp only [feedHeader, no .rightParen (by decide)]
    exact feedValue_eof ends .empty
  | _ =>
    simp only [feedHeader, Token.is, ends]
    exact not_accepted_fail rfl

theorem feed_eof (spells : s.Spells rules w) (ends : t.kind = .eof)
    (busy : s.mode = .statement ∨ (∃ due, s.mode = .header due) ∨
      ∃ goal read, s.mode = .value goal read) :
    ¬ (s.feed t).Accepted rules := by
  obtain ⟨layer, outer, mode, errors⟩ := s
  rcases busy with same | ⟨due, same⟩ | ⟨goal, read, same⟩
  · cases same
    exact startStatement_eof ends
  · cases same
    exact feedHeader_eof due ends
  · cases same
    obtain ⟨_, _, _, _, _, _, _, _, spelled⟩ := spells
    cases spelled with
    | value lead spelled => exact feedValue_eof ends spelled

theorem Spells.program (spells : s.Spells rules w) (mode : s.mode = .declaration)
    (outside : s.outer = []) : Program rules s.layer.done.toList w := by
  obtain ⟨layer, outer, _, errors⟩ := s
  cases mode
  cases outside
  obtain ⟨u, v, x, y, rfl, around, done, heads, spelled⟩ := spells
  cases around
  cases spelled with
  | declaration free =>
    change layer.holes = [] at free
    rw [free] at heads
    cases heads
    simpa [Program, inBody] using done

theorem outer_of_accepted {n : Nat} {errors : Array SyntaxError}
    (accepted : ∀ e ∈ errors ++ List.replicate n (SyntaxError.atToken t .blockEnd),
      rules.waives e.problem = true) : n = 0 := by
  cases n with
  | zero => rfl
  | succ n =>
    have waived := accepted (.atToken t .blockEnd) (by simp)
    cases waived

theorem finish_spells (spells : s.Spells rules w) (ends : t.kind = .eof)
    (accepted : (s.finish t).Accepted rules) :
    Program rules (s.finish t).program.done.toList w := by
  obtain ⟨layer, outer, mode, errors⟩ := s
  cases mode with
  | declaration =>
    have outside : outer = [] := List.length_eq_zero_iff.mp (outer_of_accepted accepted)
    subst outside
    exact spells.program rfl rfl
  | recovery =>
    obtain ⟨_, _, _, _, _, _, _, _, spelled⟩ := spells
    cases spelled
  | afterThen condition thenBranch =>
    have outside : outer = [] := List.length_eq_zero_iff.mp (outer_of_accepted accepted)
    subst outside
    obtain ⟨u, v, x, y, rfl, around, done, heads, spelled⟩ := spells
    cases spelled with
    | afterThen head body =>
      have all := completeAll_spells (s := ⟨layer, [], _, errors⟩) around done heads
        (then_fill head body)
      exact all.program rfl rfl
  | statement =>
    have fed : (feed ⟨layer, outer, .statement, errors⟩ t).Accepted rules :=
      fun e member => accepted e (by simp [finish, member])
    exact absurd fed (feed_eof spells ends (.inl rfl))
  | header due =>
    have fed : (feed ⟨layer, outer, .header due, errors⟩ t).Accepted rules :=
      fun e member => accepted e (by simp [finish, member])
    exact absurd fed (feed_eof spells ends (.inr (.inl ⟨due, rfl⟩)))
  | value goal read =>
    have fed : (feed ⟨layer, outer, .value goal read, errors⟩ t).Accepted rules :=
      fun e member => accepted e (by simp [finish, member])
    exact absurd fed (feed_eof spells ends (.inr (.inr ⟨goal, read, rfl⟩)))

end State

theorem ending_kind (tokens : List Token) : (ending tokens).kind = .eof := by
  unfold ending
  split
  · rename_i eof found
    simpa using List.find?_some found
  · rfl

theorem parse_of_reads {tokens : List Token} {xs : List Stmt} {es : List SyntaxError}
    (reads : ReadsDeclarations false xs (body tokens) es) : parse tokens = ⟨xs, es⟩ := by
  have run := finish_of_reads (ending tokens) reads
  simp only [parse, run, State.program]
  rfl

/-- With some rules waived: the errors are all of waived rules, and these are the trees, exactly
where the grammar without those rules has the tokens. -/
theorem program_iff (rules : Rules) (tokens : List Token) (p : List Stmt) :
    Program rules p (body tokens) ↔
      rules.Waives (parse tokens).errors ∧ (parse tokens).statements = p := by
  constructor
  · intro derives
    obtain ⟨es, waived, reads⟩ := forms_reads derives
    rw [parse_of_reads reads]
    exact ⟨waived, rfl⟩
  · rintro ⟨waived, rfl⟩
    have accepted : (((body tokens).foldl State.feed {}).finish (ending tokens)).Accepted rules :=
      fun e member => waived e (by simpa [parse] using member)
    have before : ((body tokens).foldl State.feed {}).Accepted rules :=
      accepted.of_prefix (State.finish_errors _ _)
    have spells := State.run_spells State.spells_empty before
    exact State.finish_spells spells (ending_kind tokens) accepted

end Parse

open Grammar

theorem Grammar.Rules.waives_strict_iff {es : List SyntaxError} :
    Rules.strict.Waives es ↔ es = [] := by
  constructor
  · intro waived
    cases es with
    | nil => rfl
    | cons e es =>
      have never := waived e (by simp)
      cases problem : e.problem <;> simp [Rules.strict, Rules.waives, problem] at never
  · rintro rfl
    exact .nil

/-- The parser is exact: no error is reported if and only if the tokens before the end of the input
derive from the grammar, and then the statements are the only tree that they have. -/
theorem parse_exact (tokens : List Token) :
    ((parse tokens).errors = [] ↔
      ∃ p, Program .strict p (tokens.takeWhile (·.kind != .eof))) ∧
    ∀ p, Program .strict p (tokens.takeWhile (·.kind != .eof)) → p = (parse tokens).statements := by
  have exact_of (p : List Stmt) := Parse.program_iff .strict tokens p
  simp only [Rules.waives_strict_iff] at exact_of
  refine ⟨⟨fun clean => ⟨_, (exact_of _).mpr ⟨clean, rfl⟩⟩, ?_⟩, ?_⟩
  · rintro ⟨p, derives⟩
    exact ((exact_of p).mp derives).1
  · intro p derives
    exact ((exact_of p).mp derives).2.symm

end Treewalk
