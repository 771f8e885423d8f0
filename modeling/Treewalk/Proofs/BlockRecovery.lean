import Treewalk.Proofs.ErrorTokens
import Treewalk.Proofs.FaultRecovery

namespace Treewalk

open Token (Kind)

namespace Parse

namespace State

variable {s : State} {t : Token}

@[simp] theorem complete_outer (x : Stmt) : (s.complete x).outer = s.outer := by
  unfold complete
  split <;> rfl

theorem reach_outer (value : Expr) (goal : Goal) : (s.reach value goal).outer = s.outer := by
  unfold reach
  split <;> first | exact complete_outer _ | rfl

theorem feedValue_outer (goal : Goal) (read : OpenExpr) :
    (s.feedValue goal read t).outer = s.outer := by
  simp only [feedValue]
  split
  · rfl
  · rfl
  · split
    · rw [reach_outer]
    · rfl

theorem startStatement_outer (noOpening : t.kind ≠ .leftBrace) :
    (s.startStatement t).outer = s.outer := by
  unfold startStatement
  split
  case h_4 => by_cases inside : s.inFunction = true <;> simp [inside, expectHeader, report]
  case h_6 kind => exact absurd kind noOpening
  case h_7 => exact feedValue_outer _ _
  all_goals rfl

theorem startDeclaration_outer (noOpening : t.kind ≠ .leftBrace)
    (noClosing : t.kind ≠ .rightBrace) : (s.startDeclaration t).outer = s.outer := by
  unfold startDeclaration
  split
  case h_3 kind _ => exact absurd kind noClosing
  case h_4 => exact startStatement_outer noOpening
  all_goals rfl

theorem feedParameter_outer (name : Token) (params : Array Token) :
    (s.feedParameter name params t).outer = s.outer := by
  unfold feedParameter
  split
  · rfl
  · by_cases many : maxArguments ≤ params.size <;> by_cases named : t.is .identifier = true <;>
      simp [many, named, expectHeader, fail, report]

theorem feedHeader_outer (due : Header) (noOpening : t.kind ≠ .leftBrace) :
    (s.feedHeader t due).outer = s.outer := by
  have no : t.is .leftBrace = false := by simpa [Token.is] using noOpening
  unfold feedHeader
  split
  case h_3 => exact feedParameter_outer _ _
  case h_5 => simp [no, fail]
  all_goals
    repeat' split
    all_goals first | rfl | exact complete_outer _ | exact feedValue_outer _ _

theorem feed_outer (noOpening : t.kind ≠ .leftBrace) (noClosing : t.kind ≠ .rightBrace) :
    (s.feed t).outer = s.outer := by
  unfold feed
  split
  · exact startDeclaration_outer noOpening noClosing
  · split
    · exact startDeclaration_outer noOpening noClosing
    · split <;> rfl
  · exact startStatement_outer noOpening
  · split
    · rfl
    · exact startDeclaration_outer noOpening noClosing
  · exact feedHeader_outer _ noOpening
  · exact feedValue_outer _ _

/-- Between two declarations, once a conditional waits for no `else`. -/
def Rests (s : State) : Prop := s.closed.mode = .declaration

theorem feed_closing {opener : Opener} (rests : s.Rests) (list : s.outer = [(opener, {})])
    (closes : t.kind = .rightBrace) :
    ∃ xs, s.feed t = { layer := { done := #[opener.close xs] }, errors := s.errors } := by
  have outer : s.closed.outer = s.outer := by
    unfold closed
    split <;> rfl
  have errors : s.closed.errors = s.errors := by
    unfold closed
    split <;> rfl
  rw [s.feed_closed (by rw [closes]; decide), ← errors]
  rw [list] at outer
  unfold Rests at rests
  generalize s.closed = s' at rests outer
  obtain ⟨layer, _, _, _⟩ := s'
  cases rests
  cases outer
  refine ⟨layer.done.toList, ?_⟩
  simp [feed, startDeclaration, closes, complete, fill, finishDeclaration]

theorem feedValue_brace (goal : Goal) (read : OpenExpr) (closes : t.kind = .rightBrace) :
    (s.feedValue goal read t).mode = .recovery := by
  have other : t.is .semicolon = false := by simp [Token.is, closes]
  have notDue : t.is goal.closer.1 = false := by
    cases goal <;> simp [Goal.closer, Token.is, closes]
  simp only [feedValue]
  split
  · next next same => exact absurd same (read.feed_ne_more (by simp [foreign, closes]) next)
  · simp [fail, other]
  · simp [fail, other, notDue]

theorem feedHeader_brace (due : Header) (closes : t.kind = .rightBrace) :
    (s.feedHeader t due).mode = .recovery := by
  have no (kind : Kind) (other : kind ≠ .rightBrace) : t.is kind = false := by
    simpa [Token.is, closes] using other.symm
  cases due with
  | returnValue keyword =>
    simp only [feedHeader, no .semicolon (by decide), Bool.false_eq_true, if_false]
    exact feedValue_brace _ _ closes
  | forInitial =>
    simp only [feedHeader, no .semicolon (by decide), no .kwVar (by decide), Bool.false_eq_true,
      if_false]
    exact feedValue_brace _ _ closes
  | forCondition initial =>
    simp only [feedHeader, no .semicolon (by decide), Bool.false_eq_true, if_false]
    exact feedValue_brace _ _ closes
  | forIncrement initial condition =>
    simp only [feedHeader, no .rightParen (by decide), Bool.false_eq_true, if_false]
    exact feedValue_brace _ _ closes
  | _ => simp [feedHeader, feedParameter, fail, Token.is, closes]

theorem feed_skipped (busy : ¬ s.Rests) (closes : t.kind = .rightBrace) :
    (s.feed t).mode = .recovery ∧ (s.feed t).outer = s.outer := by
  -- No expression, head or statement can go on with the brace, so whatever is being read is given
  -- up there, and giving up skips the token.
  have noOpening : t.kind ≠ .leftBrace := by rw [closes]; decide
  obtain ⟨layer, outer, mode, errors⟩ := s
  cases mode with
  | declaration => exact absurd rfl busy
  | afterThen condition thenBranch => exact absurd rfl busy
  | recovery => simp [feed, Kind.startsStatement, Token.is, closes]
  | statement =>
    have start : ∀ s : State, s.startStatement t = s.feedValue .expression {} t := by
      intro s
      simp [startStatement, closes]
    exact ⟨by rw [feed, start]; exact feedValue_brace _ _ closes, startStatement_outer noOpening⟩
  | header due => exact ⟨feedHeader_brace due closes, feedHeader_outer due noOpening⟩
  | value goal read => exact ⟨feedValue_brace goal read closes, feedValue_outer goal read⟩

theorem run_outer {w : List Token}
    (flat : ∀ t ∈ w, t.kind ≠ .leftBrace ∧ t.kind ≠ .rightBrace) :
    (w.foldl feed s).outer = s.outer := by
  induction w generalizing s with
  | nil => rfl
  | cons t w ih =>
    obtain ⟨noOpening, noClosing⟩ := flat t List.mem_cons_self
    rw [List.foldl_cons, ih fun u member => flat u (List.mem_cons_of_mem _ member)]
    exact feed_outer noOpening noClosing

end State

def Site.inFor : Site → Bool
  | .declaration => false
  | .forClause => true

def Header.inFor : Header → Bool
  | .variableName site | .variableEnd site _ => site.inFor
  | .forParen | .forInitial | .forCondition _ | .forIncrement _ _ => true
  | _ => false

def Goal.inFor : Goal → Bool
  | .variableValue site _ => site.inFor
  | .forInitial | .forCondition _ | .forIncrement _ _ => true
  | _ => false

def Mode.inFor : Mode → Bool
  | .header due => due.inFor
  | .value goal _ => goal.inFor
  | _ => false

namespace State

variable {s : State} {t : Token}

theorem fail_inFor (problem : Problem) : (s.fail t problem).mode.inFor = false := by
  by_cases ends : t.is .semicolon = true <;> simp [fail, ends, Mode.inFor]

theorem complete_inFor (x : Stmt) : (s.complete x).mode.inFor = false := by
  unfold complete
  split <;> rfl

theorem reach_inFor (value : Expr) (goal : Goal) (other : goal.inFor = false) :
    (s.reach value goal).mode.inFor = false := by
  unfold reach
  split <;> first | exact complete_inFor _ | rfl | cases other

theorem feedValue_inFor (goal : Goal) (other : goal.inFor = false) (read : OpenExpr) :
    (s.feedValue goal read t).mode.inFor = false := by
  simp only [feedValue]
  split
  · exact other
  · exact fail_inFor _
  · split
    · exact reach_inFor _ goal other
    · exact fail_inFor _

theorem startStatement_inFor (noFor : t.kind ≠ .kwFor) :
    (s.startStatement t).mode.inFor = false := by
  unfold startStatement
  split
  case h_1 kind => exact absurd kind noFor
  case h_7 => exact feedValue_inFor .expression rfl _
  all_goals rfl

theorem startDeclaration_inFor (noFor : t.kind ≠ .kwFor) :
    (s.startDeclaration t).mode.inFor = false := by
  unfold startDeclaration
  split
  case h_3 => exact complete_inFor _
  case h_4 => exact startStatement_inFor noFor
  all_goals rfl

theorem feedParameter_inFor (name : Token) (params : Array Token) :
    (s.feedParameter name params t).mode.inFor = false := by
  unfold feedParameter
  split
  · rfl
  · dsimp only
    split
    · rfl
    · exact fail_inFor _

theorem feedHeader_inFor (due : Header) (other : due.inFor = false) :
    (s.feedHeader t due).mode.inFor = false := by
  unfold feedHeader
  split
  case h_3 => exact feedParameter_inFor _ _
  case h_8 keyword =>
    split
    · exact complete_inFor _
    · exact feedValue_inFor (.returned keyword) rfl _
  all_goals
    repeat' split
    all_goals first
      | exact fail_inFor _
      | exact complete_inFor _
      | exact other
      | rfl
      | cases other

theorem feed_inFor (other : s.mode.inFor = false) (noFor : t.kind ≠ .kwFor) :
    (s.feed t).mode.inFor = false := by
  unfold feed
  split
  case h_1 => exact startDeclaration_inFor noFor
  case h_2 mode =>
    split
    · exact startDeclaration_inFor noFor
    · split
      · rfl
      · exact other
  case h_3 => exact startStatement_inFor noFor
  case h_4 =>
    split
    · rfl
    · exact startDeclaration_inFor noFor
  case h_5 mode =>
    rw [mode] at other
    exact feedHeader_inFor _ other
  case h_6 mode =>
    rw [mode] at other
    exact feedValue_inFor _ other _

theorem run_inFor {w : List Token} (other : s.mode.inFor = false)
    (noFor : ∀ t ∈ w, t.kind ≠ .kwFor) : (w.foldl feed s).mode.inFor = false := by
  induction w generalizing s with
  | nil => exact other
  | cons t w ih =>
    exact ih (feed_inFor other (noFor t List.mem_cons_self))
      fun u member => noFor u (List.mem_cons_of_mem _ member)

theorem complete_rests (x : Stmt) : (s.complete x).Rests := by
  unfold complete
  split <;> rfl

theorem fail_rests (ends : t.kind = .semicolon) (problem : Problem) :
    (s.fail t problem).Rests := by
  simp [Rests, closed, fail, Token.is, ends]

theorem feedValue_semicolon (goal : Goal) (read : OpenExpr) (other : goal.inFor = false)
    (ends : t.kind = .semicolon) : (s.feedValue goal read t).Rests := by
  simp only [feedValue]
  split
  · next next same => exact absurd same (read.feed_ne_more (by simp [foreign, ends]) next)
  · exact fail_rests ends _
  · cases goal with
    | expression | printed | returned =>
      rw [if_pos (by simp [Goal.closer, Token.is, ends])]
      exact complete_rests _
    | variableValue site name =>
      rw [if_pos (by simp [Goal.closer, Token.is, ends])]
      cases site with
      | declaration => exact complete_rests _
      | forClause => cases other
    | ifCondition | whileCondition =>
      rw [if_neg (by simp [Goal.closer, Token.is, ends])]
      exact fail_rests ends _
    | _ => cases other

theorem startDeclaration_semicolon (ends : t.kind = .semicolon) :
    (s.startDeclaration t).Rests := by
  have start : s.startDeclaration t = s.feedValue .expression {} t := by
    simp [startDeclaration, startStatement, ends]
  rw [start]
  exact feedValue_semicolon .expression {} rfl ends

theorem feedHeader_semicolon (due : Header) (other : due.inFor = false)
    (ends : t.kind = .semicolon) : (s.feedHeader t due).Rests := by
  cases due with
  | variableEnd site name =>
    cases site with
    | declaration =>
      simp only [feedHeader, Token.is, ends]
      exact complete_rests _
    | forClause => cases other
  | returnValue keyword =>
    simp only [feedHeader, Token.is, ends]
    exact complete_rests _
  | forParen | forInitial | forCondition | forIncrement => cases other
  | parameter name params =>
    have noEnd : t.is .rightParen = false := by simp [Token.is, ends]
    have noName : t.is .identifier = false := by simp [Token.is, ends]
    simp only [feedHeader, feedParameter, noEnd, noName, Bool.and_false, Bool.false_eq_true,
      if_false]
    exact fail_rests ends _
  | _ =>
    simp only [feedHeader, Token.is, ends]
    exact fail_rests ends _

theorem feed_semicolon (other : s.mode.inFor = false) (ends : t.kind = .semicolon) :
    (s.feed t).Rests := by
  unfold feed
  split
  · exact startDeclaration_semicolon ends
  · simp [Kind.startsStatement, Token.is, ends, Rests, closed]
  · have start : s.startStatement t = s.feedValue .expression {} t := by
      simp [startStatement, ends]
    rw [start]
    exact feedValue_semicolon .expression {} rfl ends
  · simp only [Token.is, ends]
    exact startDeclaration_semicolon ends
  · next mode =>
    rw [mode] at other
    exact feedHeader_semicolon _ other ends
  · next mode =>
    rw [mode] at other
    exact feedValue_semicolon _ _ other ends

end State

inductive Opens : List Token → Opener → Prop
  | block {brace : Token} (opens : brace.kind = .leftBrace) : Opens [brace] .block
  | function {keyword name left right brace : Token} (kind : keyword.kind = .kwFun)
      (named : name.kind = .identifier) (starts : left.kind = .leftParen)
      (ends : right.kind = .rightParen) (opens : brace.kind = .leftBrace) :
      Opens [keyword, name, left, right, brace] (.body name [])

def Flat (b : List Token) : Prop :=
  ∀ t ∈ b, t.kind ≠ .leftBrace ∧ t.kind ≠ .rightBrace ∧ t.kind ≠ .eof

def State.between (opener : Opener) (b : List Token) : State :=
  b.foldl State.feed (State.enter {} opener)

/-- Nothing of what stands between the braces reaches beyond them. -/
structure RecoversWithin (opener : Opener) (opening b : List Token) (close : Token)
    (rest : List Token) : Prop where
  errors : Anchored (· ∈ b ++ [close]) (parse (opening ++ b ++ close :: rest)).errors
  statements : ∃ xs, (parse (opening ++ b ++ close :: rest)).statements =
    opener.close xs :: (parse rest).statements

theorem body_append {w : List Token} (noEnd : ∀ t ∈ w, t.kind ≠ .eof) (rest : List Token) :
    body (w ++ rest) = w ++ body rest := by
  apply List.takeWhile_append_of_pos
  intro t member
  simpa [Token.is] using noEnd t member

theorem Anchored.location_ne {P : Token → Prop} {es : List SyntaxError} (anchored : Anchored P es)
    (noEnd : ∀ t, P t → t.kind ≠ .eof) : ∀ e ∈ es, e.location ≠ some .endOfInput := by
  intro e member
  obtain ⟨t, problem, here, rfl⟩ := anchored e member
  have no : t.is .eof = false := by simpa [Token.is] using noEnd t here
  simp [SyntaxError.atToken, Location.ofToken, no]

namespace Opens

variable {opener : Opener} {opening b : List Token} {close : Token}

theorem run (opens : Opens opening opener) :
    opening.foldl State.feed {} = State.enter {} opener := by
  cases opens with
  | block opens => simp [State.feed, State.startDeclaration, State.startStatement, opens]
  | function kind named starts ends opens =>
    simp [State.feed, State.startDeclaration, State.expectHeader, State.feedHeader,
      State.feedParameter, State.enter, Token.is, kind, named, starts, ends, opens]

theorem noEnd (opens : Opens opening opener) : ∀ t ∈ opening, t.kind ≠ .eof := by
  cases opens with
  | block opens => simp [opens]
  | function kind named starts ends opens => simp [kind, named, starts, ends, opens]

theorem parse_eq (opens : Opens opening opener) (flat : Flat b) (closes : close.kind = .rightBrace)
    (rest : List Token) : ∃ eof : Token, eof.kind = .eof ∧
      let s := ((body rest).foldl State.feed ((State.between opener b).feed close)).finish eof
      parse (opening ++ b ++ close :: rest) = ⟨s.program.done.toList, s.errors.toList⟩ := by
  have noEnd : ∀ t ∈ opening ++ b ++ [close], t.kind ≠ .eof := by
    intro t member
    simp only [List.mem_append, List.mem_singleton] at member
    rcases member with (member | member) | rfl
    · exact opens.noEnd t member
    · exact (flat t member).2.2
    · rw [closes]
      decide
  refine ⟨ending (opening ++ b ++ close :: rest), ending_kind _, ?_⟩
  have read : body (opening ++ b ++ close :: rest) = opening ++ b ++ [close] ++ body rest := by
    rw [← body_append noEnd, List.append_assoc _ [close], List.singleton_append]
  simp only [parse, read, List.foldl_append, opens.run, List.foldl_cons, List.foldl_nil,
    State.between]

variable (opens : Opens opening opener) (flat : Flat b) (closes : close.kind = .rightBrace)

include flat

theorem between_outer : (State.between opener b).outer = [(opener, {})] := by
  rw [State.between, State.run_outer fun t member => ⟨(flat t member).1, (flat t member).2.1⟩]
  rfl

include opens closes

theorem recovers (rests : (State.between opener b).Rests) {rest : List Token}
    (clean : (parse rest).errors = []) : RecoversWithin opener opening b close rest := by
  have anchored : (State.between opener b).Anchored (· ∈ b) :=
    State.Anchored.run ⟨trivial, .nil⟩ fun _ member => member
  -- The closing brace leaves the state of an outermost list that holds one declaration; there
  -- `rest` is read as it is alone.
  obtain ⟨xs, closed⟩ := State.feed_closing rests (between_outer flat) closes
  obtain ⟨eof, -, same⟩ := opens.parse_eq flat closes rest
  have program : Grammar.Program .strict (parse rest).statements (body rest) :=
    (program_iff _ _ _).mpr ⟨Grammar.Rules.waives_strict_iff.mpr clean, rfl⟩
  obtain ⟨es, waived, reads⟩ := forms_reads program
  cases Grammar.Rules.waives_strict_iff.mp waived
  rw [closed, finish_after eof ⟨rfl, rfl, rfl⟩ rfl reads] at same
  simp only [State.addDone, State.program] at same
  constructor
  · intro e member
    rw [same] at member
    obtain ⟨t, problem, here, rfl⟩ := anchored.errors e (by simpa using member)
    exact ⟨t, problem, List.mem_append_left _ here, rfl⟩
  · exact ⟨xs, by rw [same]; simp⟩

theorem missing (busy : ¬ (State.between opener b).Rests) :
    ∃ e ∈ (parse (opening ++ b ++ [close])).errors, e.location = some .endOfInput := by
  obtain ⟨mode, outer⟩ := State.feed_skipped busy closes
  obtain ⟨eof, ends, same⟩ := opens.parse_eq flat closes []
  rw [between_outer flat] at outer
  refine ⟨.atToken eof .blockEnd, ?_, ?_⟩
  · rw [same]
    simp [State.finish, body, mode, outer]
  · simp [SyntaxError.atToken, Location.ofToken, Token.is, ends]

omit flat opens closes in
theorem rests_of_semicolon (ends : ∀ t ∈ b.getLast?, t.kind = .semicolon)
    (noFor : ∀ t ∈ b, t.kind ≠ .kwFor) : (State.between opener b).Rests := by
  rcases b.eq_nil_or_concat with rfl | ⟨before, t, rfl⟩
  · rfl
  · rw [List.concat_eq_append] at ends noFor ⊢
    rw [State.between, List.foldl_append]
    apply State.feed_semicolon
    · exact State.run_inFor rfl fun u member => noFor u (List.mem_append_left _ member)
    · exact ends t (by simp)

end Opens

end Parse

open Parse

/-- Between two braces that hold no other, faults stay between them exactly where the braces and
what they hold, read alone, lack nothing at the end. So it is where the last token inside is a
semicolon and no `for` stands inside. -/
theorem faults_stay_in_braces {opener : Opener} {opening b : List Token} {close : Token}
    (opens : Opens opening opener) (flat : Flat b) (closes : close.kind = .rightBrace) :
    ((∀ rest, (parse rest).errors = [] → RecoversWithin opener opening b close rest) ↔
      ∀ e ∈ (parse (opening ++ b ++ [close])).errors, e.location ≠ some .endOfInput) ∧
    ((∀ t ∈ b.getLast?, t.kind = .semicolon) → (∀ t ∈ b, t.kind ≠ .kwFor) →
      ∀ rest, (parse rest).errors = [] → RecoversWithin opener opening b close rest) := by
  refine ⟨⟨?_, ?_⟩, ?_⟩
  · intro recovers
    apply (recovers [] rfl).errors.location_ne
    intro t member
    rcases List.mem_append.mp member with member | member
    · exact (flat t member).2.2
    · rw [List.mem_singleton.mp member, closes]
      decide
  · intro complete rest clean
    apply opens.recovers flat closes _ clean
    by_contra busy
    obtain ⟨e, member, atEnd⟩ := opens.missing flat closes busy
    exact complete e member atEnd
  · intro ends noFor rest clean
    exact opens.recovers flat closes (Opens.rests_of_semicolon ends noFor) clean

theorem faults_stay_in_braces_of_function :
    (parse printNil).errors = [] ∧
    (parse (functionHead ++ badReturn ++ [functionEnd])).errors ≠ [] ∧
    RecoversWithin (.body (word .identifier "f" 4) []) functionHead badReturn functionEnd
      printNil := by
  have opens : Opens functionHead (.body (word .identifier "f" 4) []) :=
    .function rfl rfl rfl rfl rfl
  refine ⟨rfl, by decide +kernel, ?_⟩
  exact (faults_stay_in_braces opens (by unfold Flat; decide) rfl).2 (by decide) (by decide)
    printNil rfl

/-- A statement cut short by the closing brace takes the brace with it: the block is still open at
the end of the input, and the program after it is lost. -/
theorem fault_leaves_braces :
    let opening := [word .leftBrace "\x7b" 0]
    let b := [word .kwPrint "print" 2]
    let close := word .rightBrace "\x7d" 8
    let whole := opening ++ b ++ close :: printNil
    Opens opening .block ∧ Flat b ∧ (parse printNil).errors = [] ∧
    (∃ e ∈ (parse whole).errors, e.location = some .endOfInput) ∧
    ¬ (parse printNil).statements <:+ (parse whole).statements ∧
    ¬ RecoversWithin .block opening b close printNil := by
  intro opening b close whole
  have missing : ∃ e ∈ (parse whole).errors, e.location = some .endOfInput :=
    ⟨_, List.mem_cons_of_mem _ List.mem_cons_self, rfl⟩
  have empty : (parse whole).statements = [] := rfl
  have lost : ¬ (parse printNil).statements <:+ (parse whole).statements := by
    rw [empty, List.suffix_nil]
    nofun
  refine ⟨.block rfl, by unfold Flat; decide, rfl, missing, lost, ?_⟩
  intro recovers
  obtain ⟨xs, statements⟩ := recovers.statements
  exact lost ⟨[_], statements.symm⟩

end Treewalk
