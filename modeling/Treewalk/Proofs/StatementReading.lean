import Treewalk.Proofs.ExpressionReading

namespace Treewalk.Parse

open Grammar Grammar.Rules
open Token (Kind)

theorem appendList_append {α : Type} (a : Array α) (l l' : List α) :
    a ++ l ++ l' = a ++ (l ++ l') := by
  apply Array.toList_inj.mp
  simp

@[simp] theorem mem_appendList {α : Type} {x : α} {a : Array α} {l : List α} :
    x ∈ a ++ l ↔ x ∈ a ∨ x ∈ l := by
  rw [← Array.mem_toList_iff, Array.toList_appendList, List.mem_append, Array.mem_toList_iff]

namespace State

/-- Reads `w` with the errors `es`, whatever errors there were before. -/
def Reads (s : State) (w : List Token) (es : List SyntaxError) (s' : State) : Prop :=
  ∀ errors : Array SyntaxError,
    w.foldl feed { s with errors } = { s' with errors := errors ++ es }

namespace Reads

variable {s s' s'' : State} {v w : List Token} {es es' : List SyntaxError} {t : Token}

theorem nil : Reads s [] [] s := by
  intro errors
  simp

theorem append (first : Reads s v es s') (second : Reads s' w es' s'') :
    Reads s (v ++ w) (es ++ es') s'' := by
  intro errors
  rw [List.foldl_append, first errors, second (errors ++ es), appendList_append]

theorem cons (step : ∀ errors, feed { s with errors } t = { s' with errors := errors ++ es })
    (rest : Reads s' w es' s'') : Reads s (t :: w) (es ++ es') s'' := by
  intro errors
  rw [List.foldl_cons, step errors, rest (errors ++ es), appendList_append]

theorem step (s' : State) (step : ∀ errors, feed { s with errors } t = { s' with errors })
    (rest : Reads s' w es s'') : Reads s (t :: w) es s'' := by
  intro errors
  rw [List.foldl_cons, step errors, rest errors]

theorem single (step : ∀ errors, feed { s with errors } t = { s' with errors := errors ++ es }) :
    Reads s [t] es s' := by
  intro errors
  exact step errors

end Reads

/-- Where no `else` follows, a conditional without one is complete. -/
def closed (s : State) : State :=
  match s.mode with
  | .afterThen condition thenBranch => s.completeAll (.ifElse condition thenBranch none)
  | _ => s

theorem feed_closed {t : Token} (s : State) (other : t.kind ≠ .kwElse) :
    s.feed t = s.closed.feed t := by
  obtain ⟨layer, outer, mode, errors⟩ := s
  cases mode with
  | afterThen condition thenBranch =>
    have no : t.is .kwElse = false := by simpa [Token.is] using other
    simp [feed, closed, no, completeAll, finishDeclaration]
  | _ => rfl

theorem closed_errors (s : State) (errors : Array SyntaxError) :
    { s with errors }.closed = { s.closed with errors } := by
  obtain ⟨layer, outer, mode, errors'⟩ := s
  cases mode <;> rfl

/-- Tokens that do not start with `else` are read alike before and after closing. -/
theorem reads_of_closed {s s' : State} {t : Token} {w : List Token} {es : List SyntaxError}
    (other : t.kind ≠ .kwElse) (reads : s.closed.Reads (t :: w) es s') :
    s.Reads (t :: w) es s' := by
  intro errors
  rw [List.foldl_cons, feed_closed _ other, closed_errors, ← List.foldl_cons]
  exact reads errors

theorem complete_errors (s : State) (x : Stmt) (errors : Array SyntaxError) :
    { s with errors }.complete x = { s.complete x with errors } := by
  unfold complete
  cases fill s.layer.holes x <;> rfl

theorem complete_mode (s : State) (x : Stmt) (mode : Mode) :
    { s with mode }.complete x = s.complete x := by
  unfold complete
  cases fill s.layer.holes x <;> rfl

theorem reach_errors (s : State) (value : Expr) (goal : Goal) (errors : Array SyntaxError) :
    { s with errors }.reach value goal = { s.reach value goal with errors } := by
  cases goal with
  | variableValue site name =>
    cases site with
    | declaration => exact complete_errors _ _ _
    | forClause => rfl
  | expression => exact complete_errors _ _ _
  | printed keyword => exact complete_errors _ _ _
  | returned keyword => exact complete_errors _ _ _
  | _ => rfl

theorem reach_mode (s : State) (value : Expr) (goal : Goal) (mode : Mode) :
    { s with mode }.reach value goal = s.reach value goal := by
  cases goal with
  | variableValue site name =>
    cases site with
    | declaration => exact complete_mode _ _ _
    | forClause => rfl
  | expression => exact complete_mode _ _ _
  | printed keyword => exact complete_mode _ _ _
  | returned keyword => exact complete_mode _ _ _
  | _ => rfl

theorem reads_value {s : State} {goal : Goal} {e e' : OpenExpr} {w : List Token}
    {es : List SyntaxError} (reads : e.Reads w es e') :
    { s with mode := .value goal e }.Reads w es { s with mode := .value goal e' } := by
  induction reads with
  | nil => exact .nil
  | cons step _ ih =>
    refine .cons ?_ ih
    intro errors
    simp [feed, feedValue, step]

theorem reads_expression {s : State} (goal : Goal) {e : Expr} {w : List Token} {closer : Token}
    {es : List SyntaxError} (expression : ReadsExpression e w es)
    (start : ∀ (t : Token) (errors : Array SyntaxError), startsExpression t.kind = true →
      feed { s with errors } t = feedValue { s with errors } goal {} t)
    (kind : closer.kind = goal.closer.1) : s.Reads (w ++ [closer]) es (s.reach e goal) := by
  have outside : closer.kind = .semicolon ∨ closer.kind = .rightParen := by
    rw [kind]
    cases goal <;> simp [Goal.closer]
  obtain ⟨t, rest, first, last, before, after, rfl, starts, opens, reads, finishes, rfl⟩ :=
    expression closer outside
  have begins : s.Reads [t] [] { s with mode := .value goal first } := by
    refine .single ?_
    intro errors
    rw [start t errors starts]
    simp [feedValue, opens]
  have ends : { s with mode := .value goal last }.Reads [closer] after (s.reach e goal) := by
    refine .single ?_
    intro errors
    rw [← reach_mode s e goal (.value goal last), ← reach_errors]
    simp [feed, feedValue, finishes, kind]
  exact begins.append ((reads_value reads).append ends)

theorem closed_complete (s : State) (x : Stmt) : (s.complete x).closed = s.completeAll x := by
  obtain ⟨⟨done, holes⟩, outer, mode, errors⟩ := s
  induction holes generalizing x with
  | nil => rfl
  | cons hole holes ih =>
    cases hole with
    | thenBranch condition => rfl
    | _ => exact ih _

theorem complete_expectStatement {hole : Hole} (s : State) (x : Stmt)
    (other : ∀ condition, hole ≠ .thenBranch condition) :
    (s.expectStatement hole).complete x = s.complete (hole.fill x) := by
  cases hole with
  | thenBranch condition => exact absurd rfl (other condition)
  | _ =>
    simp only [complete, expectStatement, fill]
    cases fill s.layer.holes _ <;> rfl

theorem complete_thenBranch (s : State) (condition : Expr) (x : Stmt) :
    (s.expectStatement (.thenBranch condition)).complete x =
      { s with mode := .afterThen condition x } := rfl

def AwaitsStatement (s : State) : Prop := s.mode = .statement ∨ s.mode = .declaration

theorem AwaitsStatement.feed {s : State} {t : Token} {errors : Array SyntaxError}
    (awaits : s.AwaitsStatement) (fn : t.kind ≠ .kwFun) (var : t.kind ≠ .kwVar)
    (brace : t.kind ≠ .rightBrace) :
    { s with errors }.feed t = { s with errors }.startStatement t := by
  obtain ⟨layer, outer, mode, errors⟩ := s
  rcases awaits with same | same
  · cases same
    rfl
  · cases same
    simp only [State.feed, startDeclaration]
    split <;> first | rfl | contradiction

end State

/-- `w` is read as the statement `x`, with the errors `es`, wherever a statement may start. -/
def ReadsStatement (inside dangling : Bool) (x : Stmt) (w : List Token) (es : List SyntaxError) :
    Prop :=
  ∀ s : State, s.AwaitsStatement → s.inFunction = inside →
    ∃ s', s.Reads w es s' ∧ s'.closed = s.completeAll x ∧ (dangling = false → s' = s.complete x)

structure State.AwaitsDeclaration (inside : Bool) (s : State) : Prop where
  mode : s.mode = .declaration
  holes : s.layer.holes = []
  inFunction : s.inFunction = inside

def State.addDone (s : State) (xs : List Stmt) : State :=
  { s with layer := { s.layer with done := s.layer.done ++ xs } }

def ReadsDeclaration (inside : Bool) (x : Stmt) (w : List Token) (es : List SyntaxError) : Prop :=
  (∃ t rest, w = t :: rest ∧ t.kind ≠ .kwElse) ∧
  ∀ s : State, s.AwaitsDeclaration inside → ∃ s', s.Reads w es s' ∧ s'.closed = s.addDone [x]

def ReadsDeclarations (inside : Bool) (xs : List Stmt) (w : List Token) (es : List SyntaxError) :
    Prop :=
  ∀ s : State, s.AwaitsDeclaration inside → ∃ s', s.Reads w es s' ∧ s'.closed = s.addDone xs

theorem State.startStatement_value {s : State} {t : Token}
    (starts : startsExpression t.kind = true) :
    s.startStatement t = s.feedValue .expression {} t := by
  unfold startStatement
  split <;> first | rfl | simp_all [startsExpression]

theorem State.startStatement_return {s : State} {t : Token} (kind : t.kind = .kwReturn) :
    s.startStatement t =
      (if s.inFunction then s else s.report (.atToken t .topLevelReturn)).expectHeader
        (.returnValue t) := by
  simp [startStatement, kind]

theorem State.reads_goal {s : State} (goal : Goal) {e : Expr} {w : List Token} {closer : Token}
    {es : List SyntaxError} (expression : ReadsExpression e w es)
    (kind : closer.kind = goal.closer.1) :
    (s.expectValue goal).Reads (w ++ [closer]) es (s.reach e goal) := by
  rw [← reach_mode s e goal (.value goal {})]
  exact reads_expression goal expression (fun t errors _ => rfl) kind

theorem State.reads_header {s : State} (goal : Goal) {due : Header} {e : Expr} {w : List Token}
    {closer : Token} {es : List SyntaxError} (expression : ReadsExpression e w es)
    (start : ∀ (s : State) (t : Token), startsExpression t.kind = true →
      s.feedHeader t due = s.feedValue goal {} t)
    (kind : closer.kind = goal.closer.1) :
    (s.expectHeader due).Reads (w ++ [closer]) es (s.reach e goal) := by
  rw [← reach_mode s e goal (.header due)]
  exact reads_expression goal expression (fun t errors starts => start _ t starts) kind

theorem State.reads_braces {s : State} (opener : Opener) {inside : Bool} {xs : List Stmt}
    {w : List Token} {right : Token} {es : List SyntaxError}
    (declarations : ReadsDeclarations inside xs w es) (inner : (s.enter opener).inFunction = inside)
    (kind : right.kind = .rightBrace) :
    (s.enter opener).Reads (w ++ [right]) es (s.complete (opener.close xs)) := by
  obtain ⟨s', reads, closes⟩ := declarations (s.enter opener) ⟨rfl, rfl, inner⟩
  have ends : s'.Reads [right] [] (s.complete (opener.close xs)) := by
    refine .single ?_
    intro errors
    rw [feed_closed _ (by rw [kind]; decide), closed_errors, closes]
    simp only [feed, addDone, enter, startDeclaration, kind]
    rw [← complete_mode s _ .declaration, Array.appendList_nil, ← complete_errors]
    simp
  have all := reads.append ends
  rwa [List.append_nil] at all

def ReadsOptional : Option Expr → List Token → List SyntaxError → Prop
  | none, w, es => w = [] ∧ es = []
  | some e, w, es => ReadsExpression e w es

def ReadsVariable (x : Stmt) (w : List Token) (es : List SyntaxError) : Prop :=
  ∃ keyword rest, w = keyword :: rest ∧ keyword.kind = .kwVar ∧ ∀ s : State,
    (s.expectHeader (.variableName .declaration)).Reads rest es (s.complete x) ∧
    (s.expectHeader (.variableName .forClause)).Reads rest es
      (s.expectHeader (.forCondition (some x)))

def ReadsInitial (initial : Option Stmt) (w : List Token) (es : List SyntaxError) : Prop :=
  ∀ s : State, (s.expectHeader .forInitial).Reads w es (s.expectHeader (.forCondition initial))

section

variable {s : State} {e : Expr} {value : Option Expr} {initial : Option Stmt} {x : Stmt}
  {w : List Token} {es : List SyntaxError} {keyword name equals semicolon right : Token}

theorem kind_ne_of_starts {t : Token} {k : Kind} (starts : startsExpression t.kind = true)
    (other : startsExpression k = false) : t.kind ≠ k := by
  rintro rfl
  rw [starts] at other
  cases other

theorem reads_forCondition (read : ReadsOptional value w es) (ends : semicolon.kind = .semicolon) :
    (s.expectHeader (.forCondition initial)).Reads (w ++ [semicolon]) es
      (s.expectHeader (.forIncrement initial (value.getD (.constant (.bool true))))) := by
  cases value with
  | none =>
    obtain ⟨rfl, rfl⟩ := read
    refine .single ?_
    intro errors
    simp [State.feed, State.feedHeader, State.expectHeader, ends]
  | some e =>
    refine State.reads_header (.forCondition initial) read ?_ ends
    intro s t starts
    simp [State.feedHeader, kind_ne_of_starts starts (k := .semicolon) rfl]

theorem reads_forIncrement {condition : Expr} (read : ReadsOptional value w es)
    (ends : right.kind = .rightParen) :
    (s.expectHeader (.forIncrement initial condition)).Reads (w ++ [right]) es
      (s.expectStatement (.forBody initial condition value)) := by
  cases value with
  | none =>
    obtain ⟨rfl, rfl⟩ := read
    refine .single ?_
    intro errors
    simp [State.feed, State.feedHeader, State.expectHeader, State.expectStatement, ends]
  | some e =>
    refine State.reads_header (.forIncrement initial condition) read ?_ ends
    intro s t starts
    simp [State.feedHeader, kind_ne_of_starts starts (k := .rightParen) rfl]

theorem reads_variable_bare (kind : keyword.kind = .kwVar) (named : name.kind = .identifier)
    (ends : semicolon.kind = .semicolon) :
    ReadsVariable (.varDecl name none) [keyword, name, semicolon] [] := by
  refine ⟨keyword, _, rfl, kind, ?_⟩
  intro s
  constructor
  · refine .step (s.expectHeader (.variableEnd .declaration name)) ?_ (.single ?_)
    · intro errors
      simp [State.feed, State.feedHeader, State.expectHeader, named]
    · intro errors
      rw [Array.appendList_nil, ← s.complete_mode _ (.header (.variableEnd .declaration name)),
        ← State.complete_errors]
      simp [State.feed, State.feedHeader, State.expectHeader, ends]
  · refine .step (s.expectHeader (.variableEnd .forClause name)) ?_ (.single ?_)
    · intro errors
      simp [State.feed, State.feedHeader, State.expectHeader, named]
    · intro errors
      simp [State.feed, State.feedHeader, State.expectHeader, ends]

theorem reads_variable_set (kind : keyword.kind = .kwVar) (named : name.kind = .identifier)
    (equal : equals.kind = .equal) (read : ReadsExpression e w es)
    (ends : semicolon.kind = .semicolon) :
    ReadsVariable (.varDecl name (some e))
      (keyword :: name :: equals :: (w ++ [semicolon])) es := by
  refine ⟨keyword, _, rfl, kind, ?_⟩
  intro s
  have begins (site : Site) : (s.expectHeader (.variableName site)).Reads
      (name :: equals :: (w ++ [semicolon])) es (s.reach e (.variableValue site name)) := by
    refine .step (s.expectHeader (.variableEnd site name)) ?_
      (.step _ ?_ (State.reads_goal (.variableValue site name) read ends))
    · intro errors
      simp [State.feed, State.feedHeader, State.expectHeader, named]
    · intro errors
      simp [State.feed, State.feedHeader, State.expectHeader, State.expectValue, equal]
  exact ⟨begins .declaration, begins .forClause⟩

theorem reads_initial_absent (kind : semicolon.kind = .semicolon) :
    ReadsInitial none [semicolon] [] := by
  intro s
  refine .single ?_
  intro errors
  simp [State.feed, State.feedHeader, State.expectHeader, kind]

theorem reads_initial_declared (read : ReadsVariable x w es) : ReadsInitial (some x) w es := by
  obtain ⟨keyword, rest, rfl, kind, reads⟩ := read
  intro s
  refine .step (s.expectHeader (.variableName .forClause)) ?_ (reads s).2
  intro errors
  simp [State.feed, State.feedHeader, State.expectHeader, kind]

theorem reads_initial_expression (read : ReadsExpression e w es)
    (ends : semicolon.kind = .semicolon) :
    ReadsInitial (some (.expression e)) (w ++ [semicolon]) es := by
  intro s
  refine State.reads_header .forInitial read ?_ ends
  intro s t starts
  simp [State.feedHeader, kind_ne_of_starts starts (k := .semicolon) rfl,
    kind_ne_of_starts starts (k := .kwVar) rfl]

end

namespace ReadsStatement

variable {inside dangling : Bool} {e condition : Expr} {x y : Stmt} {xs : List Stmt}
  {v w c : List Token} {es es' es'' : List SyntaxError}
  {keyword semicolon opened right other : Token}

theorem of_complete
    (reads : ∀ s : State, s.AwaitsStatement → s.inFunction = inside → s.Reads w es (s.complete x)) :
    ReadsStatement inside false x w es := by
  intro s awaits inner
  exact ⟨_, reads s awaits inner, s.closed_complete x, fun _ => rfl⟩

theorem expression (value : ReadsExpression e w es) (kind : semicolon.kind = .semicolon) :
    ReadsStatement inside false (.expression e) (w ++ [semicolon]) es := by
  refine of_complete ?_
  intro s awaits _
  refine State.reads_expression .expression value ?_ kind
  intro t errors starts
  rw [← State.startStatement_value starts]
  refine State.AwaitsStatement.feed awaits ?_ ?_ ?_ <;> intro same <;> rw [same] at starts <;>
    cases starts

theorem print (kind : keyword.kind = .kwPrint) (value : ReadsExpression e w es)
    (ends : semicolon.kind = .semicolon) :
    ReadsStatement inside false (.print keyword e) (keyword :: (w ++ [semicolon])) es := by
  refine of_complete ?_
  intro s awaits _
  refine .step _ ?_ (State.reads_goal (.printed keyword) value ends)
  intro errors
  rw [awaits.feed] <;> simp [State.startStatement, State.expectValue, kind]

theorem block (left : opened.kind = .leftBrace) (body : ReadsDeclarations inside xs w es)
    (kind : right.kind = .rightBrace) :
    ReadsStatement inside false (.block xs) (opened :: (w ++ [right])) es := by
  refine of_complete ?_
  intro s awaits inner
  refine .step _ ?_ (State.reads_braces .block body inner kind)
  intro errors
  rw [awaits.feed] <;> simp [State.startStatement, State.enter, left]

def returnErrors (inside : Bool) (keyword : Token) : List SyntaxError :=
  if inside then [] else [.atToken keyword .topLevelReturn]

theorem ret {value : Option Expr} (kind : keyword.kind = .kwReturn)
    (read : ReadsOptional value w es)
    (ends : semicolon.kind = .semicolon) :
    ReadsStatement inside false (.ret keyword value) (keyword :: (w ++ [semicolon]))
      (returnErrors inside keyword ++ es) := by
  refine of_complete ?_
  intro s awaits inner
  have begins (errors : Array SyntaxError) : { s with errors }.feed keyword =
      { s.expectHeader (.returnValue keyword) with
        errors := errors ++ returnErrors inside keyword } := by
    rw [awaits.feed, State.startStatement_return kind] <;>
      simp only [kind, ne_eq, reduceCtorEq, not_false_eq_true]
    have same : State.inFunction { s with errors } = inside := inner
    rw [same]
    cases inside <;> simp [returnErrors, State.report, State.expectHeader]
  refine .cons begins ?_
  cases value with
  | none =>
    obtain ⟨rfl, rfl⟩ := read
    refine .single ?_
    intro errors
    rw [Array.appendList_nil, ← s.complete_mode _ (.header (.returnValue keyword)),
      ← State.complete_errors]
    simp [State.feed, State.feedHeader, State.expectHeader, ends]
  | some e =>
    refine State.reads_header (.returned keyword) read ?_ ends
    intro s t starts
    simp [State.feedHeader, kind_ne_of_starts starts (k := .semicolon) rfl]

theorem under {hole : Hole} (outermost : Bool)
    (head : ∀ s : State, s.AwaitsStatement → s.inFunction = inside →
      s.Reads v es (s.expectStatement hole))
    (body : ReadsStatement inside dangling x w es')
    (firm : outermost = false → dangling = false ∧ ∀ condition, hole ≠ .thenBranch condition) :
    ReadsStatement inside outermost (hole.fill x) (v ++ w) (es ++ es') := by
  intro s awaits inner
  obtain ⟨s', reads, closes, completes⟩ := body (s.expectStatement hole) (.inl rfl) inner
  refine ⟨s', (head s awaits inner).append reads, closes, ?_⟩
  intro no
  obtain ⟨still, other⟩ := firm no
  rw [completes still, s.complete_expectStatement x other]

theorem ifHead (kind : keyword.kind = .kwIf) (left : opened.kind = .leftParen)
    (read : ReadsExpression condition c es) (ends : right.kind = .rightParen) (s : State)
    (awaits : s.AwaitsStatement) :
    s.Reads (keyword :: opened :: (c ++ [right])) es
      (s.expectStatement (.thenBranch condition)) := by
  refine .step (s.expectHeader .ifParen) ?_ (.step _ ?_ (State.reads_goal .ifCondition read ends))
  · intro errors
    rw [awaits.feed] <;> simp [State.startStatement, State.expectHeader, kind]
  · intro errors
    simp [State.feed, State.feedHeader, State.expectHeader, State.expectValue, left]

theorem ifThen (kind : keyword.kind = .kwIf) (left : opened.kind = .leftParen)
    (read : ReadsExpression condition c es) (ends : right.kind = .rightParen)
    (body : ReadsStatement inside dangling x w es') :
    ReadsStatement inside true (.ifElse condition x none) (keyword :: opened :: (c ++ right :: w))
      (es ++ es') := by
  have all := under true (fun s awaits _ => ifHead kind left read ends s awaits) body
    (fun no => by cases no)
  simpa [Hole.fill] using all

theorem ifElse (kind : keyword.kind = .kwIf) (left : opened.kind = .leftParen)
    (read : ReadsExpression condition c es) (ends : right.kind = .rightParen)
    (first : ReadsStatement inside false x v es') (otherwise : other.kind = .kwElse)
    (second : ReadsStatement inside dangling y w es'') :
    ReadsStatement inside dangling (.ifElse condition x (some y))
      (keyword :: opened :: (c ++ right :: (v ++ other :: w))) (es ++ es' ++ es'') := by
  have head (s : State) (awaits : s.AwaitsStatement) (inner : s.inFunction = inside) :
      s.Reads (keyword :: opened :: (c ++ [right]) ++ (v ++ [other])) (es ++ es')
        (s.expectStatement (.elseBranch condition x)) := by
    have begins := ifHead kind left read ends s awaits
    obtain ⟨s', reads, _, completes⟩ :=
      first (s.expectStatement (.thenBranch condition)) (.inl rfl) inner
    rw [completes rfl, State.complete_thenBranch] at reads
    have turns : State.Reads { s with mode := .afterThen condition x } [other] []
        (s.expectStatement (.elseBranch condition x)) := by
      refine .single ?_
      intro errors
      simp [State.feed, State.expectStatement, otherwise]
    have all := begins.append (reads.append turns)
    rwa [List.append_nil] at all
  have all := under dangling head second (fun no => ⟨no, by intros; simp⟩)
  simpa [Hole.fill] using all

theorem whileLoop (kind : keyword.kind = .kwWhile) (left : opened.kind = .leftParen)
    (read : ReadsExpression condition c es) (ends : right.kind = .rightParen)
    (body : ReadsStatement inside dangling x w es') :
    ReadsStatement inside dangling (.whileLoop condition x) (keyword :: opened :: (c ++ right :: w))
      (es ++ es') := by
  have head (s : State) (awaits : s.AwaitsStatement) (_ : s.inFunction = inside) :
      s.Reads (keyword :: opened :: (c ++ [right])) es
        (s.expectStatement (.whileBody condition)) := by
    refine .step (s.expectHeader .whileParen) ?_
      (.step _ ?_ (State.reads_goal .whileCondition read ends))
    · intro errors
      rw [awaits.feed] <;> simp [State.startStatement, State.expectHeader, kind]
    · intro errors
      simp [State.feed, State.feedHeader, State.expectHeader, State.expectValue, left]
  have all := under dangling head body (fun no => ⟨no, by intros; simp⟩)
  simpa [Hole.fill] using all

theorem forLoop {initial : Option Stmt} {test increment : Option Expr} {i n : List Token}
    {es₁ es₂ es₃ : List SyntaxError}
    (kind : keyword.kind = .kwFor) (left : opened.kind = .leftParen)
    (first : ReadsInitial initial i es₁) (second : ReadsOptional test c es₂)
    (between : semicolon.kind = .semicolon) (third : ReadsOptional increment n es₃)
    (ends : right.kind = .rightParen) (body : ReadsStatement inside dangling x w es) :
    ReadsStatement inside dangling
      (Parse.forLoop initial (test.getD (.constant (.bool true))) increment x)
      (keyword :: opened :: (i ++ (c ++ semicolon :: (n ++ right :: w))))
      (es₁ ++ (es₂ ++ es₃) ++ es) := by
  have head (s : State) (awaits : s.AwaitsStatement) (_ : s.inFunction = inside) :
      s.Reads (keyword :: opened :: (i ++ (c ++ [semicolon] ++ (n ++ [right]))))
        (es₁ ++ (es₂ ++ es₃)) (s.expectStatement
          (.forBody initial (test.getD (.constant (.bool true))) increment)) := by
    refine .step (s.expectHeader .forParen) ?_ (.step (s.expectHeader .forInitial) ?_
      ((first s).append ((reads_forCondition second between).append
        (reads_forIncrement third ends))))
    · intro errors
      rw [awaits.feed] <;> simp [State.startStatement, State.expectHeader, kind]
    · intro errors
      simp [State.feed, State.feedHeader, State.expectHeader, left]
  have all := under dangling head body (fun no => ⟨no, by intros; simp⟩)
  simpa [Hole.fill] using all

end ReadsStatement

def ReadsNames (names w : List Token) (es : List SyntaxError) : Prop :=
  ∀ (s : State) (function : Token), (s.expectHeader (.parameter function #[])).Reads w es
    (s.expectHeader (.parameterEnd function names.toArray))

theorem names_ne_nil {names w : List Token} (listed : Names names w) : names ≠ [] := by
  cases listed <;> simp

theorem names_read {rules : Rules} {names w : List Token} (listed : Names names w) :
    rules.Counts names.length → ∃ es, rules.Waives es ∧ ReadsNames names w es := by
  induction listed with
  | @one name named =>
    intro _
    refine ⟨[], .nil, ?_⟩
    intro s function
    refine .single ?_
    intro errors
    simp [State.feed, State.feedHeader, State.feedParameter, State.expectHeader, maxArguments,
      named]
  | @more comma name names w listed kind named ih =>
    intro counts
    rw [List.length_append, List.length_singleton] at counts
    obtain ⟨es, waived, reads⟩ := ih (counts.imp_left Nat.le_of_succ_le)
    have nonempty := names_ne_nil listed
    have between (s : State) (function : Token) :
        (s.expectHeader (.parameterEnd function names.toArray)).Reads [comma] []
          (s.expectHeader (.parameter function names.toArray)) := by
      refine .single ?_
      intro errors
      simp [State.feed, State.feedHeader, State.expectHeader, kind]
    have last : ∃ es', rules.Waives es' ∧ ∀ (s : State) (function : Token),
        (s.expectHeader (.parameter function names.toArray)).Reads [name] es'
          (s.expectHeader (.parameterEnd function (names ++ [name]).toArray)) := by
      by_cases many : maxArguments ≤ names.length
      · have any : rules.anyCount = true := by
          rcases counts with small | any
          · exact absurd many (by simp only [maxArguments]; omega)
          · exact any
        refine ⟨[.atToken name .tooManyParameters], .single any, ?_⟩
        intro s function
        refine .single ?_
        intro errors
        simp [State.feed, State.feedHeader, State.feedParameter, State.expectHeader, State.report,
          nonempty, named, many]
      · refine ⟨[], .nil, ?_⟩
        intro s function
        refine .single ?_
        intro errors
        simp [State.feed, State.feedHeader, State.feedParameter, State.expectHeader, nonempty,
          named, many]
    obtain ⟨es', waived', lastReads⟩ := last
    refine ⟨es ++ ([] ++ es'), waived.append waived', ?_⟩
    intro s function
    exact (reads s function).append ((between s function).append (lastReads s function))

theorem params_read {rules : Rules} {params p : List Token} {right : Token}
    (listed : Params rules params p) (kind : right.kind = .rightParen) :
    ∃ es, rules.Waives es ∧ ∀ (s : State) (function : Token),
      (s.expectHeader (.parameter function #[])).Reads (p ++ [right]) es
        (s.expectHeader (.bodyBrace function params.toArray)) := by
  cases listed with
  | empty =>
    refine ⟨[], .nil, ?_⟩
    intro s function
    refine .single ?_
    intro errors
    simp [State.feed, State.feedHeader, State.feedParameter, State.expectHeader, kind]
  | listed names counts =>
    obtain ⟨es, waived, reads⟩ := names_read names counts
    refine ⟨es ++ [], by rwa [List.append_nil], ?_⟩
    intro s function
    refine (reads s function).append (.single ?_)
    intro errors
    simp [State.feed, State.feedHeader, State.expectHeader, kind]

namespace State.AwaitsDeclaration

variable {s : State} {inside : Bool}

theorem feed {t : Token} {errors : Array SyntaxError} (awaits : s.AwaitsDeclaration inside) :
    { s with errors }.feed t = { s with errors }.startDeclaration t := by
  obtain ⟨layer, outer, mode, errors'⟩ := s
  obtain ⟨same, _, _⟩ := awaits
  cases same
  rfl

theorem completeAll (awaits : s.AwaitsDeclaration inside) (x : Stmt) :
    s.completeAll x = s.addDone [x] := by
  obtain ⟨⟨done, holes⟩, outer, mode, errors⟩ := s
  obtain ⟨same, none, _⟩ := awaits
  cases same
  cases none
  simp [State.completeAll, finishDeclaration, addDone]

theorem addDone (awaits : s.AwaitsDeclaration inside) (xs : List Stmt) :
    (s.addDone xs).AwaitsDeclaration inside := ⟨awaits.mode, awaits.holes, awaits.inFunction⟩

end State.AwaitsDeclaration

namespace ReadsDeclaration

variable {inside dangling : Bool} {x : Stmt} {xs : List Stmt} {v w p params : List Token}
  {es es' : List SyntaxError} {keyword name opened right entered left : Token}

theorem of_complete {t : Token} {rest : List Token} (other : t.kind ≠ .kwElse)
    (reads : ∀ s : State, s.AwaitsDeclaration inside → s.Reads (t :: rest) es (s.complete x)) :
    ReadsDeclaration inside x (t :: rest) es := by
  refine ⟨⟨t, rest, rfl, other⟩, ?_⟩
  intro s awaits
  refine ⟨_, reads s awaits, ?_⟩
  rw [State.closed_complete, awaits.completeAll]

theorem declared (read : ReadsVariable x w es) : ReadsDeclaration inside x w es := by
  obtain ⟨keyword, rest, rfl, kind, reads⟩ := read
  refine of_complete (by rw [kind]; decide) ?_
  intro s awaits
  refine .step _ ?_ (reads s).1
  intro errors
  rw [awaits.feed]
  simp [State.startDeclaration, State.expectHeader, kind]

theorem statement {t : Token} {rest : List Token} (other : t.kind ≠ .kwElse)
    (read : ReadsStatement inside dangling x (t :: rest) es) :
    ReadsDeclaration inside x (t :: rest) es := by
  refine ⟨⟨t, rest, rfl, other⟩, ?_⟩
  intro s awaits
  obtain ⟨s', reads, closes, _⟩ := read s (.inr awaits.mode) awaits.inFunction
  exact ⟨s', reads, by rw [closes, awaits.completeAll]⟩

theorem function (kind : keyword.kind = .kwFun) (named : name.kind = .identifier)
    (opens : opened.kind = .leftParen)
    (listed : ∀ (s : State) (function : Token),
      (s.expectHeader (.parameter function #[])).Reads (p ++ [right]) es
        (s.expectHeader (.bodyBrace function params.toArray)))
    (enters : entered.kind = .leftBrace) (body : ReadsDeclarations true xs w es')
    (leaves : left.kind = .rightBrace) :
    ReadsDeclaration inside (.funDecl name params xs)
      (keyword :: name :: opened :: (p ++ right :: entered :: (w ++ [left]))) (es ++ es') := by
  refine of_complete (by rw [kind]; decide) ?_
  intro s awaits
  have braces : (s.expectHeader (.bodyBrace name params.toArray)).Reads
      (entered :: (w ++ [left])) es' (s.complete (.funDecl name params xs)) := by
    refine .step (s.enter (.body name params)) ?_
      (State.reads_braces (.body name params) body (by simp [State.inFunction, State.enter,
        Opener.isBody]) leaves)
    intro errors
    simp [State.feed, State.feedHeader, State.expectHeader, State.enter, enters]
  have rest := (listed s name).append braces
  rw [List.append_assoc, List.singleton_append] at rest
  refine .step (s.expectHeader .functionName) ?_ (.step (s.expectHeader (.functionParen name)) ?_
    (.step _ ?_ rest))
  · intro errors
    rw [awaits.feed]
    simp [State.startDeclaration, State.expectHeader, kind]
  · intro errors
    simp [State.feed, State.feedHeader, State.expectHeader, named]
  · intro errors
    simp [State.feed, State.feedHeader, State.expectHeader, opens]

end ReadsDeclaration

theorem ReadsDeclarations.empty {inside : Bool} : ReadsDeclarations inside [] [] [] := by
  intro s awaits
  refine ⟨s, .nil, ?_⟩
  obtain ⟨layer, outer, mode, errors⟩ := s
  obtain ⟨same, _, _⟩ := awaits
  cases same
  simp [State.closed, State.addDone]

theorem ReadsDeclarations.more {inside : Bool} {x : Stmt} {xs : List Stmt} {v w : List Token}
    {es es' : List SyntaxError} (before : ReadsDeclarations inside xs v es)
    (next : ReadsDeclaration inside x w es') :
    ReadsDeclarations inside (xs ++ [x]) (v ++ w) (es ++ es') := by
  intro s awaits
  obtain ⟨⟨t, rest, rfl, other⟩, read⟩ := next
  obtain ⟨s₁, reads, closes⟩ := before s awaits
  obtain ⟨s₂, reads', closes'⟩ := read (s.addDone xs) (awaits.addDone xs)
  rw [← closes] at reads'
  refine ⟨s₂, reads.append (State.reads_of_closed other reads'), ?_⟩
  rw [closes']
  simp only [State.addDone, appendList_append]

theorem optional_reads {rules : Rules} {e : Option Expr} {w : List Token}
    (derives : Optional rules e w) : ∃ es, rules.Waives es ∧ ReadsOptional e w es := by
  cases derives with
  | absent => exact ⟨[], .nil, rfl, rfl⟩
  | present derives => exact expression_reads derives

theorem variable_reads {rules : Rules} {x : Stmt} {w : List Token} (derives : Variable rules x w) :
    ∃ es, rules.Waives es ∧ ReadsVariable x w es := by
  cases derives with
  | bare kind named ends => exact ⟨[], .nil, reads_variable_bare kind named ends⟩
  | set kind named equal value ends =>
    obtain ⟨es, waived, reads⟩ := expression_reads value
    exact ⟨es, waived, reads_variable_set kind named equal reads ends⟩

theorem initial_reads {rules : Rules} {initial : Option Stmt} {w : List Token}
    (derives : Initial rules initial w) : ∃ es, rules.Waives es ∧ ReadsInitial initial w es := by
  cases derives with
  | absent kind => exact ⟨[], .nil, reads_initial_absent kind⟩
  | declared derives =>
    obtain ⟨es, waived, reads⟩ := variable_reads derives
    exact ⟨es, waived, reads_initial_declared reads⟩
  | expression value ends =>
    obtain ⟨es, waived, reads⟩ := expression_reads value
    exact ⟨es, waived, reads_initial_expression reads ends⟩

theorem returnErrors_waived {rules : Rules} {inside : Bool} {keyword : Token}
    (place : inside = true ∨ rules.anyReturn = true) :
    rules.Waives (ReadsStatement.returnErrors inside keyword) := by
  cases inside with
  | true => exact .nil
  | false =>
    rcases place with never | any
    · cases never
    · exact .single any

def ReadsClause : Clause → List Token → List SyntaxError → Prop
  | .statement inside dangling x, w, es =>
    (∃ t rest, w = t :: rest ∧ t.kind ≠ .kwElse) ∧ ReadsStatement inside dangling x w es
  | .declaration inside x, w, es => ReadsDeclaration inside x w es
  | .declarations inside xs, w, es => ReadsDeclarations inside xs w es

theorem starts_not_else {e : Expr} {w : List Token} {semicolon : Token} {es : List SyntaxError}
    (read : ReadsExpression e w es) (kind : semicolon.kind = .semicolon) :
    ∃ t rest, w ++ [semicolon] = t :: rest ∧ t.kind ≠ .kwElse := by
  obtain ⟨t, rest, _, _, _, _, rfl, starts, _⟩ := read semicolon (.inl kind)
  exact ⟨t, rest ++ [semicolon], rfl, kind_ne_of_starts starts rfl⟩

theorem forms_reads {rules : Rules} {clause : Clause} {w : List Token}
    (forms : Forms rules clause w) :
    ∃ es, rules.Waives es ∧ ReadsClause clause w es := by
  induction forms with
  | expression value ends =>
    obtain ⟨es, waived, reads⟩ := expression_reads value
    exact ⟨es, waived, starts_not_else reads ends, .expression reads ends⟩
  | print kind value ends =>
    obtain ⟨es, waived, reads⟩ := expression_reads value
    exact ⟨es, waived, ⟨_, _, rfl, by rw [kind]; decide⟩, .print kind reads ends⟩
  | ret place kind value ends =>
    obtain ⟨es, waived, reads⟩ := optional_reads value
    exact ⟨_, (returnErrors_waived place).append waived, ⟨_, _, rfl, by rw [kind]; decide⟩,
      .ret kind reads ends⟩
  | block opens _ ends body =>
    obtain ⟨es, waived, reads⟩ := body
    exact ⟨es, waived, ⟨_, _, rfl, by rw [opens]; decide⟩, .block opens reads ends⟩
  | whileLoop kind opens condition ends _ body =>
    obtain ⟨es, waived, reads⟩ := expression_reads condition
    obtain ⟨es', waived', _, reads'⟩ := body
    exact ⟨_, waived.append waived', ⟨_, _, rfl, by rw [kind]; decide⟩,
      .whileLoop kind opens reads ends reads'⟩
  | forLoop kind opens first second between third ends _ body =>
    obtain ⟨es₁, waived₁, reads₁⟩ := initial_reads first
    obtain ⟨es₂, waived₂, reads₂⟩ := optional_reads second
    obtain ⟨es₃, waived₃, reads₃⟩ := optional_reads third
    obtain ⟨es, waived, _, reads⟩ := body
    exact ⟨_, (waived₁.append (waived₂.append waived₃)).append waived,
      ⟨_, _, rfl, by rw [kind]; decide⟩,
      .forLoop kind opens reads₁ reads₂ between reads₃ ends reads⟩
  | ifThen kind opens condition ends _ body =>
    obtain ⟨es, waived, reads⟩ := expression_reads condition
    obtain ⟨es', waived', _, reads'⟩ := body
    exact ⟨_, waived.append waived', ⟨_, _, rfl, by rw [kind]; decide⟩,
      .ifThen kind opens reads ends reads'⟩
  | ifElse kind opens condition ends _ otherwise _ first second =>
    obtain ⟨es, waived, reads⟩ := expression_reads condition
    obtain ⟨es', waived', _, reads'⟩ := first
    obtain ⟨es'', waived'', _, reads''⟩ := second
    exact ⟨_, (waived.append waived').append waived'', ⟨_, _, rfl, by rw [kind]; decide⟩,
      .ifElse kind opens reads ends reads' otherwise reads''⟩
  | function kind named opens params ends enters _ leaves body =>
    obtain ⟨es, waived, reads⟩ := params_read params ends
    obtain ⟨es', waived', reads'⟩ := body
    exact ⟨_, waived.append waived', .function kind named opens reads enters reads' leaves⟩
  | declared derives =>
    obtain ⟨es, waived, reads⟩ := variable_reads derives
    exact ⟨es, waived, .declared reads⟩
  | statement _ inner =>
    obtain ⟨es, waived, ⟨t, rest, rfl, other⟩, reads⟩ := inner
    exact ⟨es, waived, .statement other reads⟩
  | empty => exact ⟨[], .nil, .empty⟩
  | more _ _ before next =>
    obtain ⟨es, waived, reads⟩ := before
    obtain ⟨es', waived', reads'⟩ := next
    exact ⟨_, waived.append waived', reads.more reads'⟩

theorem finish_after {s : State} {xs : List Stmt} {w : List Token} {es : List SyntaxError}
    (eof : Token) (awaits : s.AwaitsDeclaration false) (outside : s.outer = [])
    (reads : ReadsDeclarations false xs w es) :
    (w.foldl State.feed s).finish eof = { s.addDone xs with errors := s.errors ++ es } := by
  obtain ⟨⟨layer, outer, mode, errors⟩, read, closes⟩ := reads s awaits
  have run := read s.errors
  change w.foldl State.feed s = _ at run
  rw [run]
  obtain ⟨⟨done, holes⟩, outer', mode', errors'⟩ := s
  obtain ⟨rfl, rfl, -⟩ := awaits
  cases outside
  cases mode with
  | declaration =>
    simp only [State.closed, State.addDone, State.mk.injEq] at closes
    obtain ⟨rfl, rfl, -, -⟩ := closes
    simp [State.finish, State.addDone]
  | afterThen condition thenBranch =>
    simp only [State.closed, State.completeAll, State.finishDeclaration, State.addDone,
      State.mk.injEq] at closes
    obtain ⟨same, rfl, -, -⟩ := closes
    simp [State.finish, State.completeAll, State.finishDeclaration, State.addDone, same]
  | _ => simp [State.closed, State.addDone] at closes

theorem finish_of_reads {xs : List Stmt} {w : List Token} {es : List SyntaxError} (eof : Token)
    (reads : ReadsDeclarations false xs w es) :
    (w.foldl State.feed {}).finish eof =
      { layer := { done := xs.toArray }, errors := es.toArray } := by
  rw [finish_after eof ⟨rfl, rfl, rfl⟩ rfl reads]
  simp [State.addDone]

end Treewalk.Parse
