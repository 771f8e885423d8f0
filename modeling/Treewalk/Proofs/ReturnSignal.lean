import Treewalk.Proofs.LexicalDepth
import Treewalk.Proofs.ReturnPlaces

namespace Treewalk

/-- No return is under way where the action ends. -/
def Eval.Stays (x : Eval Flow) : Prop := ∀ m v n, x m ≠ .ok (.returned v) n

namespace Eval.Stays

variable {α : Type} {x : Eval Flow}

theorem next : Stays (pure .next) := by
  intro m v n same
  cases same

theorem bind {x : Eval α} {f : α → Eval Flow} (after : ∀ m a n, x m = .ok a n → (f a).Stays) :
    Stays (x >>= f) := by
  intro m v n same
  change EStateM.bind x f m = _ at same
  rw [EStateM.bind] at same
  cases result : x m with
  | ok a o =>
    rw [result] at same
    exact after m a o result o v n same
  | error h o =>
    rw [result] at same
    cases same

theorem andThen {f : Flow → Eval Flow} (first : x.Stays) (second : (f .next).Stays) :
    Stays (x >>= f) := by
  refine bind fun m flow n result => ?_
  cases flow with
  | next => exact second
  | returned v => exact absurd result (first m v n)

theorem inside (stays : x.Stays) (parent : ScopeId) (bindings : List (String × Value)) :
    Stays (.inside parent bindings x) := by
  intro m v n same
  rw [Eval.inside_apply] at same
  split at same
  · next a o result =>
    cases same
    exact stays _ v o result
  · cases same

theorem repeatWhile {condition : Eval Bool} {body : Eval Flow} (stays : body.Stays) (turns : Nat) :
    Stays (repeatWhile condition body turns) := by
  induction turns with
  | zero =>
    intro m v n same
    cases same
  | succ turns ih =>
    rw [repeatWhile_succ]
    refine bind fun _ go _ _ => ?_
    cases go with
    | false => exact next
    | true => exact stays.andThen ih

end Eval.Stays

def Stmt.Enclosed (s : Stmt) : Prop := ∀ r ∈ s.returns false, r.2 = true

def Stmt.AllEnclosed (ss : List Stmt) : Prop := ∀ r ∈ Stmt.returnsAll false ss, r.2 = true

section Exec

variable (call : Caller) (turns : Nat)

mutual

theorem exec_stays (s : Stmt) (enclosed : s.Enclosed) : (s.exec call turns).Stays :=
  match s, enclosed with
  | .expression _, _ => .bind fun _ _ _ _ => .next
  | .print _ _, _ => .bind fun _ _ _ _ => .bind fun _ _ _ _ => .next
  | .varDecl _ none, _ => .bind fun _ _ _ _ => .next
  | .varDecl _ (some _), _ => .bind fun _ _ _ _ => .bind fun _ _ _ _ => .next
  | .block ss, enclosed => fun m => (execAll_stays ss enclosed).inside m.current [] m
  | .ifElse _ s none, enclosed => by
    refine .bind fun _ v _ _ => ?_
    cases v.truthy with
    | true => exact exec_stays s enclosed
    | false => exact .next
  | .ifElse _ s (some r), enclosed => by
    refine .bind fun _ v _ _ => ?_
    cases v.truthy with
    | true => exact exec_stays s fun a member => enclosed a (List.mem_append_left _ member)
    | false => exact exec_stays r fun a member => enclosed a (List.mem_append_right _ member)
  | .whileLoop _ s, enclosed => (exec_stays s enclosed).repeatWhile turns
  | .funDecl _ _ _, _ => .bind fun _ _ _ _ => .bind fun _ _ _ _ => .next
  | .ret keyword _, enclosed => nomatch enclosed (keyword, false) (List.mem_singleton_self _)

theorem execAll_stays (ss : List Stmt) (enclosed : Stmt.AllEnclosed ss) :
    (Stmt.execAll call turns ss).Stays :=
  match ss, enclosed with
  | [], _ => .next
  | s :: ss, enclosed =>
    have first := exec_stays s fun r member => enclosed r (List.mem_append_left _ member)
    have rest := execAll_stays ss fun r member => enclosed r (List.mem_append_right _ member)
    first.andThen rest

end

end Exec

theorem Stmt.AllEnclosed.of_mem {ss : List Stmt} {s : Stmt} (enclosed : AllEnclosed ss)
    (member : s ∈ ss) : s.Enclosed := by
  obtain ⟨before, after, rfl⟩ := List.append_of_mem member
  intro r here
  refine enclosed r ?_
  rw [returnsAll_append, returnsAll]
  exact List.mem_append_right _ (List.mem_append_left _ here)

theorem Moment.During.suffix {q : Moment} {fuel d : Nat} {p : List Stmt} {m : Machine}
    (during : During ⟨fuel, d, .program p, m⟩ q) (ss : List Stmt) (task : q.task = .program ss) :
    ss <:+ p := by
  induction during generalizing ss with
  | start =>
    cases task
    exact List.suffix_rfl
  | next _ step ih =>
    cases step with
    | restOfProgram ran =>
      cases task
      exact (List.suffix_cons _ _).trans (ih _ rfl)
    | _ => cases task

theorem allEnclosed_of_clean {source : String} (clean : (parseSource source).errors = []) :
    Stmt.AllEnclosed (parseSource source).statements := by
  intro r member
  cases place : r.2 with
  | true => rfl
  | false =>
    obtain ⟨e, reported, -⟩ := (parseSource_reports member).mp place
    rw [clean] at reported
    cases reported

/-- The signal of a return is never seen outside functions: a return recovered from a source is in
no function exactly if it is reported, a statement whose returns are in functions does not send the
signal on, and so no statement of a program that runs in a session does. -/
theorem return_signal_stays_inside :
    (∀ source : String, ∀ r ∈ Stmt.returnsAll false (parseSource source).statements,
      r.2 = false ↔
        Reported (parseSource source).errors "Can't return from top-level code." r.1) ∧
    (∀ (call : Caller) (turns : Nat) (s : Stmt), (∀ r ∈ s.returns false, r.2 = true) →
      ∀ m v n, s.exec call turns m ≠ .ok (.returned v) n) ∧
    ∀ (x : Session) (fuel : Nat) (source : String), (parseSource source).errors = [] →
      ∀ k d s ss m, Moment.During
        ⟨fuel, 0, .program (parseSource source).statements, x.machine⟩
        ⟨k, d, .program (s :: ss), m⟩ →
      ∀ v n, s.exec (Function.apply k) k m ≠ .ok (.returned v) n := by
  refine ⟨fun source r member => parseSource_reports member, ?_, ?_⟩
  · intro call turns s enclosed
    exact exec_stays call turns s enclosed
  · intro x fuel source clean k d s ss m during
    have rest := during.suffix (s :: ss) rfl
    have enclosed := (allEnclosed_of_clean clean).of_mem (rest.subset List.mem_cons_self)
    exact exec_stays (Function.apply k) k s enclosed m

def strayReturnSource : String := "fun f() \x7b return; var; \x7d return;"

def innerReturn : Token := { kind := .kwReturn, lexeme := "return", line := 1, span := ⟨10, 16⟩ }

def strayReturn : Token := { kind := .kwReturn, lexeme := "return", line := 1, span := ⟨25, 31⟩ }

def returningSource : String := "fun f() \x7b return; \x7d f();"

def returningDecl : Stmt :=
  .funDecl { kind := .identifier, lexeme := "f", line := 1, span := ⟨4, 5⟩ } [] [.ret innerReturn none]

def returningCall : Stmt :=
  .expression (.call (.var { kind := .identifier, lexeme := "f", line := 1, span := ⟨20, 21⟩ })
    { kind := .rightParen, lexeme := ")", line := 1, span := ⟨22, 23⟩ } [])

theorem return_signal_stays_inside_of_call :
    (Stmt.returnsAll false (parseSource strayReturnSource).statements =
        [(innerReturn, true), (strayReturn, false)] ∧
      (parseSource strayReturnSource).errors.length = 2 ∧
      ¬ Reported (parseSource strayReturnSource).errors "Can't return from top-level code."
        innerReturn ∧
      Reported (parseSource strayReturnSource).errors "Can't return from top-level code."
        strayReturn) ∧
    (returningDecl.returns false = [(innerReturn, true)] ∧
      ∀ m v n, returningDecl.exec (Function.apply 3) 3 m ≠ .ok (.returned v) n) ∧
    let x := Session.start {} default
    let m := (returningDecl.exec (Function.apply 3) 3).final x.machine
    Moment.During ⟨3, 0, .program (parseSource returningSource).statements, x.machine⟩
        ⟨3, 0, .program [returningCall], m⟩ ∧
      ∀ v n, returningCall.exec (Function.apply 3) 3 m ≠ .ok (.returned v) n := by
  obtain ⟨reported, stays, session⟩ := return_signal_stays_inside
  have returns : Stmt.returnsAll false (parseSource strayReturnSource).statements =
      [(innerReturn, true), (strayReturn, false)] := by with_unfolding_all rfl
  have inner := reported strayReturnSource (innerReturn, true) (by simp [returns])
  have stray := reported strayReturnSource (strayReturn, false) (by simp [returns])
  have enclosed : returningDecl.returns false = [(innerReturn, true)] := rfl
  have tree : (parseSource returningSource).statements = [returningDecl, returningCall] := by
    with_unfolding_all rfl
  have clean : (parseSource returningSource).errors = [] := by decide +kernel
  have called (m : Machine) : Moment.During
      ⟨3, 0, .program (parseSource returningSource).statements, m⟩
      ⟨3, 0, .program [returningCall], (returningDecl.exec (Function.apply 3) 3).final m⟩ := by
    rw [tree]
    exact .next .start (.restOfProgram rfl)
  refine ⟨⟨returns, by decide +kernel, ?_, stray.mp rfl⟩, ⟨enclosed, ?_⟩, called _, ?_⟩
  · exact fun mistaken => nomatch inner.mpr mistaken
  · exact stays (Function.apply 3) 3 returningDecl (by simp [enclosed])
  · exact session (Session.start {} default) 3 returningSource clean 3 0 returningCall [] _ (called _)

end Treewalk
