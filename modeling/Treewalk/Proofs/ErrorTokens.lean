import Treewalk.Proofs.ParseExact

namespace Treewalk.Parse

variable {P : Token → Prop} {t : Token} {pending : List Pending}

def Anchored (P : Token → Prop) (es : List SyntaxError) : Prop :=
  ∀ e ∈ es, ∃ t problem, P t ∧ e = .atToken t problem

/-- Among the tokens of an open expression only the `=` of an assignment can still be at fault. -/
def Pending.Holds (P : Token → Prop) : Pending → Prop
  | .assign _ equals => P equals
  | _ => True

def Holds (P : Token → Prop) (pending : List Pending) : Prop := ∀ part ∈ pending, part.Holds P

def Progress.Holds (P : Token → Prop) : Progress → Prop
  | .more next => Parse.Holds P next.pending
  | _ => True

namespace Anchored

variable {es es' : List SyntaxError}

theorem nil : Anchored P [] := fun _ member => nomatch member

theorem single (here : P t) (problem : Problem) : Anchored P [.atToken t problem] := by
  intro e member
  rw [List.mem_singleton.mp member]
  exact ⟨t, problem, here, rfl⟩

theorem append (first : Anchored P es) (second : Anchored P es') : Anchored P (es ++ es') := by
  intro e member
  rcases List.mem_append.mp member with member | member
  · exact first e member
  · exact second e member

end Anchored

namespace Holds

theorem nil : Holds P [] := fun _ member => nomatch member

theorem cons {part : Pending} (first : part.Holds P) (rest : Holds P pending) :
    Holds P (part :: pending) := by
  intro other member
  rcases List.mem_cons.mp member with rfl | member
  · exact first
  · exact rest other member

theorem tail {part : Pending} (holds : Holds P (part :: pending)) : Holds P pending :=
  fun other member => holds other (List.mem_cons_of_mem _ member)

theorem close (holds : Holds P pending) (closes : Level → Bool) (value : Expr) :
    Holds P (close closes pending value).1 := by
  fun_induction Parse.close closes pending value with
  | case1 op pending value ih => exact ih holds.tail
  | case2 level left op pending value _ ih => exact ih holds.tail
  | case3 => exact holds
  | case4 => exact holds

theorem settle {es : List SyntaxError} (holds : Holds P pending) (value : Expr)
    (before : Anchored P es) :
    Holds P (settle pending value es).pending ∧ Anchored P (settle pending value es).errors := by
  fun_induction Parse.settle pending value es with
  | case1 op pending value es ih => exact ih holds.tail before
  | case2 level left op pending value es ih => exact ih holds.tail before
  | case3 name equals pending value es ih => exact ih holds.tail before
  | case4 target equals pending value es _ ih =>
    have here : P equals := holds (.assign target equals) List.mem_cons_self
    exact ih holds.tail (before.append (.single here _))
  | case5 => exact ⟨holds, before⟩

theorem startOperand (holds : Holds P pending) (t : Token) :
    (startOperand pending t).Holds P := by
  unfold Parse.startOperand
  split
  · exact cons trivial holds
  · exact cons trivial holds
  · exact cons trivial holds
  · split
    · exact holds
    · trivial

theorem feedOperand (holds : Holds P pending) (here : P t) :
    Anchored P (feedOperand pending t).1 ∧ (feedOperand pending t).2.Holds P := by
  have start := holds.startOperand t
  unfold Parse.feedOperand
  split
  · split
    · exact ⟨.nil, holds.tail⟩
    · split
      · exact ⟨.single here _, start⟩
      · exact ⟨.nil, start⟩
  · exact ⟨.nil, start⟩

theorem endInner {s : Settled} (holds : Holds P s.pending) (t : Token) :
    (endInner s t).Holds P := by
  unfold Parse.endInner
  split
  · next outer same =>
    rw [same] at holds
    split
    · exact holds.tail
    · trivial
  · next callee args outer same =>
    rw [same] at holds
    simp only
    split
    · exact cons trivial holds.tail
    · split
      · exact holds.tail
      · trivial
  · trivial

theorem feedOperator (holds : Holds P pending) (value : Expr) (here : P t) :
    Anchored P (feedOperator pending value t).1 ∧ (feedOperator pending value t).2.Holds P := by
  unfold Parse.feedOperator
  split
  · exact ⟨.nil, cons trivial holds⟩
  · exact ⟨.nil, cons here (holds.close _ value)⟩
  · exact ⟨.nil, cons trivial (holds.close _ value)⟩
  · have settled := holds.settle value .nil
    exact ⟨settled.2, endInner settled.1 t⟩

end Holds

theorem OpenExpr.feed_holds {read : OpenExpr} (holds : Holds P read.pending) (here : P t) :
    Anchored P (read.feed t).1 ∧ (read.feed t).2.Holds P := by
  unfold OpenExpr.feed
  split
  · exact holds.feedOperand here
  · exact holds.feedOperator _ here

def Mode.Holds (P : Token → Prop) : Mode → Prop
  | .value _ read => Parse.Holds P read.pending
  | _ => True

structure State.Anchored (P : Token → Prop) (s : State) : Prop where
  mode : s.mode.Holds P
  errors : Parse.Anchored P s.errors.toList

namespace State

variable {s : State}

theorem anchored_start : State.Anchored P {} := ⟨trivial, .nil⟩

namespace Anchored

theorem fail (errors : Parse.Anchored P s.errors.toList) (here : P t) (problem : Problem) :
    (s.fail t problem).Anchored P := by
  constructor
  · by_cases ends : t.is .semicolon = true <;> simp [State.fail, ends, Mode.Holds]
  · rw [errors_fail, Array.toList_push]
    exact errors.append (.single here problem)

theorem report (errors : Parse.Anchored P s.errors.toList) (here : P t) (problem : Problem) :
    Parse.Anchored P (s.report (.atToken t problem)).errors.toList := by
  rw [errors_report, Array.toList_push]
  exact errors.append (.single here problem)

theorem complete (errors : Parse.Anchored P s.errors.toList) (x : Stmt) :
    (s.complete x).Anchored P := by
  constructor
  · unfold State.complete
    split <;> trivial
  · rw [errors_complete]
    exact errors

theorem reach (errors : Parse.Anchored P s.errors.toList) (value : Expr) (goal : Goal) :
    (s.reach value goal).Anchored P := by
  unfold State.reach
  split
  case h_1 | h_2 | h_3 | h_5 => exact complete errors _
  all_goals exact ⟨trivial, errors⟩

theorem feedValue {read : OpenExpr} (errors : Parse.Anchored P s.errors.toList)
    (holds : Holds P read.pending) (goal : Goal) (here : P t) :
    (s.feedValue goal read t).Anchored P := by
  obtain ⟨soft, progress⟩ := OpenExpr.feed_holds holds here
  have more : Parse.Anchored P (s.errors ++ (read.feed t).1).toList := by
    rw [Array.toList_appendList]
    exact errors.append soft
  simp only [State.feedValue]
  split
  · next next same =>
    rw [same] at progress
    exact ⟨progress, more⟩
  · exact fail more here _
  · split
    · exact reach more _ goal
    · exact fail more here _

theorem startStatement (errors : Parse.Anchored P s.errors.toList) (here : P t) :
    (s.startStatement t).Anchored P := by
  unfold State.startStatement
  split
  case h_3 => exact ⟨Holds.nil, errors⟩
  case h_4 =>
    by_cases inside : s.inFunction = true
    · simp only [inside, if_true]
      exact ⟨trivial, errors⟩
    · simp only [inside]
      exact ⟨trivial, report errors here _⟩
  case h_7 => exact feedValue errors .nil _ here
  all_goals exact ⟨trivial, errors⟩

theorem startDeclaration (errors : Parse.Anchored P s.errors.toList) (here : P t) :
    (s.startDeclaration t).Anchored P := by
  unfold State.startDeclaration
  split
  · exact ⟨trivial, errors⟩
  · exact ⟨trivial, errors⟩
  · next opener layer outer _ _ => exact complete (s := { s with layer, outer }) errors _
  · exact startStatement errors here

theorem feedParameter (errors : Parse.Anchored P s.errors.toList) (here : P t) (name : Token)
    (params : Array Token) : (s.feedParameter name params t).Anchored P := by
  unfold State.feedParameter
  split
  · exact ⟨trivial, errors⟩
  · by_cases many : maxArguments ≤ params.size
    · simp only [many, if_true]
      split
      · exact ⟨trivial, report errors here _⟩
      · exact fail (report errors here _) here _
    · simp only [many, if_false]
      split
      · exact ⟨trivial, errors⟩
      · exact fail errors here _

theorem feedHeader (errors : Parse.Anchored P s.errors.toList) (here : P t) (due : Header) :
    (s.feedHeader t due).Anchored P := by
  unfold State.feedHeader
  split
  case h_3 => exact feedParameter errors here _ _
  all_goals
    repeat' split
    all_goals first
      | exact fail errors here _
      | exact complete errors _
      | exact feedValue errors .nil _ here
      | exact ⟨trivial, errors⟩
      | exact ⟨Holds.nil, errors⟩

theorem feed (anchored : s.Anchored P) (here : P t) : (s.feed t).Anchored P := by
  obtain ⟨holds, errors⟩ := anchored
  unfold State.feed
  split
  · exact startDeclaration errors here
  · split
    · exact startDeclaration errors here
    · split <;> exact ⟨by simp_all [Mode.Holds], errors⟩
  · exact startStatement errors here
  · split
    · exact ⟨trivial, errors⟩
    · exact startDeclaration errors here
  · exact feedHeader errors here _
  · next goal read same =>
    rw [same] at holds
    exact feedValue errors holds goal here

theorem run {w : List Token} (anchored : s.Anchored P) (all : ∀ t ∈ w, P t) :
    (w.foldl State.feed s).Anchored P := by
  induction w generalizing s with
  | nil => exact anchored
  | cons t w ih =>
    exact ih (anchored.feed (all t List.mem_cons_self))
      fun t member => all t (List.mem_cons_of_mem _ member)

theorem finish (anchored : s.Anchored P) (here : P t) :
    Parse.Anchored P (s.finish t).errors.toList := by
  have fed := (anchored.feed here).errors
  have missing (n : Nat) :
      Parse.Anchored P (List.replicate n (SyntaxError.atToken t .blockEnd)) := by
    intro e member
    rw [List.eq_of_mem_replicate member]
    exact ⟨t, _, here, rfl⟩
  simp only [State.finish, Array.toList_appendList]
  split
  case h_4 | h_5 | h_6 => exact fed.append (missing _)
  all_goals exact anchored.errors.append (missing _)

end Anchored

end State

/-- Every error of the grammar stands at a token of the input, or at its end. -/
theorem parse_anchored (tokens : List Token) :
    Anchored (fun t => t ∈ body tokens ∨ t = ending tokens) (parse tokens).errors := by
  have run := State.anchored_start.run (w := body tokens)
    (P := fun t => t ∈ body tokens ∨ t = ending tokens) fun t member => .inl member
  exact run.finish (.inr rfl)

end Treewalk.Parse
