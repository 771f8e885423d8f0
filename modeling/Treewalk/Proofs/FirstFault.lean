import Mathlib.Data.List.Induction
import Treewalk.Proofs.TokenSteps

namespace Treewalk

open Grammar Grammar.Rules
open Token (Kind)

def Grammar.Accepts (rules : Rules) (w : List Token) : Prop := ∃ p, Program rules p w

def Grammar.Viable (rules : Rules) (w : List Token) : Prop := ∃ u, Accepts rules (w ++ u)

namespace Parse

namespace State

variable {s s' : State} {t : Token} {w : List Token}

theorem accepted_or_fault {es : List SyntaxError} (accepted : s.Accepted relaxed)
    (grown : s'.errors.toList = s.errors.toList ++ es) (adds : Adds t es) :
    s'.Accepted relaxed ∨ ∃ soft problem, problem.isFault = true ∧
      s'.errors.toList = soft ++ [.atToken t problem] ∧ relaxed.Waives soft := by
  have before : relaxed.Waives s.errors.toList :=
    fun e member => accepted e (Array.mem_toList_iff.mp member)
  rcases adds.soft_or_fault with soft | ⟨soft, problem, rfl, fault, waived⟩
  · left
    intro e member
    have all := before.append soft
    rw [← grown] at all
    exact all e (Array.mem_toList_iff.mpr member)
  · exact .inr ⟨s.errors.toList ++ soft, problem, fault, by simp [grown], before.append waived⟩

theorem feed_eof_rejects (spells : s.Spells relaxed w) (ends : t.kind = .eof) :
    ¬ (s.feed t).Accepted relaxed := by
  obtain ⟨layer, outer, mode, errors⟩ := s
  have notElse : t.is .kwElse = false := by simp [Token.is, ends]
  have started (s : State) : ¬ (s.startDeclaration t).Accepted relaxed := by
    simp only [startDeclaration, ends]
    exact startStatement_eof ends
  cases mode with
  | declaration => exact started _
  | recovery =>
    obtain ⟨_, _, _, _, _, _, _, _, spelled⟩ := spells
    cases spelled
  | afterThen condition thenBranch =>
    simp only [feed, notElse]
    exact started _
  | statement => exact feed_eof spells ends (.inl rfl)
  | header due => exact feed_eof spells ends (.inr (.inl ⟨due, rfl⟩))
  | value goal read => exact feed_eof spells ends (.inr (.inr ⟨goal, read, rfl⟩))

end State

/-- The reader is without a hard error exactly on the beginnings of programs. -/
theorem viable_iff (w : List Token) :
    Viable relaxed w ↔ (w.foldl State.feed {}).Accepted relaxed := by
  constructor
  · rintro ⟨u, p, program⟩
    obtain ⟨es, waived, reads⟩ := forms_reads program
    have whole := finish_of_reads (filler .eof) reads
    have accepted : (((w ++ u).foldl State.feed {}).finish (filler .eof)).Accepted relaxed := by
      rw [whole]
      exact fun e member => waived e (by simpa using member)
    have read : ((w ++ u).foldl State.feed {}).Accepted relaxed :=
      accepted.of_prefix (State.finish_errors _ _)
    rw [List.foldl_append] at read
    exact read.of_prefix (State.run_errors _ u)
  · intro accepted
    obtain ⟨u, p, program⟩ := (State.run_spells State.spells_empty accepted).completes
    exact ⟨u, p, program⟩

theorem not_viable_eof {eof : Token} (ends : eof.kind = .eof) (w : List Token) :
    ¬ Viable relaxed (w ++ [eof]) := by
  intro viable
  have read := (viable_iff _).mp viable
  rw [List.foldl_append] at read
  have before := read.of_prefix (State.run_errors _ [eof])
  exact State.feed_eof_rejects (State.run_spells State.spells_empty before) ends read

theorem first_unviable {w : List Token} (unviable : ¬ Viable relaxed w) :
    ∃ a t b, w = a ++ t :: b ∧ Viable relaxed a ∧ ¬ Viable relaxed (a ++ [t]) := by
  induction w using List.reverseRecOn with
  | nil =>
    have empty : Viable relaxed [] := (viable_iff []).mpr (fun e member => by simp at member)
    exact absurd empty unviable
  | append_singleton w t ih =>
    by_cases viable : Viable relaxed w
    · exact ⟨w, t, [], rfl, viable, unviable⟩
    · obtain ⟨a, t', b, rfl, before, here⟩ := ih viable
      exact ⟨a, t', b ++ [t], by simp, before, here⟩

theorem State.finish_adds (s : State) (eof : Token) :
    ∃ (s' : State) (es : List SyntaxError),
      s'.errors.toList = s.errors.toList ++ es ∧ Adds eof es ∧
      (s.finish eof).errors.toList = s'.errors.toList ++
        List.replicate s'.outer.length (SyntaxError.atToken eof .blockEnd) := by
  obtain ⟨es, grown, adds⟩ := s.feed_adds eof
  have idle : s.errors.toList = s.errors.toList ++ [] := (List.append_nil _).symm
  cases mode : s.mode with
  | declaration | recovery => exact ⟨s, [], idle, .nil, by simp [finish, mode]⟩
  | afterThen condition thenBranch =>
    exact ⟨s.completeAll (.ifElse condition thenBranch none), [], idle, .nil, by simp [finish, mode]⟩
  | statement | header | value => exact ⟨s.feed eof, es, grown, adds, by simp [finish, mode]⟩

theorem parse_first_fault {tokens : List Token} (refused : ¬ Accepts relaxed (body tokens)) :
    ∃ a t b, body tokens ++ [ending tokens] = a ++ t :: b ∧
      Viable relaxed a ∧ ¬ Viable relaxed (a ++ [t]) ∧ (b = [] ↔ Viable relaxed (body tokens)) ∧
      ∃ soft problem rest, (parse tokens).errors = soft ++ .atToken t problem :: rest ∧
        problem.isFault = true ∧ relaxed.Waives soft := by
  have eof := ending_kind tokens
  have parsed : (parse tokens).errors =
      (((body tokens).foldl State.feed {}).finish (ending tokens)).errors.toList := rfl
  by_cases viable : Viable relaxed (body tokens)
  · refine ⟨body tokens, ending tokens, [], rfl, viable, not_viable_eof eof _, by simp [viable], ?_⟩
    obtain ⟨s', es, grown, adds, ended⟩ :=
      State.finish_adds ((body tokens).foldl State.feed {}) (ending tokens)
    rw [parsed, ended]
    have read := State.accepted_or_fault ((viable_iff _).mp viable) grown adds
    rcases read with accepted | ⟨soft, problem, fault, errors, waived⟩
    · have before : relaxed.Waives s'.errors.toList :=
        fun e member => accepted e (Array.mem_toList_iff.mp member)
      cases depth : s'.outer.length with
      | zero =>
        -- nothing is open and nothing is wrong, so the tokens are a program after all
        rw [depth] at ended
        have clean : relaxed.Waives (parse tokens).errors := by
          rw [parsed, ended, List.replicate_zero, List.append_nil]
          exact before
        exact absurd ⟨_, (program_iff relaxed tokens _).mpr ⟨clean, rfl⟩⟩ refused
      | succ n => exact ⟨s'.errors.toList, .blockEnd, _, by rw [List.replicate_succ], rfl, before⟩
    · exact ⟨soft, problem, _, by rw [errors, List.append_assoc]; rfl, fault, waived⟩
  · obtain ⟨a, t, b, split, before, here⟩ := first_unviable viable
    refine ⟨a, t, b ++ [ending tokens], by simp [split], before, here, by simp [viable], ?_⟩
    obtain ⟨es, grown, adds⟩ := (a.foldl State.feed {}).feed_adds t
    have read := State.accepted_or_fault ((viable_iff _).mp before) grown adds
    rcases read with accepted | ⟨soft, problem, fault, errors, waived⟩
    · rw [viable_iff, List.foldl_append] at here
      exact absurd accepted here
    · have later : ((a.foldl State.feed {}).feed t).errors.toList <+: (parse tokens).errors := by
        rw [parsed, split, List.foldl_append]
        exact (State.run_errors _ b).trans (State.finish_errors _ _)
      obtain ⟨rest, whole⟩ := later
      exact ⟨soft, problem, rest, by rw [← whole, errors]; simp, fault, waived⟩

end Parse

/-- The first error that says what was expected stands at the first token that no program goes on
with: every list shorter than that is the beginning of a program. -/
theorem first_fault_at_first_unviable (tokens : List Token) :
    let ts := tokens.takeWhile (·.kind != .eof)
    let padded := ts ++ [Parse.ending tokens]
    let errors := (parse tokens).errors
    let Expects := fun e : SyntaxError => "Expect".toList <+: e.message.toList
    ((∃ e ∈ errors, Expects e) ↔ ¬ Accepts relaxed ts) ∧
    (¬ Accepts relaxed ts →
      ∃ k t problem before after,
        errors = before ++ .atToken t problem :: after ∧
        (∀ e ∈ before, ¬ Expects e) ∧ Expects (.atToken t problem) ∧
        padded[k]? = some t ∧
        Viable relaxed (padded.take k) ∧ ¬ Viable relaxed (padded.take (k + 1)) ∧
        (k = ts.length ↔ Viable relaxed ts)) := by
  intro ts padded errors Expects
  have expects_iff (e : SyntaxError) : Expects e ↔ e.problem.isFault = true :=
    (Problem.isFault_iff _).symm
  have quiet {e : SyntaxError} (waived : relaxed.waives e.problem = true) : ¬ Expects e := by
    rw [expects_iff]
    intro fault
    rw [Problem.not_waived_of_isFault fault] at waived
    cases waived
  constructor
  · constructor
    · rintro ⟨e, member, expects⟩ ⟨p, program⟩
      exact quiet (((Parse.program_iff relaxed tokens p).mp program).1 e member) expects
    · intro refused
      obtain ⟨_, t, _, _, _, _, _, soft, problem, rest, whole, fault, _⟩ :=
        Parse.parse_first_fault refused
      exact ⟨.atToken t problem, by simp [errors, whole], (expects_iff _).mpr fault⟩
  · intro refused
    obtain ⟨a, t, b, split, viable, unviable, last, soft, problem, rest, whole, fault, waived⟩ :=
      Parse.parse_first_fault refused
    have padded_eq : padded = a ++ t :: b := split
    refine ⟨a.length, t, problem, soft, rest, whole, fun e member => quiet (waived e member),
      (expects_iff _).mpr fault, ?_, ?_, ?_, ?_⟩
    · simp [padded_eq]
    · simpa [padded_eq] using viable
    · have taken : padded.take (a.length + 1) = a ++ [t] := by
        rw [padded_eq, List.take_length_add_append]
        rfl
      rwa [taken]
    · have lengths : ts.length + 1 = a.length + (b.length + 1) := by
        simpa [padded] using congrArg List.length padded_eq
      change b = [] ↔ Viable relaxed ts at last
      rw [← last, ← List.length_eq_zero_iff]
      omega

end Treewalk
