import Treewalk.Proofs.Accounts
import Treewalk.Proofs.Restoration

namespace Treewalk

theorem extract_append_of_le {u w : ByteArray} {limit : Nat} (le : limit ≤ u.size) :
    (u ++ w).extract 0 limit = u.extract 0 limit := by
  rw [ByteArray.extract_append, Nat.sub_eq_zero_of_le le]
  simp

theorem extract_append_of_ge {u w : ByteArray} {limit : Nat} (ge : u.size ≤ limit) :
    (u ++ w).extract 0 limit = u ++ w.extract 0 (limit - u.size) := by
  have whole : u.extract 0 limit = u := by
    apply ByteArray.ext
    rw [ByteArray.data_extract, Array.extract_eq_self_of_le ge]
  rw [ByteArray.extract_append, Nat.zero_sub, whole]

theorem extract_append_add {u w : ByteArray} {n : Nat} :
    (u ++ w).extract 0 (u.size + n) = u ++ w.extract 0 n := by
  rw [extract_append_of_ge (Nat.le_add_right _ _), Nat.add_sub_cancel_left]

namespace Sink

def capped (limit : Nat) (refusal : Refusal) (s : Sink) : Sink :=
  { taken := s.taken, room := some (limit - s.taken.size), refusal }

variable {limit : Nat} {refusal : Refusal} {s : Sink} {data : ByteArray}

theorem write_endless (endless : s.room = none) :
    s.write data = (none, { s with taken := s.taken ++ data }) := by
  simp only [write, endless]

theorem write_capped (fits : (s.taken ++ data).size ≤ limit) :
    (s.capped limit refusal).write data =
      (none, capped limit refusal { s with taken := s.taken ++ data }) := by
  rw [ByteArray.size_append] at fits
  have room : data.size ≤ limit - s.taken.size := by omega
  have left : limit - s.taken.size - data.size = limit - (s.taken ++ data).size := by
    rw [ByteArray.size_append]
    omega
  simp only [write, capped, if_pos room, left]

theorem write_full (before : s.taken.size ≤ limit) (full : limit < (s.taken ++ data).size) :
    (s.capped limit refusal).write data =
      (some refusal, ⟨(s.taken ++ data).extract 0 limit, some 0, refusal⟩) := by
  rw [ByteArray.size_append] at full
  have room : ¬ data.size ≤ limit - s.taken.size := by omega
  simp only [write, capped, if_neg room, extract_append_of_ge before]

end Sink

def Value.line (v : Value) : ByteArray := (v.text ++ "\n").toUTF8

def Machine.capped (limit : Nat) (refusal : Refusal) (m : Machine) : Machine :=
  { m with sink := m.sink.capped limit refusal }

namespace Eval

theorem print_taken {keyword : Token} {v : Value} {m : Machine} {sink : Sink}
    (written : m.sink.write v.line = (none, sink)) : print keyword v m = .ok () { m with sink } := by
  unfold Value.line at written
  rw [print, written]

theorem print_refused {keyword : Token} {v : Value} {m : Machine} {sink : Sink}
    {refusal : Refusal} (written : m.sink.write v.line = (some refusal, sink)) :
    print keyword v m =
      .error (.fault (.atToken keyword (.output refusal.message))) { m with sink } := by
  unfold Value.line at written
  rw [print, written]
  rfl

end Eval

/-- The action does the same on whatever sink, and leaves it. -/
def Eval.Silent {α : Type} (x : Eval α) (m : Machine) : Prop :=
  ∀ sink, x { m with sink } = onFinal (fun n => { n with sink }) (x m)

namespace Eval.Silent

variable {m : Machine}

theorem final {α : Type} {x : Eval α} (silent : x.Silent m) : (x.final m).sink = m.sink := by
  have same : x m = onFinal (fun n => { n with sink := m.sink }) (x m) := silent m.sink
  cases ended : x m with
  | ok a n =>
    rw [ended] at same
    injection same with _ same
    rw [final_ok ended, same]
  | error h n =>
    rw [ended] at same
    injection same with _ same
    rw [final_error ended, same]

theorem lookup {name : Token} : (Eval.lookup name).Silent m := by
  intro sink
  rw [lookup_apply, lookup_apply]
  cases m.store.get? m.current name.lexeme <;> rfl

theorem assign {name : Token} {v : Value} : (Eval.assign name v).Silent m := by
  intro sink
  unfold Eval.assign
  cases m.store.find? m.current name.lexeme <;> rfl

theorem pin {t : Token} {r : Except Cause Value} : (Eval.pin t r).Silent m := by
  intro sink
  cases r <;> rfl

end Eval.Silent

namespace Moment

def Prints (q : Moment) (keyword : Token) (v : Value) (n : Machine) : Prop :=
  ∃ e, q.task = .code (.stmt (.print keyword e)) ∧ e.eval (Function.apply q.fuel) q.machine = .ok v n

end Moment

/-- An action on a sink without a limit, next to the same action on one with a limit. Where its
bytes fit, there is no difference. Where they do not, a print takes them past the limit. -/
structure Truncates (start : Moment) (limit : Nat) (refusal : Refusal) {α : Type} (x : Eval α)
    (m : Machine) : Prop where
  endless : (x.final m).sink.room = none
  grows : ∃ u, (x.final m).sink.taken = m.sink.taken ++ u
  fits : (x.final m).sink.taken.size ≤ limit →
    x (m.capped limit refusal) = onFinal (Machine.capped limit refusal) (x m)
  crosses : m.sink.taken.size ≤ limit → limit < (x.final m).sink.taken.size →
    ∃ q keyword v n u, start.During q ∧ q.Prints keyword v n ∧ n.sink.taken.size ≤ limit ∧
      limit < (n.sink.taken ++ v.line).size ∧
      (x.final m).sink.taken = n.sink.taken ++ v.line ++ u

namespace Truncates

variable {start : Moment} {limit : Nat} {refusal : Refusal} {α β : Type} {m : Machine}

theorem size_le {x : Eval α} (here : Truncates start limit refusal x m) :
    m.sink.taken.size ≤ (x.final m).sink.taken.size := by
  obtain ⟨u, grown⟩ := here.grows
  rw [grown, ByteArray.size_append]
  exact Nat.le_add_right _ _

theorem silent {x : Eval α} (endless : m.sink.room = none) (silent : x.Silent m) :
    Truncates start limit refusal x m := by
  have same := silent.final
  constructor
  · rw [same]
    exact endless
  · rw [same]
    exact ⟨.empty, ByteArray.append_empty.symm⟩
  · intro _
    refine (silent (m.sink.capped limit refusal)).trans (onFinal_congr ?_)
    rw [Machine.capped, same]
  · intro before exceeds
    rw [same] at exceeds
    exact absurd before (Nat.not_le.mpr exceeds)

theorem bind {x : Eval α} {f : α → Eval β} (first : Truncates start limit refusal x m)
    (next : ∀ a n, x m = .ok a n → Truncates start limit refusal (f a) n) :
    Truncates start limit refusal (x >>= f) m := by
  cases ended : x m with
  | error h n =>
    have final := Eval.final_error ended
    have same := Eval.final_bind_error (f := f) ended
    rw [← final] at same
    constructor
    · rw [same]
      exact first.endless
    · rw [same]
      exact first.grows
    · intro fits
      rw [same] at fits
      have capped := first.fits fits
      rw [ended] at capped
      rw [Eval.bind_error ended, Eval.bind_error capped]
      rfl
    · rw [same]
      exact first.crosses
  | ok a n =>
    have second := next a n ended
    have final := Eval.final_ok ended
    have same := Eval.final_bind_ok (f := f) ended
    obtain ⟨u, grown⟩ := first.grows
    obtain ⟨w, grown'⟩ := second.grows
    rw [final] at grown
    constructor
    · rw [same]
      exact second.endless
    · rw [same, grown', grown, ByteArray.append_assoc]
      exact ⟨_, rfl⟩
    · intro fits
      rw [same] at fits
      have fits' := first.fits (by rw [final]; exact Nat.le_trans second.size_le fits)
      rw [ended] at fits'
      rw [Eval.bind_ok ended, Eval.bind_ok fits']
      exact second.fits fits
    · intro before exceeds
      rw [same] at exceeds ⊢
      -- The print that crosses the limit is in the first part or, where that fits, in the second.
      rcases Nat.lt_or_ge limit n.sink.taken.size with early | late
      · have crossed := first.crosses before
        rw [final] at crossed
        obtain ⟨q, keyword, v, o, t, during, prints, le, lt, taken⟩ := crossed early
        refine ⟨q, keyword, v, o, t ++ w, during, prints, le, lt, ?_⟩
        rw [grown', taken, ByteArray.append_assoc]
      · exact second.crosses late exceeds

theorem inside {x : Eval Flow} {p : ScopeId} {bs : List (String × Value)}
    (here : Truncates start limit refusal x (m.enter p bs)) :
    Truncates start limit refusal (Eval.inside p bs x) m := by
  have same : (Eval.final (Eval.inside p bs x) m).sink = (x.final (m.enter p bs)).sink := by
    unfold Eval.final
    rw [Eval.inside_apply]
    cases x (m.enter p bs) <;> rfl
  constructor
  · rw [same]
    exact here.endless
  · rw [same]
    exact here.grows
  · intro fits
    rw [same] at fits
    have capped : x ((m.capped limit refusal).enter p bs) = _ := here.fits fits
    rw [Eval.inside_apply, Eval.inside_apply, capped]
    cases x (m.enter p bs) <;> rfl
  · rw [same]
    exact here.crosses

theorem print {q : Moment} {keyword : Token} {v : Value} (endless : m.sink.room = none)
    (now : start.During q) (prints : q.Prints keyword v m) :
    Truncates start limit refusal (Eval.print keyword v) m := by
  have free : Eval.print keyword v m = .ok () _ := Eval.print_taken (Sink.write_endless endless)
  have final := Eval.final_ok free
  constructor
  · rw [final]
    exact endless
  · rw [final]
    exact ⟨v.line, rfl⟩
  · intro fits
    rw [final] at fits
    rw [free]
    exact Eval.print_taken (m := m.capped limit refusal) (Sink.write_capped fits)
  · intro before exceeds
    rw [final] at exceeds ⊢
    exact ⟨q, keyword, v, m, .empty, now, prints, before, exceeds, ByteArray.append_empty.symm⟩

end Truncates

def truncating (start : Moment) (limit : Nat) (refusal : Refusal) : Account start where
  holds x m := m.sink.room = none → Truncates start limit refusal x m
  pure a endless := .silent endless fun _ => rfl
  bind first next endless := by
    have before := first endless
    refine before.bind fun a n ended => next a n ended ?_
    rw [← Eval.final_ok ended]
    exact before.endless
  exhausted endless := .silent endless fun _ => rfl
  inside here endless := (here endless).inside
  nested here endless := ⟨(here endless).endless, (here endless).grows, (here endless).fits,
    (here endless).crosses⟩
  define name v endless := .silent endless fun _ => rfl
  closure decl endless := .silent endless fun _ => rfl
  clock endless := .silent endless fun _ => rfl
  lookup _ endless := .silent endless .lookup
  assign _ _ endless := .silent endless .assign
  unary _ _ endless := .silent endless .pin
  binary _ _ _ endless := .silent endless .pin
  notCallable _ _ _ _ endless := .silent endless fun _ => rfl
  arity _ _ _ _ endless := .silent endless fun _ => rfl
  print now value endless := .print endless now ⟨_, rfl, value⟩

def Moment.capped (limit : Nat) (refusal : Refusal) (q : Moment) : Moment :=
  { q with machine := q.machine.capped limit refusal }

/-- On the way from `m` to `n` the sink has no limit; where its bytes fit at `n` they fit at `m`,
and `P` holds. -/
structure Machine.Passes (limit : Nat) (m n : Machine) (P : Prop) : Prop where
  endless : n.sink.room = none
  fits : n.sink.taken.size ≤ limit → m.sink.taken.size ≤ limit
  holds : n.sink.taken.size ≤ limit → P

namespace Machine.Passes

variable {limit : Nat} {m n o : Machine} {P Q : Prop}

theorem imp (passes : m.Passes limit n P) (implies : P → Q) : m.Passes limit n Q :=
  ⟨passes.endless, passes.fits, fun fits => implies (passes.holds fits)⟩

theorem trans (first : m.Passes limit n P) (second : n.Passes limit o Q) :
    m.Passes limit o (P ∧ Q) where
  endless := second.endless
  fits fits := first.fits (second.fits fits)
  holds fits := ⟨first.holds (second.fits fits), second.holds fits⟩

end Machine.Passes

section Capped

variable {limit : Nat} {refusal : Refusal} {k : Nat} {m n : Machine}

theorem Truncates.of_ok {start : Moment} {α : Type} {x : Eval α} {a : α}
    (here : Truncates start limit refusal x m) (result : x m = .ok a n) :
    m.Passes limit n (x (m.capped limit refusal) = .ok a (n.capped limit refusal)) := by
  have final := Eval.final_ok result
  have endless := here.endless
  have grown := here.size_le
  have same := here.fits
  rw [final] at endless grown same
  refine ⟨endless, Nat.le_trans grown, fun fits => ?_⟩
  rw [same fits, result]
  rfl

variable (limit refusal)

theorem eval_capped {e : Expr} {v : Value} (endless : m.sink.room = none)
    (result : e.eval (Function.apply k) m = .ok v n) :
    m.Passes limit n
      (e.eval (Function.apply k) (m.capped limit refusal) = .ok v (n.capped limit refusal)) :=
  let run := truncating ⟨k, 0, .code (.expr e), m⟩ limit refusal
  (run.eval (run.calls k) e .start endless).of_ok result

theorem evalAll_capped {es : List Expr} {vs : List Value} (endless : m.sink.room = none)
    (result : Expr.evalAll (Function.apply k) es m = .ok vs n) :
    m.Passes limit n (Expr.evalAll (Function.apply k) es (m.capped limit refusal) =
      .ok vs (n.capped limit refusal)) :=
  let run := truncating ⟨k, 0, .code (.exprs es), m⟩ limit refusal
  (run.evalAll (run.calls k) es .start endless).of_ok result

theorem exec_capped {s : Stmt} {flow : Flow} (endless : m.sink.room = none)
    (result : s.exec (Function.apply k) k m = .ok flow n) :
    m.Passes limit n
      (s.exec (Function.apply k) k (m.capped limit refusal) = .ok flow (n.capped limit refusal)) :=
  let run := truncating ⟨k, 0, .code (.stmt s), m⟩ limit refusal
  (run.exec (run.calls k) s .start endless).of_ok result

namespace Moment

theorem Next.capped {q q' : Moment} (step : q.Next q') (endless : q.machine.sink.room = none) :
    q.machine.Passes limit q'.machine ((q.capped limit refusal).Next (q'.capped limit refusal)) := by
  cases step
  case right result => exact (eval_capped limit refusal endless result).imp .right
  case second result goes => exact (eval_capped limit refusal endless result).imp (.second · goes)
  case args result => exact (eval_capped limit refusal endless result).imp .args
  case call result results arity =>
    have callee := eval_capped limit refusal endless result
    have both := callee.trans (evalAll_capped limit refusal callee.endless results)
    exact both.imp fun results => .call results.1 results.2 arity
  case restExprs result => exact (eval_capped limit refusal endless result).imp .restExprs
  case thenBranch result goes =>
    exact (eval_capped limit refusal endless result).imp (.thenBranch · goes)
  case elseBranch result goes =>
    exact (eval_capped limit refusal endless result).imp (.elseBranch · goes)
  case restStmts result => exact (exec_capped limit refusal endless result).imp .restStmts
  case turn result goes => exact (eval_capped limit refusal endless result).imp (.turn · goes)
  case again result goes turned =>
    have tested := eval_capped limit refusal endless result
    have both := tested.trans (exec_capped limit refusal tested.endless turned)
    exact both.imp fun results => .again results.1 goes results.2
  case restOfProgram result => exact (exec_capped limit refusal endless result).imp .restOfProgram
  -- The other moments start before anything was printed.
  all_goals exact ⟨endless, fun fits => fits, fun _ => by constructor⟩

theorem During.capped {start q : Moment} (during : start.During q)
    (endless : start.machine.sink.room = none) :
    q.machine.sink.room = none ∧ (q.machine.sink.taken.size ≤ limit →
      (start.capped limit refusal).During (q.capped limit refusal)) := by
  induction during with
  | start => exact ⟨endless, fun _ => .start⟩
  | next _ step ih =>
    have passes := step.capped limit refusal ih.1
    exact ⟨passes.endless, fun fits => .next (ih.2 (passes.fits fits)) (passes.holds fits)⟩

variable {limit}

theorem During.overflows {start q : Moment} {keyword : Token} {v : Value} (during : start.During q)
    (endless : start.machine.sink.room = none) (prints : q.Prints keyword v n)
    (before : n.sink.taken.size ≤ limit) (exceeds : limit < (n.sink.taken ++ v.line).size) :
    ∃ e, start.task.run start.fuel (start.machine.capped limit refusal) =
      .error (.fault (.atToken keyword (.output refusal.message)))
        { n with
          sink := ⟨(n.sink.taken ++ v.line).extract 0 limit, some 0, refusal⟩
          current := e } := by
  obtain ⟨fuel, depth, task, m⟩ := q
  obtain ⟨e, rfl, result⟩ := prints
  obtain ⟨now, same⟩ := during.capped limit refusal endless
  have evaluated := eval_capped limit refusal now result
  have refused : Eval.print keyword v (n.capped limit refusal) = .error _ _ :=
    Eval.print_refused (Sink.write_full before exceeds)
  have failed := (Eval.bind_ok (f := fun v => Eval.print keyword v >>= fun _ => pure Flow.next)
    (evaluated.holds before)).trans (Eval.bind_error refused)
  rw [← Stmt.exec] at failed
  exact (same (evaluated.fits before)).fails ((Eval.map_error_iff _).mpr failed)

end Moment

variable {limit}

theorem interpret_overflows {d : Nat} {program : List Stmt} {q : Moment} {keyword : Token}
    {v : Value} (during : Moment.During ⟨k, d, .program program, m⟩ q)
    (endless : m.sink.room = none) (prints : q.Prints keyword v n)
    (before : n.sink.taken.size ≤ limit) (exceeds : limit < (n.sink.taken ++ v.line).size) :
    interpret k program (m.capped limit refusal) =
      .error (.fault (.atToken keyword (.output refusal.message)))
        { n with
          sink := ⟨(n.sink.taken ++ v.line).extract 0 limit, some 0, refusal⟩
          current := m.current } := by
  obtain ⟨e, failed⟩ := during.overflows refusal endless prints before exceeds
  have failed : interpret k program (m.capped limit refusal) = _ :=
    (Eval.map_error_iff _).mp failed
  have kept := (interpret_keeps k (m.capped limit refusal) program).current
  rw [Eval.final_error failed] at kept
  have same : e = m.current := kept
  rw [failed, same]

end Capped

namespace Machine

def endless (m : Machine) : Machine := { m with sink := { m.sink with room := none } }

def limited (room : Nat) (refusal : Refusal) (m : Machine) : Machine :=
  { m with sink := ⟨m.sink.taken, some room, refusal⟩ }

theorem limited_eq (room : Nat) (refusal : Refusal) (m : Machine) :
    m.limited room refusal = m.endless.capped (m.sink.taken.size + room) refusal := by
  simp only [limited, capped, endless, Sink.capped, Nat.add_sub_cancel_left]

end Machine

/-- The moment is a print that writes byte `i` of what the sink takes, from machine `n`. -/
def Moment.PrintsByte (q : Moment) (i : Nat) (keyword : Token) (n : Machine) : Prop :=
  ∃ v, q.Prints keyword v n ∧ n.sink.taken.size ≤ i ∧ i < (n.sink.taken ++ v.line).size

/-- A limit on the sink changes nothing where all that is printed fits. Elsewhere the first print
that does not fit faults; the bytes taken are those that fit, and the machine is the one that
evaluating the printed expression left. -/
theorem full_sink_only_cuts_short (fuel : Nat) (program : List Stmt) (m : Machine) (room : Nat)
    (refusal : Refusal) :
    ∃ printed : ByteArray,
      ((interpret fuel program).final m.endless).sink.taken = m.sink.taken ++ printed ∧
      (printed.size ≤ room →
        interpret fuel program (m.limited room refusal) =
          onFinal (fun n => { n with
            sink := ⟨m.sink.taken ++ printed, some (room - printed.size), refusal⟩ })
            (interpret fuel program m.endless)) ∧
      (room < printed.size →
        (∃ q keyword n, Moment.During ⟨fuel, 0, .program program, m.endless⟩ q ∧
          q.PrintsByte (m.sink.taken.size + room) keyword n) ∧
        ∀ q keyword n, Moment.During ⟨fuel, 0, .program program, m.endless⟩ q →
          q.PrintsByte (m.sink.taken.size + room) keyword n →
          interpret fuel program (m.limited room refusal) =
            .error (.fault (.atToken keyword (.output refusal.message)))
              { n with
                sink := ⟨m.sink.taken ++ printed.extract 0 room, some 0, refusal⟩
                current := m.current }) := by
  let start : Moment := ⟨fuel, 0, .program program, m.endless⟩
  let limit := m.sink.taken.size + room
  have whole : Truncates start limit refusal (interpret fuel program) m.endless :=
    (truncating start limit refusal).interpret program .start rfl
  obtain ⟨printed, grown⟩ : ∃ printed,
    ((interpret fuel program).final m.endless).sink.taken = m.sink.taken ++ printed := whole.grows
  rw [m.limited_eq room refusal]
  refine ⟨printed, grown, fun fits => ?_, fun exceeds => ?_⟩
  · have size : (m.sink.taken ++ printed).size ≤ limit := by
      rw [ByteArray.size_append]
      exact Nat.add_le_add_left fits _
    have left : limit - (m.sink.taken ++ printed).size = room - printed.size := by
      rw [ByteArray.size_append, Nat.add_sub_add_left]
    refine (whole.fits (grown ▸ size)).trans (onFinal_congr ?_)
    rw [Machine.capped, Sink.capped, grown, left]
  · have size : limit < (m.sink.taken ++ printed).size := by
      rw [ByteArray.size_append]
      exact Nat.add_lt_add_left exceeds _
    have crossed := whole.crosses (Nat.le_add_right _ _)
    rw [grown] at crossed
    obtain ⟨q, keyword, v, n, u, during, prints, before, after, taken⟩ := crossed size
    refine ⟨⟨q, keyword, n, during, v, prints, before, after⟩, ?_⟩
    have cut : (n.sink.taken ++ v.line).extract 0 limit = m.sink.taken ++ printed.extract 0 room :=
      calc (n.sink.taken ++ v.line).extract 0 limit
        _ = (n.sink.taken ++ v.line ++ u).extract 0 limit :=
          (extract_append_of_le (Nat.le_of_lt after)).symm
        _ = (m.sink.taken ++ printed).extract 0 limit := by rw [← taken]
        _ = m.sink.taken ++ printed.extract 0 room := extract_append_add
    have failed := interpret_overflows refusal during rfl prints before after
    rw [cut] at failed
    -- There is one run, so every print at the limit leaves the sink that this one leaves.
    rintro q' keyword' n' during' ⟨v', prints', before', after'⟩
    have failed' := interpret_overflows refusal during' rfl prints' before' after'
    have same := failed'.symm.trans failed
    injection same with _ machines
    injection machines with _ _ _ sink _
    rw [failed', sink]
    rfl

end Treewalk
