import Treewalk.Proofs.Regimes

namespace Treewalk

/-- What the actions of a machine keep, where no record is needed of the functions made. -/
structure Discipline where
  machine : Machine → Prop
  after : Machine → Machine → Prop
  value : Machine → Value → Prop
  code : Nat → Machine → Code → Prop
  after_refl : ∀ m, after m m
  after_trans : ∀ {m n o}, after m n → after n o → after m o
  value_after : ∀ {m n v}, machine m → after m n → value m v → value n v
  code_after : ∀ {d m n c}, machine m → after m n → code d m c → code d n c
  part : ∀ {d m c c'}, code d m c → c.Part c' → code d m c'
  plain : ∀ {m v}, v.Plain → value m v
  found : ∀ {m x h v}, machine m → m.store.find? m.current x = some (h, v) → value m v
  assigned : ∀ {m x h u v}, machine m → m.store.find? m.current x = some (h, u) → value m v →
    machine { m with store := m.store.define h x v } ∧
    after m { m with store := m.store.define h x v }
  defined : ∀ {d m c x v}, machine m → code d m c → x ∈ c.declared → value m v →
    machine { m with store := m.store.define m.current x v } ∧
    after m { m with store := m.store.define m.current x v }
  closed : ∀ {d m name params ss}, machine m → code d m (.stmt (.funDecl name params ss)) →
    let made := m.store.closure ⟨name, params, ss⟩ m.current
    machine { m with store := made.2 } ∧ after m { m with store := made.2 } ∧
    value { m with store := made.2 } made.1
  block : ∀ {d m ss}, machine m → code d m (.stmt (.block ss)) →
    machine (m.enter m.current []) ∧ code (d + 1) (m.enter m.current []) (.stmts ss)
  body : ∀ {m id decl scope args}, machine m → value m (.function (.closure id decl scope)) →
    (∀ v ∈ args, value m v) → machine (m.enter scope (decl.bind args)) ∧
    code (m.store.depth scope + 1) (m.enter scope (decl.bind args)) (.stmts decl.body)
  left : ∀ {m n p bs}, machine m → machine n → after (m.enter p bs) n →
    machine { n with current := m.current } ∧ after m { n with current := m.current }
  value_left : ∀ {m n v}, value n v → value { n with current := m } v
  printed : ∀ {m} sink, machine m → machine { m with sink } ∧ after m { m with sink }
  asked : ∀ {m} clock, machine m → machine { m with clock } ∧ after m { m with clock }

namespace Discipline

variable {D : Discipline} {α : Type}

def regime (D : Discipline) : Regime Unit where
  machine _ := D.machine
  after _ m _ n := D.after m n
  value _ := D.value
  code _ := D.code
  after_refl _ := D.after_refl
  after_trans := D.after_trans
  value_after := D.value_after
  code_after := D.code_after
  part := D.part
  plain := D.plain
  found := D.found
  assigned := D.assigned
  defined := D.defined
  closed ready code := ⟨(), D.closed ready code⟩
  block := D.block
  body := D.body
  left := D.left
  value_left := D.value_left
  printed := D.printed
  asked := D.asked

def Kept (D : Discipline) (post : Machine → α → Prop) (m : Machine) :
    EStateM.Result Halt Machine α → Prop
  | .ok a n => D.machine n ∧ D.after m n ∧ post n a
  | .error _ n => D.machine n ∧ D.after m n

/-- The action `x` on `m` is made of actions that the discipline knows. -/
def Obeys (D : Discipline) (post : Machine → α → Prop) (x : Eval α) (m : Machine) : Prop :=
  D.Kept post m (x m)

variable {post : Machine → α → Prop} {call : Caller} {x : Eval α} {d : Nat} {m : Machine}

theorem obeys_iff : D.regime.Obeys (fun _ => post) x () m ↔ D.Obeys post x m := by
  unfold Obeys Regime.Obeys
  cases x m with
  | ok a n => exact ⟨fun ⟨_, kept⟩ => kept, fun kept => ⟨(), kept⟩⟩
  | error h n => exact ⟨fun ⟨_, kept⟩ => kept, fun kept => ⟨(), kept⟩⟩

def CallsObey (D : Discipline) (call : Caller) : Prop :=
  ∀ m f args, D.machine m → D.value m (.function f) → (∀ v ∈ args, D.value m v) →
    D.Obeys D.value (call f args) m

theorem CallsObey.regime (calls : D.CallsObey call) : D.regime.CallsObey call :=
  fun _ m f args ready function given => obeys_iff.mpr (calls m f args ready function given)

theorem Obeys.assign {name : Token} {v : Value} (ready : D.machine m) (value : D.value m v) :
    D.Obeys (fun n _ => D.value n v) (Eval.assign name v) m :=
  obeys_iff.mp (Regime.Obeys.assign (R := D.regime) ready value)

theorem Obeys.print {keyword : Token} {v : Value} (ready : D.machine m) :
    D.Obeys (fun _ _ => True) (Eval.print keyword v) m :=
  obeys_iff.mp (Regime.Obeys.print (R := D.regime) ready)

theorem Obeys.invoke {paren : Token} {f : Value} {args : List Value} (calls : D.CallsObey call)
    (ready : D.machine m) (callee : D.value m f) (given : ∀ v ∈ args, D.value m v) :
    D.Obeys D.value (Treewalk.invoke call paren f args) m :=
  obeys_iff.mp (.invoke calls.regime ready callee given)

theorem eval_obeys (calls : D.CallsObey call) (e : Expr) (ready : D.machine m)
    (code : D.code d m (.expr e)) : D.Obeys D.value (e.eval call) m :=
  obeys_iff.mp (Regime.eval_obeys calls.regime e ready code)

theorem evalAll_obeys (calls : D.CallsObey call) (es : List Expr) (ready : D.machine m)
    (code : D.code d m (.exprs es)) :
    D.Obeys (fun n vs => ∀ v ∈ vs, D.value n v) (Expr.evalAll call es) m :=
  obeys_iff.mp (Regime.evalAll_obeys calls.regime es ready code)

theorem exec_obeys (calls : D.CallsObey call) (turns : Nat) (s : Stmt) (ready : D.machine m)
    (code : D.code d m (.stmt s)) :
    D.Obeys (fun n flow => D.value n flow.result) (s.exec call turns) m :=
  obeys_iff.mp (Regime.exec_obeys calls.regime turns s ready code)

theorem execAll_obeys (calls : D.CallsObey call) (turns : Nat) (ss : List Stmt)
    (ready : D.machine m) (code : D.code d m (.stmts ss)) :
    D.Obeys (fun n flow => D.value n flow.result) (Stmt.execAll call turns ss) m :=
  obeys_iff.mp (Regime.execAll_obeys calls.regime turns ss ready code)

theorem apply_obeys (D : Discipline) (fuel : Nat) : D.CallsObey (Function.apply fuel) :=
  fun m f args ready function given =>
    obeys_iff.mp (D.regime.apply_obeys fuel () m f args ready function given)

theorem interpret_obeys (fuel : Nat) (ss : List Stmt) (ready : D.machine m)
    (code : D.code d m (.stmts ss)) : D.Obeys (fun _ _ => True) (interpret fuel ss) m :=
  obeys_iff.mp (Regime.interpret_obeys (R := D.regime) fuel ss ready code)

def task (D : Discipline) (d : Nat) (m : Machine) : Task → Prop
  | .code c => D.code d m c
  | .loop c s _ => D.code d m (.expr c) ∧ D.code d m (.stmt s)
  | .call f args => D.value m (.function f) ∧ ∀ v ∈ args, D.value m v
  | .program ss => D.code d m (.stmts ss)

theorem regime_task {t : Task} : D.regime.task () d m t ↔ D.task d m t := by
  cases t <;> exact Iff.rfl

theorem run_obeys (fuel : Nat) (t : Task) (ready : D.machine m) (task : D.task d m t) :
    D.Obeys (fun n vs => ∀ v ∈ vs, D.value n v) (t.run fuel) m :=
  obeys_iff.mp (Regime.run_obeys (R := D.regime) fuel t ready (regime_task.mpr task))

theorem Obeys.of_ok {n : Machine} {a : α} (obeys : D.Obeys post x m) (result : x m = .ok a n) :
    D.machine n ∧ D.after m n ∧ post n a := by
  obtain ⟨_, kept⟩ := Regime.Obeys.of_ok (obeys_iff.mpr obeys) result
  exact kept

theorem Obeys.final (obeys : D.Obeys post x m) : D.machine (x.final m) ∧ D.after m (x.final m) := by
  obtain ⟨_, ready, after, -⟩ := Regime.Obeys.final (obeys_iff.mpr obeys)
  exact ⟨ready, after⟩

theorem next {q q' : Moment} (ready : D.machine q.machine) (task : D.task q.depth q.machine q.task)
    (step : q.Next q') : D.machine q'.machine ∧ D.task q'.depth q'.machine q'.task := by
  obtain ⟨_, ready', task'⟩ := D.regime.next (w := ()) ready (regime_task.mpr task) step
  exact ⟨ready', regime_task.mp task'⟩

theorem during {start q : Moment} (during : start.During q) (ready : D.machine start.machine)
    (task : D.task start.depth start.machine start.task) :
    D.machine q.machine ∧ D.task q.depth q.machine q.task := by
  induction during with
  | start => exact ⟨ready, task⟩
  | next _ step ih => exact D.next ih.1 ih.2 step

end Discipline

end Treewalk
