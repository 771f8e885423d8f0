import Treewalk.Evaluate

namespace Treewalk

theorem Eval.lookup_apply (name : Token) (m : Machine) :
    Eval.lookup name m =
      match m.store.get? m.current name.lexeme with
      | some v => .ok v m
      | none => Eval.fault name (.undefinedVariable name.lexeme) m := by
  change (match m.store.get? m.current name.lexeme with
    | some v => (pure v : Eval Value)
    | none => Eval.fault name (.undefinedVariable name.lexeme)) m = _
  cases m.store.get? m.current name.lexeme <;> rfl

namespace Eval

variable {α β : Type} {x : Eval α} {f : α → Eval β} {m n : Machine} {a : α} {h : Halt}

theorem bind_ok (result : x m = .ok a n) : (x >>= f) m = f a n := by
  change EStateM.bind x f m = f a n
  rw [EStateM.bind, result]

theorem bind_error (failed : x m = .error h n) : (x >>= f) m = .error h n := by
  change EStateM.bind x f m = .error h n
  rw [EStateM.bind, failed]

theorem map_ok (g : α → β) (result : x m = .ok a n) : (g <$> x) m = .ok (g a) n := by
  change EStateM.map g x m = _
  rw [EStateM.map, result]

theorem map_error (g : α → β) (failed : x m = .error h n) : (g <$> x) m = .error h n := by
  change EStateM.map g x m = _
  rw [EStateM.map, failed]

theorem map_eq_ok {g : α → β} {b : β} (result : (g <$> x) m = .ok b n) :
    ∃ a, x m = .ok a n ∧ g a = b := by
  cases ended : x m with
  | ok a o =>
    rw [map_ok g ended] at result
    cases result
    exact ⟨a, rfl, rfl⟩
  | error k o =>
    rw [map_error g ended] at result
    cases result

theorem map_error_iff (g : α → β) : (g <$> x) m = .error h n ↔ x m = .error h n := by
  refine ⟨fun failed => ?_, map_error g⟩
  cases ended : x m with
  | ok a o =>
    rw [map_ok g ended] at failed
    cases failed
  | error k o =>
    rw [map_error g ended] at failed
    cases failed
    rfl

end Eval

def Eval.final {α : Type} (x : Eval α) (m : Machine) : Machine :=
  match x m with
  | .ok _ n => n
  | .error _ n => n

section Final

variable {α β : Type} {x : Eval α} {f : α → Eval β} {m n : Machine} {a : α} {h : Halt}

theorem Eval.final_ok (result : x m = .ok a n) : x.final m = n := by rw [final, result]

theorem Eval.final_error (result : x m = .error h n) : x.final m = n := by rw [final, result]

theorem Eval.final_bind_ok (result : x m = .ok a n) :
    Eval.final (x >>= f) m = (f a).final n := by
  rw [final, bind_ok result, final]

theorem Eval.final_bind_error (result : x m = .error h n) : Eval.final (x >>= f) m = n :=
  final_error (bind_error result)

@[simp] theorem Eval.final_map (x : Eval α) (g : α → β) (m : Machine) :
    Eval.final (g <$> x) m = x.final m := by
  rw [map_eq_pure_bind]
  cases result : x m with
  | ok a n =>
    rw [final_bind_ok result, final_ok result]
    rfl
  | error h n => rw [final_bind_error result, final_error result]

def onFinal (change : Machine → Machine) :
    EStateM.Result Halt Machine α → EStateM.Result Halt Machine α
  | .ok a n => .ok a (change n)
  | .error h n => .error h (change n)

theorem onFinal_id (r : EStateM.Result Halt Machine α) : onFinal id r = r := by cases r <;> rfl

theorem onFinal_congr {change change' : Machine → Machine}
    (same : change (x.final m) = change' (x.final m)) :
    onFinal change (x m) = onFinal change' (x m) := by
  cases ended : x m with
  | ok a n =>
    rw [Eval.final_ok ended] at same
    rw [onFinal, onFinal, same]
  | error h n =>
    rw [Eval.final_error ended] at same
    rw [onFinal, onFinal, same]

end Final

/-- What every action leaves as it was. -/
structure Machine.Keeps (m n : Machine) : Prop where
  current : n.current = m.current
  globals : n.globals = m.globals

namespace Machine

theorem Keeps.refl {m : Machine} : m.Keeps m := ⟨rfl, rfl⟩

theorem Keeps.trans {m n o : Machine} (first : m.Keeps n) (second : n.Keeps o) : m.Keeps o :=
  ⟨second.current.trans first.current, second.globals.trans first.globals⟩

end Machine

def Machine.enter (m : Machine) (parent : ScopeId) (bindings : List (String × Value)) : Machine :=
  { m with store := (m.store.add ⟨bindings, some parent⟩).2, current := m.store.scopes.size }

theorem Eval.inside_apply {α : Type} (parent : ScopeId) (bindings : List (String × Value))
    (act : Eval α) (m : Machine) :
    Eval.inside parent bindings act m =
      match act (m.enter parent bindings) with
      | .ok a n => .ok a { n with current := m.current }
      | .error h n => .error h { n with current := m.current } := rfl

theorem Eval.inside_ok {α : Type} {x : Eval α} {m n : Machine} {p : ScopeId}
    {bs : List (String × Value)} {a : α} (result : x (m.enter p bs) = .ok a n) :
    Eval.inside p bs x m = .ok a { n with current := m.current } := by
  rw [Eval.inside_apply, result]

theorem Eval.inside_error {α : Type} {x : Eval α} {m n : Machine} {p : ScopeId}
    {bs : List (String × Value)} {h : Halt} (failed : x (m.enter p bs) = .error h n) :
    Eval.inside p bs x m = .error h { n with current := m.current } := by
  rw [Eval.inside_apply, failed]

theorem Eval.nested_apply {α : Type} (act : Eval α) (m : Machine) :
    Eval.nested act m = Eval.inside m.current [] act m := rfl

theorem repeatWhile_succ (condition : Eval Bool) (body : Eval Flow) (turns : Nat) :
    repeatWhile condition body (turns + 1) = condition >>= fun go =>
      match go with
      | false => pure .next
      | true => body >>= fun flow =>
        match flow with
        | .next => repeatWhile condition body turns
        | .returned v => pure (.returned v) := by
  funext m
  change repeatWhile condition body (turns + 1) m = EStateM.bind condition _ m
  simp only [repeatWhile, EStateM.bind]
  cases condition m with
  | error h n => rfl
  | ok go n =>
    cases go with
    | false => rfl
    | true =>
      change _ = EStateM.bind body _ n
      simp only [EStateM.bind]
      cases body n with
      | error h n => rfl
      | ok flow n => cases flow <;> rfl

namespace Value

def Plain (v : Value) : Prop := ∀ f, v ≠ .function f

variable {u v v' : Value} {op : Token.Kind}

theorem plain_nil : Plain .nil := by
  intro f same
  cases same

theorem plain_bool (b : Bool) : Plain (.bool b) := by
  intro f same
  cases same

theorem plain_number (x : Float) : Plain (.number x) := by
  intro f same
  cases same

theorem plain_string (s : String) : Plain (.string s) := by
  intro f same
  cases same

theorem plain_constant (c : Constant) : Plain c.value := by
  cases c with
  | nil => exact plain_nil
  | bool b => exact plain_bool b
  | number x => exact plain_number x
  | string s => exact plain_string s

theorem unary_plain (result : v.unary op = .ok u) : u.Plain := by
  unfold unary at result
  split at result <;> cases result
  · exact plain_number _
  · exact plain_bool _

theorem arithmetic_plain {x y : Float} (result : arithmetic op x y = .ok u) : u.Plain := by
  unfold arithmetic at result
  split at result <;> cases result
  case h_1 | h_2 | h_3 => exact plain_number _
  all_goals exact plain_bool _

theorem add_plain (result : v.add v' = .ok u) : u.Plain := by
  unfold add at result
  split at result <;> cases result
  · exact plain_number _
  · exact plain_string _

theorem binary_plain (result : v.binary op v' = .ok u) : u.Plain := by
  unfold binary at result
  split at result
  · exact add_plain result
  · cases result
    exact plain_bool _
  · cases result
    exact plain_bool _
  · split at result
    · exact arithmetic_plain result
    · cases result

end Value

end Treewalk
