import Treewalk.Proofs.Reach

namespace Treewalk

def shift (k k' i : Nat) : Nat := if i < k then i else k' + (i - k)

section Shift

variable {k k' i j : Nat}

theorem shift_of_lt (lt : i < k) : shift k k' i = i := if_pos lt

theorem shift_of_le (le : k ≤ i) : shift k k' i = k' + (i - k) := if_neg (Nat.not_lt.mpr le)

theorem shift_start (k k' : Nat) : shift k k' k = k' := by
  rw [shift_of_le (Nat.le_refl k), Nat.sub_self, Nat.add_zero]

theorem shift_self (k i : Nat) : shift k k i = i := by
  unfold shift
  split <;> omega

theorem shift_succ (le : k ≤ i) : shift k k' (i + 1) = shift k k' i + 1 := by
  rw [shift_of_le le, shift_of_le (Nat.le_succ_of_le le)]
  omega

theorem shift_lt_shift (first : i < k → i < k') (second : j < k → j < k') :
    shift k k' i < shift k k' j ↔ i < j := by
  unfold shift
  split <;> split <;> omega

theorem shift_inj (first : i < k → i < k') (second : j < k → j < k') :
    shift k k' i = shift k k' j ↔ i = j := by
  unfold shift
  split <;> split <;> omega

end Shift

/-- Two stores, the second of which gives out other numbers than the first. -/
structure Renumbering where
  left : Store
  right : Store

namespace Renumbering

def scope (r : Renumbering) : ScopeId → ScopeId := shift r.left.scopes.size r.right.scopes.size

def id (r : Renumbering) : Nat → Nat := shift r.left.functions r.right.functions

def function (r : Renumbering) : Function → Function
  | .native id n => .native (r.id id) n
  | .closure id decl scope => .closure (r.id id) decl (r.scope scope)

def value (r : Renumbering) : Value → Value
  | .function f => .function (r.function f)
  | v => v

def flow (r : Renumbering) : Flow → Flow
  | .next => .next
  | .returned v => .returned (r.value v)

def bindings (r : Renumbering) (bs : List (String × Value)) : List (String × Value) :=
  bs.map fun b => (b.1, r.value b.2)

def contents (r : Renumbering) (c : Scope) : Scope := ⟨r.bindings c.bindings, c.parent.map r.scope⟩

variable {r : Renumbering}

theorem value_plain {v : Value} (plain : v.Plain) : r.value v = v := by
  cases v with
  | function f => exact absurd rfl (plain f)
  | _ => rfl

theorem function_arity (f : Function) : (r.function f).arity = f.arity := by
  cases f <;> rfl

theorem function_id (f : Function) : (r.function f).id = r.id f.id := by
  cases f <;> rfl

theorem value_truthy (v : Value) : (r.value v).truthy = v.truthy := by
  cases v <;> rfl

theorem value_text (v : Value) : (r.value v).text = v.text := by
  cases v with
  | function f => cases f <;> rfl
  | _ => rfl

theorem flow_result (flow : Flow) : (r.flow flow).result = r.value flow.result := by
  cases flow <;> rfl

theorem contents_get? (c : Scope) (x : String) : (r.contents c).get? x = (c.get? x).map r.value :=
  lookup_map r.value c.bindings x

theorem contents_set (c : Scope) (x : String) (v : Value) :
    (r.contents c).set x (r.value v) = r.contents (c.set x v) := by
  unfold Scope.set contents bindings
  rw [setBinding_map]

theorem bind_bindings (decl : FunDecl) (args : List Value) :
    decl.bind (args.map r.value) = r.bindings (decl.bind args) := by
  have along (ps : List Token) (vs : List Value) (bs : List (String × Value)) :
      (ps.zip (vs.map r.value)).foldl
          (fun bindings arg => setBinding arg.1.lexeme arg.2 bindings) (r.bindings bs) =
        r.bindings
          ((ps.zip vs).foldl (fun bindings arg => setBinding arg.1.lexeme arg.2 bindings) bs) := by
    induction ps generalizing vs bs with
    | nil => rfl
    | cons p ps ih =>
      cases vs with
      | nil => rfl
      | cons v vs =>
        simp only [List.map_cons, List.zip_cons_cons, List.foldl_cons]
        rw [← ih, bindings, setBinding_map]
        rfl
  exact along decl.params args []

theorem value_eq_self {v : Value} (ids : ∀ f, v = .function f → r.id f.id = f.id)
    (scopes : ∀ d, v.captured? = some d → r.scope d = d) : r.value v = v := by
  cases v with
  | function f =>
    have same := ids f rfl
    cases f with
    | native i n =>
      simp only [Function.id] at same
      simp only [value, function, same]
    | closure i decl scope =>
      simp only [Function.id] at same
      simp only [value, function, same, scopes scope rfl]
  | _ => rfl

theorem contents_eq_self {c : Scope} (values : ∀ b ∈ c.bindings, r.value b.2 = b.2)
    (parent : ∀ p, c.parent = some p → r.scope p = p) : r.contents c = c := by
  have each : ∀ b ∈ c.bindings, (b.1, r.value b.2) = b := fun b member => by rw [values b member]
  have same : c.parent.map r.scope = c.parent := by
    cases up : c.parent with
    | none => rfl
    | some p => exact congrArg some (parent p up)
  rw [contents, bindings, List.map_congr_left each, List.map_id', same]

theorem scope_of_lt {d : ScopeId} (old : d < r.left.scopes.size) : r.scope d = d := shift_of_lt old

theorem value_of_old {v : Value} (inside : v.InStore r.left) (counted : v.CountedIn r.left) :
    r.value v = v :=
  value_eq_self (fun f same => shift_of_lt (counted f same)) fun _ carries =>
    scope_of_lt (inside.captured carries)

theorem contents_of_old {e : ScopeId} {c : Scope} (formed : r.left.WellFormed)
    (counted : r.left.All (·.CountedIn r.left)) (found : r.left.scopes[e]? = some c) :
    r.contents c = c := by
  refine contents_eq_self (fun b member => ?_) fun p up => ?_
  · exact value_of_old (formed.values e c found b member) (counted e c found b member)
  · exact scope_of_lt (formed.refers found (.inl up))

structure Trivial (r : Renumbering) : Prop where
  scopes : r.right.scopes.size = r.left.scopes.size
  functions : r.right.functions = r.left.functions

namespace Trivial

theorem scope (trivial : r.Trivial) (d : ScopeId) : r.scope d = d := by
  rw [Renumbering.scope, trivial.scopes, shift_self]

theorem id (trivial : r.Trivial) (i : Nat) : r.id i = i := by
  rw [Renumbering.id, trivial.functions, shift_self]

theorem value (trivial : r.Trivial) (v : Value) : r.value v = v :=
  value_eq_self (fun f _ => trivial.id f.id) fun d _ => trivial.scope d

theorem flow (trivial : r.Trivial) (flow : Flow) : r.flow flow = flow := by
  cases flow with
  | next => rfl
  | returned v => rw [Renumbering.flow, trivial.value]

theorem contents (trivial : r.Trivial) (c : Scope) : r.contents c = c :=
  contents_eq_self (fun b _ => trivial.value b.2) fun p _ => trivial.scope p

end Trivial

end Renumbering

structure Overlap extends Renumbering where
  part : ScopeId → Prop
  left_lt : ∀ d, part d → d < left.scopes.size
  right_lt : ∀ d, part d → d < right.scopes.size

namespace Overlap

def Known (o : Overlap) (d : ScopeId) : Prop := d < o.left.scopes.size → o.part d

/-- A value that leads to scopes both stores have, or to new ones, and likewise with its identity. -/
structure Knows (o : Overlap) (v : Value) : Prop where
  captured : ∀ d, v.captured? = some d → o.Known d
  counted : ∀ f, v = .function f → f.id < o.left.functions → f.id < o.right.functions

variable {o : Overlap} {d e : ScopeId} {u v : Value}

theorem scope_lt_scope (first : o.Known d) (second : o.Known e) :
    o.scope d < o.scope e ↔ d < e :=
  shift_lt_shift (fun old => o.right_lt d (first old)) fun old => o.right_lt e (second old)

theorem scope_inj (first : o.Known d) (second : o.Known e) : o.scope d = o.scope e ↔ d = e :=
  shift_inj (fun old => o.right_lt d (first old)) fun old => o.right_lt e (second old)

theorem part_of_scope_lt (known : o.Known d) (old : o.scope d < o.right.scopes.size) :
    o.part (o.scope d) := by
  rcases Nat.lt_or_ge d o.left.scopes.size with before | after
  · have same : o.scope d = d := shift_of_lt before
    rw [same]
    exact known before
  · have new : o.scope d = o.right.scopes.size + (d - o.left.scopes.size) := shift_of_le after
    rw [new] at old
    exact absurd old (Nat.not_lt.mpr (Nat.le_add_right _ _))

theorem known_of_le (new : o.left.scopes.size ≤ d) : o.Known d :=
  fun old => absurd new (Nat.not_le.mpr old)

theorem knows_plain (plain : v.Plain) : o.Knows v := by
  refine ⟨fun d carries => ?_, fun f same => absurd same (plain f)⟩
  rw [plain.captured?] at carries
  cases carries

theorem value_equal (first : o.Knows u) (second : o.Knows v) :
    (o.value u).equal (o.value v) = u.equal v := by
  cases u <;> cases v <;> try rfl
  rename_i f g
  -- Functions are compared by identity.
  have same := shift_inj (first.counted f rfl) (second.counted g rfl)
  simp only [Renumbering.value, Value.equal, Renumbering.function_id]
  rw [Bool.eq_iff_iff, beq_iff_eq, beq_iff_eq]
  exact same

theorem value_unary (o : Overlap) (op : Token.Kind) (v : Value) :
    (o.value v).unary op = v.unary op := by
  cases v with
  | function f => cases op <;> rfl
  | _ => rfl

theorem value_binary (op : Token.Kind) (first : o.Knows u) (second : o.Knows v) :
    (o.value u).binary op (o.value v) = u.binary op v := by
  have sum : (o.value u).add (o.value v) = u.add v := by
    cases u <;> cases v <;> rfl
  unfold Value.binary
  rw [value_equal first second, sum]
  split
  · rfl
  · rfl
  · rfl
  · cases u <;> cases v <;> rfl

structure Stores (o : Overlap) (s s' : Store) : Prop where
  size_le : o.left.scopes.size ≤ s.scopes.size
  size : s'.scopes.size = o.scope s.scopes.size
  functions_le : o.left.functions ≤ s.functions
  functions : s'.functions = o.id s.functions
  scopes : ∀ d, o.Known d → s'.scopes[o.scope d]? = s.scopes[d]?.map o.contents
  parents : ∀ (d : ScopeId) (c : Scope), o.Known d → s.scopes[d]? = some c →
    ∀ p, c.parent = some p → o.Known p
  values : ∀ (d : ScopeId) (c : Scope), o.Known d → s.scopes[d]? = some c →
    ∀ b ∈ c.bindings, o.Knows b.2
  untouched : ∀ d < o.left.scopes.size, ¬ o.part d → s.scopes[d]? = o.left.scopes[d]?
  untouched' : ∀ d < o.right.scopes.size, ¬ o.part d → s'.scopes[d]? = o.right.scopes[d]?

namespace Stores

variable {s s' : Store} {x : String}

theorem find?_known {h : ScopeId} (linked : o.Stores s s') (known : o.Known e)
    (result : s.find? e x = some (h, v)) : o.Known h := by
  induction e using Nat.strongRecOn with
  | ind e ih =>
    cases found : s.scopes[e]? with
    | none =>
      rw [Store.find?, found] at result
      cases result
    | some c =>
      rw [Store.find?_of_getElem found] at result
      cases here : c.get? x with
      | some u =>
        rw [here] at result
        cases result
        exact known
      | none =>
        rw [here] at result
        cases up : c.parent with
        | none =>
          rw [up] at result
          cases result
        | some p =>
          simp only [up] at result
          split at result
          · exact ih p ‹_› (linked.parents e c known found p up) result
          · cases result

theorem find?_knows {h : ScopeId} (linked : o.Stores s s') (known : o.Known e)
    (result : s.find? e x = some (h, v)) : o.Knows v := by
  obtain ⟨c, found, member⟩ := Store.find?_mem result
  exact linked.values h c (linked.find?_known known result) found _ member

theorem find? (linked : o.Stores s s') (known : o.Known e) (x : String) :
    s'.find? (o.scope e) x = (s.find? e x).map fun r => (o.scope r.1, o.value r.2) := by
  induction e using Nat.strongRecOn with
  | ind e ih =>
    have same := linked.scopes e known
    cases found : s.scopes[e]? with
    | none =>
      rw [found] at same
      rw [Store.find?, same, Store.find?, found]
      rfl
    | some c =>
      rw [found] at same
      rw [Store.find?_of_getElem found, Store.find?_of_getElem same, Renumbering.contents_get?]
      cases here : c.get? x with
      | some u => rfl
      | none =>
        cases up : c.parent with
        | none => simp only [Renumbering.contents, up, Option.map_none]
        | some p =>
          have known' := linked.parents e c known found p up
          -- The search goes up only to an older scope: the shift has to keep the order.
          simp only [Renumbering.contents, up, Option.map_some, Option.map_none,
            scope_lt_scope known' known]
          split
          · exact ih p ‹_› known'
          · rfl

theorem define (linked : o.Stores s s') (known : o.Known e) (x : String) (value : o.Knows v) :
    o.Stores (s.define e x v) (s'.define (o.scope e) x (o.value v)) := by
  have size : (s.define e x v).scopes.size = s.scopes.size := Array.size_modify
  have size' : (s'.define (o.scope e) x (o.value v)).scopes.size = s'.scopes.size :=
    Array.size_modify
  constructor
  · rw [size]
    exact linked.size_le
  · rw [size, size']
    exact linked.size
  · exact linked.functions_le
  · exact linked.functions
  · intro d known'
    simp only [Store.getElem?_define, linked.scopes d known', scope_inj known known']
    split
    · cases s.scopes[d]? with
      | none => rfl
      | some c => exact congrArg some (Renumbering.contents_set c x v)
    · rfl
  · intro d c known' found
    rw [Store.getElem?_define] at found
    split at found
    · obtain ⟨c', found', rfl⟩ := Option.map_eq_some_iff.mp found
      exact linked.parents d c' known' found'
    · exact linked.parents d c known' found
  · intro d c known' found b member
    rw [Store.getElem?_define] at found
    split at found
    · obtain ⟨c', found', rfl⟩ := Option.map_eq_some_iff.mp found
      rcases mem_setBinding member with rfl | member
      · exact value
      · exact linked.values d c' known' found' b member
    · exact linked.values d c known' found b member
  · intro d old apart
    have other : e ≠ d := by
      rintro rfl
      exact apart (known old)
    rw [Store.getElem?_define, if_neg other]
    exact linked.untouched d old apart
  · intro d old apart
    have other : o.scope e ≠ d := by
      rintro rfl
      exact apart (part_of_scope_lt known old)
    rw [Store.getElem?_define, if_neg other]
    exact linked.untouched' d old apart

theorem getElem?_of_trivial (linked : o.Stores s s') (trivial : o.toRenumbering.Trivial)
    (known : o.Known d) : s'.scopes[d]? = s.scopes[d]? := by
  have same := linked.scopes d known
  rw [trivial.scope] at same
  rw [same]
  cases s.scopes[d]? with
  | none => rfl
  | some c => exact congrArg some (trivial.contents c)

theorem scope_size_inj (linked : o.Stores s s') (known : o.Known d) :
    o.scope d = s'.scopes.size ↔ d = s.scopes.size := by
  rw [linked.size]
  exact scope_inj known (known_of_le linked.size_le)

theorem add (linked : o.Stores s s') {p : ScopeId} {bs : List (String × Value)}
    (known : o.Known p) (values : ∀ b ∈ bs, o.Knows b.2) :
    o.Stores (s.add ⟨bs, some p⟩).2 (s'.add ⟨o.bindings bs, some (o.scope p)⟩).2 := by
  have size : (s.add ⟨bs, some p⟩).2.scopes.size = s.scopes.size + 1 := Array.size_push ..
  have size' : (s'.add ⟨o.bindings bs, some (o.scope p)⟩).2.scopes.size = s'.scopes.size + 1 :=
    Array.size_push ..
  have new : o.right.scopes.size ≤ s'.scopes.size := by
    rw [linked.size, Renumbering.scope, shift_of_le linked.size_le]
    exact Nat.le_add_right _ _
  constructor
  · rw [size]
    exact Nat.le_succ_of_le linked.size_le
  · rw [size, size', linked.size]
    exact (shift_succ linked.size_le).symm
  · exact linked.functions_le
  · exact linked.functions
  · intro d known'
    simp only [Store.getElem?_add, linked.scopes d known', linked.scope_size_inj known']
    split <;> rfl
  · intro d c known' found q up
    rw [Store.getElem?_add] at found
    split at found
    · cases found
      cases up
      exact known
    · exact linked.parents d c known' found q up
  · intro d c known' found b member
    rw [Store.getElem?_add] at found
    split at found
    · cases found
      exact values b member
    · exact linked.values d c known' found b member
  · intro d old apart
    have other : d ≠ s.scopes.size := Nat.ne_of_lt (Nat.lt_of_lt_of_le old linked.size_le)
    rw [Store.getElem?_add, if_neg other]
    exact linked.untouched d old apart
  · intro d old apart
    have other : d ≠ s'.scopes.size := Nat.ne_of_lt (Nat.lt_of_lt_of_le old new)
    rw [Store.getElem?_add, if_neg other]
    exact linked.untouched' d old apart

theorem closure (linked : o.Stores s s') (decl : FunDecl) :
    o.Stores (s.closure decl e).2 (s'.closure decl (o.scope e)).2 where
  size_le := linked.size_le
  size := linked.size
  functions_le := Nat.le_succ_of_le linked.functions_le
  functions := by
    simp only [Store.closure, linked.functions]
    exact (shift_succ linked.functions_le).symm
  scopes := linked.scopes
  parents := linked.parents
  values := linked.values
  untouched := linked.untouched
  untouched' := linked.untouched'

end Stores

end Overlap

end Treewalk
