import Mathlib.Data.List.Forall2
import Treewalk.Evaluate
import Treewalk.Proofs.Scopes

namespace Treewalk

/-- Which scopes of two stores stand for one another, and the empty scopes of the second store that
stand for none, each with its parent. -/
structure World where
  same : ScopeId → ScopeId → Prop
  padding : ScopeId → ScopeId → Prop

namespace World

/-- `e'` shows what `e` shows: it stands for `e`, or it is empty and lies inside such a scope. -/
inductive Sees (w : World) : ScopeId → ScopeId → Prop
  | here {e e' : ScopeId} : w.same e e' → Sees w e e'
  | past {e p z : ScopeId} : w.padding z p → p < z → Sees w e p → Sees w e z

structure Grows (w w' : World) : Prop where
  same : ∀ {e e'}, w.same e e' → w'.same e e'
  padding : ∀ {z p}, w.padding z p → w'.padding z p

variable {w w' w'' : World}

theorem Grows.refl : w.Grows w := ⟨id, id⟩

theorem Grows.trans (first : w.Grows w') (second : w'.Grows w'') : w.Grows w'' :=
  ⟨second.same ∘ first.same, second.padding ∘ first.padding⟩

theorem Sees.grow {e e' : ScopeId} (grows : w.Grows w') (sees : w.Sees e e') : w'.Sees e e' := by
  induction sees with
  | here same => exact .here (grows.same same)
  | past pads older _ ih => exact .past (grows.padding pads) older ih

def link (w : World) (n n' : ScopeId) : World :=
  { w with same := fun e e' => w.same e e' ∨ e = n ∧ e' = n' }

def pad (w : World) (z p : ScopeId) : World :=
  { w with padding := fun y q => w.padding y q ∨ y = z ∧ q = p }

theorem grows_link (w : World) (n n' : ScopeId) : w.Grows (w.link n n') := ⟨.inl, id⟩

theorem grows_pad (w : World) (z p : ScopeId) : w.Grows (w.pad z p) := ⟨id, .inl⟩

end World

inductive Function.Matches (w : World) : Function → Function → Prop
  | native (id : Nat) (n : Native) : Matches w (.native id n) (.native id n)
  | closure (id : Nat) (decl : FunDecl) {scope scope' : ScopeId} :
    w.same scope scope' → Matches w (.closure id decl scope) (.closure id decl scope')

inductive Value.Matches (w : World) : Value → Value → Prop
  | nil : Matches w .nil .nil
  | bool (b : Bool) : Matches w (.bool b) (.bool b)
  | number (x : Float) : Matches w (.number x) (.number x)
  | string (s : String) : Matches w (.string s) (.string s)
  | function {f f' : Function} : f.Matches w f' → Matches w (.function f) (.function f')

def ValuesMatch (w : World) : List Value → List Value → Prop :=
  List.Forall₂ (Value.Matches w)

def BindingsMatch (w : World) : List (String × Value) → List (String × Value) → Prop :=
  List.Forall₂ fun b b' => b.1 = b'.1 ∧ b.2.Matches w b'.2

inductive ParentsMatch (w : World) (e e' : ScopeId) : Option ScopeId → Option ScopeId → Prop
  | root : ParentsMatch w e e' none none
  | inside {p p' : ScopeId} :
    p < e → p' < e' → w.Sees p p' → ParentsMatch w e e' (some p) (some p')

structure Store.Matches (w : World) (s s' : Store) : Prop where
  scope : ∀ {e e'}, w.same e e' → ∃ c c', s.scopes[e]? = some c ∧ s'.scopes[e']? = some c' ∧
    BindingsMatch w c.bindings c'.bindings ∧ ParentsMatch w e e' c.parent c'.parent
  unique : ∀ {d d' e e'}, w.same d d' → w.same e e' → (d = e ↔ d' = e')
  padding : ∀ {z p}, w.padding z p → s'.scopes[z]? = some ⟨[], some p⟩ ∧ ∀ e, ¬ w.same e z
  total : ∀ {e c}, s.scopes[e]? = some c → ∃ e', w.same e e'
  others : ∀ {z c}, s'.scopes[z]? = some c → (∃ e, w.same e z) ∨ c.bindings = []
  functions : s.functions = s'.functions

variable {w w' : World}

theorem Function.Matches.grow {f f' : Function} (grows : w.Grows w') (matched : f.Matches w f') :
    f.Matches w' f' := by
  cases matched with
  | native id n => exact .native id n
  | closure id decl scope => exact .closure id decl (grows.same scope)

theorem Value.Matches.grow {v v' : Value} (grows : w.Grows w') (matched : v.Matches w v') :
    v.Matches w' v' := by
  cases matched with
  | nil => exact .nil
  | bool b => exact .bool b
  | number x => exact .number x
  | string s => exact .string s
  | function f => exact .function (f.grow grows)

theorem BindingsMatch.grow {bs bs' : List (String × Value)} (grows : w.Grows w')
    (matched : BindingsMatch w bs bs') : BindingsMatch w' bs bs' :=
  List.Forall₂.imp (fun _ _ ⟨name, v⟩ => ⟨name, v.grow grows⟩) matched

theorem ParentsMatch.grow {e e' : ScopeId} {p p' : Option ScopeId} (grows : w.Grows w')
    (matched : ParentsMatch w e e' p p') : ParentsMatch w' e e' p p' := by
  cases matched with
  | root => exact .root
  | inside older older' sees => exact .inside older older' (sees.grow grows)

namespace BindingsMatch

variable {bs bs' : List (String × Value)}

theorem lookup (matched : BindingsMatch w bs bs') (x : String) :
    bs.lookup x = none ∧ bs'.lookup x = none ∨
    ∃ v v', bs.lookup x = some v ∧ bs'.lookup x = some v' ∧ v.Matches w v' := by
  induction matched with
  | nil => exact .inl ⟨rfl, rfl⟩
  | @cons b b' bs bs' first _ ih =>
    obtain ⟨y, v⟩ := b
    obtain ⟨y', v'⟩ := b'
    obtain ⟨same, value⟩ := first
    cases same
    simp only [List.lookup_cons]
    cases x == y with
    | true => exact .inr ⟨v, v', rfl, rfl, value⟩
    | false => exact ih

theorem set {v v' : Value} (matched : BindingsMatch w bs bs') (x : String)
    (value : v.Matches w v') : BindingsMatch w (setBinding x v bs) (setBinding x v' bs') := by
  induction matched with
  | nil => exact .cons ⟨rfl, value⟩ .nil
  | @cons b b' bs bs' first rest ih =>
    obtain ⟨y, u⟩ := b
    obtain ⟨y', u'⟩ := b'
    obtain ⟨same, before⟩ := first
    cases same
    simp only [setBinding]
    split
    · exact .cons ⟨rfl, value⟩ rest
    · exact .cons ⟨rfl, before⟩ ih

end BindingsMatch

namespace Store

namespace Matches

variable {s s' : Store} {d d' e e' : ScopeId}

theorem bound (matched : s.Matches w s') (same : w.same e e') :
    e < s.scopes.size ∧ e' < s'.scopes.size := by
  obtain ⟨c, c', found, found', -⟩ := matched.scope same
  exact ⟨lt_size found, lt_size found'⟩

theorem bound_sees (matched : s.Matches w s') (sees : w.Sees e e') :
    e < s.scopes.size ∧ e' < s'.scopes.size := by
  induction sees with
  | here same => exact matched.bound same
  | past pads _ _ ih => exact ⟨ih.1, lt_size (matched.padding pads).1⟩

theorem find (matched : s.Matches w s') (sees : w.Sees e e') (x : String) :
    s.find? e x = none ∧ s'.find? e' x = none ∨
    ∃ h v h' v', s.find? e x = some (h, v) ∧ s'.find? e' x = some (h', v') ∧
      w.same h h' ∧ v.Matches w v' := by
  -- On the way up from `e'`, which is the longer of the two.
  induction e' using Nat.strongRecOn generalizing e with
  | ind e' ih =>
    cases sees with
    | here same =>
      obtain ⟨⟨bs, p⟩, ⟨bs', p'⟩, found, found', bindings, parents⟩ := matched.scope same
      rw [find?_of_getElem found, find?_of_getElem found']
      simp only [Scope.get?]
      rcases bindings.lookup x with ⟨none, none'⟩ | ⟨v, v', some, some', value⟩
      · rw [none, none']
        cases parents with
        | root => exact .inl ⟨rfl, rfl⟩
        | inside older older' up =>
          simp only [if_pos older, if_pos older']
          exact ih _ older' up
      · rw [some, some']
        exact .inr ⟨e, v, e', v', rfl, rfl, same, value⟩
    | @past p _ pads older up =>
      have found := (matched.padding pads).1
      have through : s'.find? e' x = s'.find? p x := by
        rw [find?_of_getElem found]
        simp only [Scope.get?, List.lookup_nil, if_pos older]
      rw [through]
      exact ih _ older up

theorem get (matched : s.Matches w s') (sees : w.Sees e e') (x : String) :
    s.get? e x = none ∧ s'.get? e' x = none ∨
    ∃ v v', s.get? e x = some v ∧ s'.get? e' x = some v' ∧ v.Matches w v' := by
  unfold get?
  rcases matched.find sees x with ⟨none, none'⟩ | ⟨h, v, h', v', some, some', -, value⟩
  · rw [none, none']
    exact .inl ⟨rfl, rfl⟩
  · rw [some, some']
    exact .inr ⟨v, v', rfl, rfl, value⟩

theorem define {v v' : Value} (matched : s.Matches w s') (same : w.same e e') (x : String)
    (value : v.Matches w v') : (s.define e x v).Matches w (s'.define e' x v') where
  scope := by
    intro d d' also
    obtain ⟨c, c', found, found', bindings, parents⟩ := matched.scope also
    have both := matched.unique same also
    simp only [getElem?_define, found, found']
    by_cases here : e = d
    · refine ⟨c.set x v, c'.set x v', by simp [here], by simp [both.mp here], ?_, parents⟩
      exact bindings.set x value
    · have there : e' ≠ d' := fun same' => here (both.mpr same')
      exact ⟨c, c', by simp [here], by simp [there], bindings, parents⟩
  unique := matched.unique
  padding := by
    intro z p pads
    obtain ⟨found, alone⟩ := matched.padding pads
    refine ⟨?_, alone⟩
    rw [getElem?_define, if_neg, found]
    rintro rfl
    exact alone e same
  total := by
    intro d c found
    rw [getElem?_define] at found
    split at found
    · rename_i here
      exact ⟨e', here ▸ same⟩
    · exact matched.total found
  others := by
    intro z c found
    rw [getElem?_define] at found
    split at found
    · rename_i here
      exact .inl ⟨e, here ▸ same⟩
    · exact matched.others found
  functions := matched.functions

theorem add {bs bs' : List (String × Value)} {p p' : ScopeId} (matched : s.Matches w s')
    (bindings : BindingsMatch w bs bs') (sees : w.Sees p p') :
    (s.add ⟨bs, some p⟩).2.Matches (w.link s.scopes.size s'.scopes.size)
      (s'.add ⟨bs', some p'⟩).2 := by
  have grows := w.grows_link s.scopes.size s'.scopes.size
  have older := matched.bound_sees sees
  have fresh {d d'} (also : w.same d d') : d ≠ s.scopes.size ∧ d' ≠ s'.scopes.size :=
    ⟨Nat.ne_of_lt (matched.bound also).1, Nat.ne_of_lt (matched.bound also).2⟩
  constructor
  case scope =>
    intro d d' also
    simp only [getElem?_add]
    rcases also with also | ⟨rfl, rfl⟩
    · obtain ⟨c, c', found, found', bindings, parents⟩ := matched.scope also
      rw [if_neg (fresh also).1, if_neg (fresh also).2]
      exact ⟨c, c', found, found', bindings.grow grows, parents.grow grows⟩
    · rw [if_pos rfl, if_pos rfl]
      exact ⟨_, _, rfl, rfl, bindings.grow grows, .inside older.1 older.2 (sees.grow grows)⟩
  case unique =>
    intro d d' e e' first second
    rcases first with first | ⟨rfl, rfl⟩ <;> rcases second with second | ⟨rfl, rfl⟩
    · exact matched.unique first second
    · exact iff_of_false (fresh first).1 (fresh first).2
    · exact iff_of_false (fresh second).1.symm (fresh second).2.symm
    · exact iff_of_true rfl rfl
  case padding =>
    intro z q pads
    obtain ⟨found, alone⟩ := matched.padding pads
    have other := Nat.ne_of_lt (lt_size found)
    refine ⟨by rw [getElem?_add, if_neg other, found], ?_⟩
    rintro d (also | ⟨rfl, rfl⟩)
    · exact alone d also
    · exact other rfl
  case total =>
    intro d c found
    rw [getElem?_add] at found
    split at found
    · rename_i here
      exact ⟨s'.scopes.size, .inr ⟨here, rfl⟩⟩
    · obtain ⟨d', also⟩ := matched.total found
      exact ⟨d', .inl also⟩
  case others =>
    intro z c found
    rw [getElem?_add] at found
    split at found
    · rename_i here
      exact .inl ⟨s.scopes.size, .inr ⟨rfl, here⟩⟩
    · exact (matched.others found).imp (fun ⟨d, also⟩ => ⟨d, .inl also⟩) id
  case functions => exact matched.functions

theorem pad {p : ScopeId} (matched : s.Matches w s') :
    s.Matches (w.pad s'.scopes.size p) (s'.add ⟨[], some p⟩).2 := by
  have grows := w.grows_pad s'.scopes.size p
  constructor
  case scope =>
    intro d d' also
    obtain ⟨c, c', found, found', bindings, parents⟩ := matched.scope also
    rw [getElem?_add, if_neg (Nat.ne_of_lt (lt_size found'))]
    exact ⟨c, c', found, found', bindings.grow grows, parents.grow grows⟩
  case unique => exact matched.unique
  case padding =>
    rintro z q (pads | ⟨rfl, rfl⟩)
    · obtain ⟨found, alone⟩ := matched.padding pads
      exact ⟨by rw [getElem?_add, if_neg (Nat.ne_of_lt (lt_size found)), found], alone⟩
    · refine ⟨by rw [getElem?_add, if_pos rfl], ?_⟩
      intro d also
      exact Nat.lt_irrefl _ (matched.bound also).2
  case total => exact matched.total
  case others =>
    intro z c found
    rw [getElem?_add] at found
    split at found
    · cases found
      exact .inr rfl
    · exact matched.others found
  case functions => exact matched.functions

theorem closure (matched : s.Matches w s') (decl : FunDecl) (scope scope' : ScopeId) :
    (s.closure decl scope).2.Matches w (s'.closure decl scope').2 where
  scope := matched.scope
  unique := matched.unique
  padding := matched.padding
  total := matched.total
  others := matched.others
  functions := congrArg (· + 1) matched.functions

end Matches

end Store

end Treewalk
