import Treewalk.Proofs.DescentTotal
import Treewalk.Proofs.FirstFault
import Treewalk.Proofs.Relaid

namespace Treewalk

/-- The token, put at a place that tells its index. -/
def Token.numbered (t : Token) (index : Nat) : Token :=
  { t with line := index, span := ⟨index, index⟩ }

def numbered (tokens : List Token) : List Token := tokens.mapIdx fun index t => t.numbered index

structure Anchor where
  index : Nat
  problem : Problem

def SyntaxError.anchor (e : SyntaxError) : Anchor :=
  { index := e.span.start, problem := e.problem }

/-- The errors of the tokens. Reading looks at no place, so that equal tokens can be told apart by
places of their own. -/
def anchors (tokens : List Token) : List Anchor :=
  (parse (numbered tokens)).errors.map SyntaxError.anchor

def Anchor.error? (tokens : List Token) (a : Anchor) : Option SyntaxError :=
  tokens[a.index]?.map fun t => .atToken t a.problem

section Numbered

variable {tokens : List Token}

def placeOf (tokens : List Token) (p : Place) : Place :=
  (tokens[p.span.start]?.map Token.place).getD p

theorem getElem?_numbered (index : Nat) :
    (numbered tokens)[index]? = tokens[index]?.map (·.numbered index) :=
  List.getElem?_mapIdx

theorem Token.relaid_numbered {t : Token} {index : Nat} (here : tokens[index]? = some t) :
    (t.numbered index).relaid (placeOf tokens) = t := by
  have place : placeOf tokens (t.numbered index).place = t.place := by
    change (tokens[index]?.map Token.place).getD _ = _
    rw [here]
    rfl
  rw [Token.relaid, place]
  rfl

theorem relaid_numbered (tokens : List Token) :
    (numbered tokens).map (Token.relaid (placeOf tokens)) = tokens := by
  apply List.ext_getElem?
  intro index
  rw [List.getElem?_map, getElem?_numbered]
  cases here : tokens[index]? with
  | none => rfl
  | some t => exact congrArg some (Token.relaid_numbered here)

theorem numbered_ends (ends : ∃ t ∈ tokens, t.kind = .eof) :
    ∃ t ∈ numbered tokens, t.kind = .eof := by
  obtain ⟨t, member, kind⟩ := ends
  obtain ⟨index, here⟩ := List.mem_iff_getElem?.mp member
  refine ⟨t.numbered index, List.mem_of_getElem? (i := index) ?_, kind⟩
  rw [getElem?_numbered, here]
  rfl

theorem parse_numbered (ends : ∃ t ∈ tokens, t.kind = .eof) :
    parse tokens = (parse (numbered tokens)).relaid (placeOf tokens) := by
  rw [← parse_relaid (numbered_ends ends), relaid_numbered]

theorem error_numbered (ends : ∃ t ∈ tokens, t.kind = .eof) {e : SyntaxError}
    (member : e ∈ (parse (numbered tokens)).errors) :
    some (e.relaid (placeOf tokens)) = e.anchor.error? tokens := by
  obtain ⟨t, problem, here, rfl⟩ := Parse.parse_anchored _ e member
  obtain ⟨rest, split⟩ := Descent.split_at_ending (numbered_ends ends)
  have found : t ∈ numbered tokens := by
    rw [split, List.mem_append, List.mem_cons]
    exact here.imp_right .inl
  obtain ⟨index, numberedHere⟩ := List.mem_iff_getElem?.mp found
  rw [getElem?_numbered] at numberedHere
  obtain ⟨u, there, rfl⟩ := Option.map_eq_some_iff.mp numberedHere
  have anchor : (SyntaxError.atToken (u.numbered index) problem).anchor = ⟨index, problem⟩ := rfl
  rw [SyntaxError.relaid_atToken, Token.relaid_numbered there, anchor, Anchor.error?, there]
  rfl

theorem errors_eq_anchors (ends : ∃ t ∈ tokens, t.kind = .eof) :
    (parse tokens).errors.map some = (anchors tokens).map (Anchor.error? tokens) := by
  rw [parse_numbered ends, anchors, List.map_map]
  change ((parse (numbered tokens)).errors.map (SyntaxError.relaid _)).map some = _
  rw [List.map_map]
  exact List.map_congr_left fun e => error_numbered ends

end Numbered

namespace Parse

variable {stop k : Nat} {t : Token} {es added : List SyntaxError}

theorem Adds.fault_last (adds : Adds t added) :
    added.Pairwise fun e _ => e.problem.isFault = false := by
  have remark {e : SyntaxError} (waived : Grammar.Rules.relaxed.waives e.problem = true) :
      e.problem.isFault = false := by
    rw [Bool.eq_false_iff]
    intro fault
    rw [Problem.not_waived_of_isFault fault] at waived
    cases waived
  rcases adds.soft_or_fault with soft | ⟨soft, problem, rfl, -, waived⟩
  · exact List.pairwise_of_forall_mem_list fun e member _ _ => remark (soft e member)
  · rw [List.pairwise_append]
    refine ⟨?_, List.pairwise_singleton _ _, fun e member _ _ => remark (waived e member)⟩
    exact List.pairwise_of_forall_mem_list fun e member _ _ => remark (waived e member)

theorem Adds.span_eq (adds : Adds t added) {e : SyntaxError} (member : e ∈ added)
    (other : e.problem ≠ .assignmentTarget) : e.span = t.span := by
  obtain ⟨refused, remarks, fault, rfl, targets, -⟩ := adds
  rcases List.mem_append.mp member with member | member
  · exact absurd (targets e member) other
  · obtain ⟨problem, -, rfl⟩ := List.mem_map.mp member
    rfl

/-- `b` may be reported after `a`, refused assignments apart. At one token a fault is the last
error, unless the token is the end of the input, with index `stop`. -/
def Precedes (stop : Nat) (a b : Anchor) : Prop :=
  a.problem ≠ .assignmentTarget → b.problem ≠ .assignmentTarget →
    a.index ≤ b.index ∧ (a.problem.isFault = true → a.index = b.index → a.index = stop)

def InOrder (stop : Nat) (es : List SyntaxError) : Prop :=
  es.Pairwise fun e f => Precedes stop e.anchor f.anchor

structure ReadTo (stop k : Nat) (es : List SyntaxError) : Prop where
  below : ∀ e ∈ es, e.problem ≠ .assignmentTarget → e.span.start < k
  ordered : InOrder stop es

namespace ReadTo

theorem nil : ReadTo stop k [] := ⟨by simp, .nil⟩

theorem adds (before : ReadTo stop k es) (adds : Adds t added) (here : t.span.start = k) :
    ReadTo stop (k + 1) (es ++ added) := by
  have place {e : SyntaxError} (member : e ∈ added) (other : e.problem ≠ .assignmentTarget) :
      e.span.start = k := by
    rw [adds.span_eq member other, here]
  constructor
  · intro e member other
    rcases List.mem_append.mp member with member | member
    · exact Nat.lt_succ_of_lt (before.below e member other)
    · exact Nat.lt_succ_of_le (Nat.le_of_eq (place member other))
  · refine List.pairwise_append.mpr ⟨before.ordered, ?_, ?_⟩
    · -- two errors at this token, of which only the later can be a fault
      refine adds.fault_last.imp_of_mem ?_
      intro e f first second remark e_other f_other
      have same : e.span.start = f.span.start := by rw [place first e_other, place second f_other]
      refine ⟨Nat.le_of_eq same, ?_⟩
      intro (fault : e.problem.isFault = true)
      rw [remark] at fault
      cases fault
    · intro e first f second e_other f_other
      have earlier := before.below e first e_other
      rw [← place second f_other] at earlier
      exact ⟨Nat.le_of_lt earlier, fun _ same => absurd same (Nat.ne_of_lt earlier)⟩

theorem run {s : State} {w : List Token} (before : ReadTo stop k s.errors.toList)
    (indexed : ∀ i t, w[i]? = some t → t.span.start = k + i) :
    ReadTo stop (k + w.length) (w.foldl State.feed s).errors.toList := by
  induction w generalizing s k with
  | nil => exact before
  | cons t w ih =>
    obtain ⟨added, grown, adds⟩ := s.feed_adds t
    have step := before.adds adds (indexed 0 t rfl)
    rw [← grown] at step
    have rest : ∀ i u, w[i]? = some u → u.span.start = k + 1 + i := by
      intro i u here
      rw [indexed (i + 1) u here]
      omega
    have all := ih step rest
    rwa [Nat.add_assoc, Nat.add_comm 1] at all

theorem finish {s : State} (before : ReadTo stop stop s.errors.toList) (here : t.span.start = stop) :
    InOrder stop (s.finish t).errors.toList := by
  obtain ⟨s', added, grown, adds, finished⟩ := s.finish_adds t
  have ended := before.adds adds here
  rw [← grown] at ended
  rw [finished]
  -- one error more for every list left open, all of them at the end
  refine List.pairwise_append.mpr ⟨ended.ordered, ?_, ?_⟩
  · exact List.pairwise_replicate.mpr (.inr fun _ _ => ⟨Nat.le_refl _, fun _ _ => here⟩)
  · intro e first f second other _
    have last : f.span.start = stop := by
      rw [List.eq_of_mem_replicate second]
      exact here
    have earlier := ended.below e first other
    refine ⟨?_, fun _ same => same.trans last⟩
    change e.span.start ≤ f.span.start
    omega

end ReadTo

theorem numbered_inOrder {tokens : List Token} (ends : ∃ t ∈ tokens, t.kind = .eof) :
    InOrder (body (numbered tokens)).length (parse (numbered tokens)).errors := by
  obtain ⟨rest, split⟩ := Descent.split_at_ending (numbered_ends ends)
  have start {i : Nat} {t : Token} (here : (numbered tokens)[i]? = some t) : t.span.start = i := by
    rw [getElem?_numbered] at here
    obtain ⟨u, -, rfl⟩ := Option.map_eq_some_iff.mp here
    rfl
  have indexed : ∀ i t, (body (numbered tokens))[i]? = some t → t.span.start = 0 + i := by
    intro i t here
    have inside := (List.getElem?_eq_some_iff.mp here).1
    rw [Nat.zero_add]
    apply start
    rw [split, List.getElem?_append_left inside, here]
  have last : (ending (numbered tokens)).span.start = (body (numbered tokens)).length := by
    apply start
    nth_rewrite 1 [split]
    simp
  have read : ReadTo (body (numbered tokens)).length _
      ((body (numbered tokens)).foldl State.feed {}).errors.toList := .run .nil indexed
  rw [Nat.zero_add] at read
  exact read.finish last

end Parse

namespace Descent

theorem Input.body_tokens (i : Input) : Parse.body i.tokens = i.body := by
  have plain : ∀ t ∈ i.body, (!t.is .eof) = true := by
    intro t member
    simpa [Token.is] using i.plain t member
  have stops : (i.ending :: i.rest).takeWhile (!·.is .eof) = [] := by simp [i.ends]
  rw [Parse.body, Input.tokens, List.takeWhile_append_of_pos plain, stops, List.append_nil]

theorem Input.ending_tokens (i : Input) : Parse.ending i.tokens = i.ending := by
  have none : i.body.find? (·.is .eof) = none := by
    rw [List.find?_eq_none]
    intro t member
    simpa [Token.is] using i.plain t member
  have here : (i.ending :: i.rest).find? (·.is .eof) = some i.ending := by simp [i.ends]
  have found : i.tokens.find? (·.is .eof) = some i.ending := by
    rw [Input.tokens, List.find?_append, none, Option.none_or, here]
  simp only [Parse.ending, found]

theorem parse_padded (tokens : List Token) :
    Treewalk.parse (padded tokens) = Treewalk.parse tokens := by
  obtain ⟨i, same, body, ending⟩ := exists_input tokens
  rw [← same, Treewalk.parse, Treewalk.parse, i.body_tokens, i.ending_tokens, body, ending]

theorem padded_ends (tokens : List Token) : ∃ t ∈ padded tokens, t.kind = .eof := by
  obtain ⟨i, same, -, -⟩ := exists_input tokens
  exact ⟨i.ending, by simp [← same, Input.tokens], i.ends⟩

theorem length_body_numbered (tokens : List Token) :
    (Parse.body (numbered (padded tokens))).length = firstEnd (padded tokens) := by
  obtain ⟨i, same, -, -⟩ := exists_input tokens
  have body := Parse.body_relaid (g := placeOf (padded tokens)) (numbered (padded tokens))
  rw [relaid_numbered, ← same, i.body_tokens] at body
  rw [← same, i.firstEnd_tokens, Input.stop, body, List.length_map]

end Descent

/-- The errors of the grammar come in the order of their tokens, refused assignments apart, which
are reported when their value is complete. What recovery makes of one fault is never a second one at
the same token, unless that is the first end of the input. -/
theorem errors_come_in_token_order (tokens : List Token) :
    let padded := Descent.padded tokens
    let found := anchors padded
    (parse tokens).errors.map some = found.map (Anchor.error? padded) ∧
    ((found.filter (·.problem.message ≠ "Invalid assignment target.")).map Anchor.index).Pairwise
      (· ≤ ·) ∧
    (found.filter fun a => "Expect".toList <+: a.problem.message.toList).Pairwise fun a b =>
      a.index = b.index → a.index = Descent.firstEnd padded := by
  intro padded found
  have ends := Descent.padded_ends tokens
  have ordered : found.Pairwise (Parse.Precedes (Descent.firstEnd padded)) := by
    rw [← Descent.length_body_numbered]
    exact List.pairwise_map.mpr (Parse.numbered_inOrder ends)
  refine ⟨?_, ?_, ?_⟩
  · rw [← Descent.parse_padded, errors_eq_anchors ends]
  · rw [List.pairwise_map, List.pairwise_filter]
    refine ordered.imp ?_
    intro a b precedes first second
    have other {c : Anchor}
        (kept : decide (c.problem.message ≠ "Invalid assignment target.") = true) :
        c.problem ≠ .assignmentTarget :=
      fun target => of_decide_eq_true kept (congrArg Problem.message target)
    exact (precedes (other first) (other second)).1
  · rw [List.pairwise_filter]
    refine ordered.imp ?_
    intro a b precedes first second same
    have fault {c : Anchor} (kept : decide ("Expect".toList <+: c.problem.message.toList) = true) :
        c.problem.isFault = true := (Problem.isFault_iff _).mpr (of_decide_eq_true kept)
    have other {c : Anchor} (fault : c.problem.isFault = true) : c.problem ≠ .assignmentTarget :=
      fun target => absurd (target ▸ fault) (by decide)
    exact (precedes (other (fault first)) (other (fault second))).2 (fault first) same

example : (anchors (scan "\x7b print ; print ;").tokens).map Anchor.index = [2, 4, 5] := by
  decide +kernel

end Treewalk
