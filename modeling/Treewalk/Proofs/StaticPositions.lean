import Treewalk.Proofs.ErrorTokens
import Treewalk.Proofs.Placement

namespace Treewalk

open Lexeme

theorem Ordered.increasing {start : Nat} {found : List Found} (ordered : Ordered start found) :
    found.Pairwise fun a b =>
      a.span.start < b.span.start ∧ a.span.stop ≤ b.span.start := by
  refine ordered.disjoint.imp_of_mem fun {a b} member _ apart => ?_
  have := (ordered.bounds a member).2
  omega

theorem scan_increasing (source : String) :
    ((scan source).tokens.Pairwise fun t u => t.span.start ≤ u.span.start) ∧
    (scan source).errors.Pairwise fun e f =>
      e.span.start < f.span.start ∧ e.span.stop ≤ f.span.start := by
  obtain ⟨found, eof, tokens, -, errors, tiles⟩ := scan_found source
  have increasing := tiles.ordered.increasing
  have last : eof = endOf source := by
    have ends := tokens.symm.trans (congrArg Scanned.tokens (scan_eq source))
    exact List.singleton_inj.mp (List.append_inj' ends rfl).2
  constructor
  · rw [tokens, last, List.pairwise_append]
    refine ⟨?_, List.pairwise_singleton _ _, ?_⟩
    · refine increasing.filterMap _ ?_
      rintro (t | e) (u | f) before _ ⟨⟩ _ ⟨⟩
      exact Nat.le_of_lt before.1
    · intro t member u end'
      rw [List.mem_singleton.mp end']
      have found : t ∈ (scan source).tokens := by simp [tokens, member]
      have stands := scan_stands found
      exact Nat.le_trans stands.inside.ordered stands.inside.bounded
  · rw [errors]
    refine increasing.filterMap _ ?_
    rintro (t | e) (u | f) before _ ⟨⟩ _ ⟨⟩
    exact before

theorem scan_front (source : String) :
    ∃ front, (scan source).tokens = front ++ [endOf source] ∧ ∀ t ∈ front, t.kind ≠ .eof := by
  rw [scan_eq]
  refine ⟨_, rfl, ?_⟩
  intro t member
  obtain ⟨⟨before, x⟩, piece, token⟩ := List.mem_filterMap.mp member
  exact (tokenOf?_stands piece token).2

theorem scan_body (source : String) :
    (scan source).tokens = Parse.body (scan source).tokens ++ [endOf source] ∧
    Parse.ending (scan source).tokens = endOf source := by
  obtain ⟨front, tokens, clear⟩ := scan_front source
  have all : ∀ t ∈ front, (!t.is .eof) = true := by
    intro t member
    simpa [Token.is] using clear t member
  have none : front.find? (·.is .eof) = none := by
    rw [List.find?_eq_none]
    intro t member
    simpa [Token.is] using clear t member
  have stops : (endOf source).is .eof = true := rfl
  constructor
  · rw [tokens, Parse.body, List.takeWhile_append_of_pos all]
    simp [stops]
  · simp [Parse.ending, tokens, List.find?_append, none, stops]

theorem parse_error_token {source : String} {e : SyntaxError}
    (member : e ∈ (parse (scan source).tokens).errors) :
    ∃ t ∈ (scan source).tokens, ∃ problem, e = .atToken t problem := by
  obtain ⟨same, ending⟩ := scan_body source
  obtain ⟨t, problem, here, rfl⟩ := Parse.parse_anchored _ e member
  refine ⟨t, ?_, problem, rfl⟩
  rw [same, List.mem_append, List.mem_singleton, ← ending]
  exact here

theorem scan_error_stands {source : String} {e : SyntaxError} (member : e ∈ (scan source).errors) :
    e.span.Inside source ∧ lineAt source e.span.stop = some e.line ∧ e.location = none := by
  rw [scan_eq] at member
  obtain ⟨⟨before, x⟩, piece, error⟩ := List.mem_filterMap.mp member
  exact errorOf?_stands piece error

theorem parseSource_error_stands {source : String} {e : SyntaxError}
    (member : e ∈ (parseSource source).errors) :
    e.span.Inside source ∧ lineAt source e.span.stop = some e.line := by
  rcases List.mem_append.mp member with lexical | grammatical
  · obtain ⟨inside, line, -⟩ := scan_error_stands lexical
    exact ⟨inside, line⟩
  · obtain ⟨t, token, problem, rfl⟩ := parse_error_token grammatical
    have stands := scan_stands token
    exact ⟨stands.inside, stands.line⟩

theorem scan_token_nonempty {source : String} {t : Token} (member : t ∈ (scan source).tokens)
    (other : t.kind ≠ .eof) : t.span.start < t.span.stop := by
  obtain ⟨found, eof, tokens, last, -, tiles⟩ := scan_found source
  rw [tokens, List.mem_append, List.mem_singleton] at member
  rcases member with member | rfl
  · obtain ⟨a, reported, token⟩ := List.mem_filterMap.mp member
    have bounds := (tiles.ordered.bounds a reported).2
    cases a with
    | token u =>
      cases token
      exact bounds
    | error e => cases token
  · exact absurd last other

theorem scan_eof {source : String} {t : Token} (member : t ∈ (scan source).tokens)
    (ends : t.kind = .eof) : t = endOf source := by
  obtain ⟨front, tokens, clear⟩ := scan_front source
  rw [tokens, List.mem_append, List.mem_singleton] at member
  rcases member with member | same
  · exact absurd ends (clear t member)
  · exact same

theorem parse_error_location {source : String} {e : SyntaxError}
    (member : e ∈ (parse (scan source).tokens).errors) :
    (e.span = (endOf source).span → e.location.map Location.text = some "end") ∧
    (e.span ≠ (endOf source).span → ∃ t ∈ (scan source).tokens, e.span = t.span ∧
      ∃ text, t.span.text? source = some text ∧
        e.location.map Location.text = some ("'" ++ text ++ "'")) := by
  obtain ⟨t, token, problem, rfl⟩ := parse_error_token member
  by_cases ends : t.kind = .eof
  · have same := scan_eof token ends
    subst same
    exact ⟨fun _ => rfl, fun other => absurd rfl other⟩
  · have nonempty := scan_token_nonempty token ends
    have location : Location.ofToken t = .lexeme t.lexeme := by
      simp [Location.ofToken, Token.is, ends]
    constructor
    · intro same
      change t.span = ⟨source.utf8ByteSize, source.utf8ByteSize⟩ at same
      rw [same] at nonempty
      exact absurd nonempty (Nat.lt_irrefl _)
    · intro _
      refine ⟨t, token, rfl, t.lexeme, (scan_stands token).text, ?_⟩
      simp only [SyntaxError.atToken, location, Option.map_some, Location.text]

/-- Wherever scanning stands between two pieces, the rest of the source can be cut off. -/
theorem scan_cursor_inside {source : String} {done left : List Lexeme}
    (pieces : cutAll source.toList = done ++ left) :
    Span.Inside source ⟨(done.foldl Scan.add {}).cursor.offset, source.utf8ByteSize⟩ := by
  have start : ({} : Scan).cursor = .after [] := rfl
  have whole : source.toList =
      (done.map Lexeme.text).flatten ++ (left.map Lexeme.text).flatten ++ [] := by
    rw [← cutAll_flatten source.toList, pieces]
    simp
  have size : source.utf8ByteSize =
      bytes ((done.map Lexeme.text).flatten ++ (left.map Lexeme.text).flatten) := by
    rw [utf8ByteSize_eq whole, bytes_append]
    rfl
  rw [fold_after done start, size]
  exact inside_of_cut whole

/-- The places of a source are right: those of its tokens, of its errors, and those where it is
cut. -/
theorem static_positions (source : String) :
    (∀ t ∈ (scan source).tokens, t.Stands source) ∧
    (∀ e ∈ (parseSource source).errors,
      e.span.Inside source ∧ lineAt source e.span.stop = some e.line) ∧
    ((scan source).tokens.Pairwise fun t u => t.span.start ≤ u.span.start) ∧
    (∃ front eof, (scan source).tokens = front ++ [eof] ∧ (∀ t ∈ front, t.kind ≠ .eof) ∧
      eof.kind = .eof ∧ eof.lexeme = "" ∧
      eof.span = ⟨source.utf8ByteSize, source.utf8ByteSize⟩) ∧
    (∃ lexical grammatical, (parseSource source).errors = lexical ++ grammatical ∧
      lexical = (scan source).errors ∧ grammatical = (parse (scan source).tokens).errors ∧
      (lexical.Pairwise fun e f =>
        e.span.start < f.span.start ∧ e.span.stop ≤ f.span.start) ∧
      (∀ e ∈ lexical, e.location = none) ∧
      ∀ e ∈ grammatical,
        (e.span = ⟨source.utf8ByteSize, source.utf8ByteSize⟩ →
          e.location.map Location.text = some "end") ∧
        (e.span ≠ ⟨source.utf8ByteSize, source.utf8ByteSize⟩ →
          ∃ t ∈ (scan source).tokens, e.span = t.span ∧
            ∃ text, t.span.text? source = some text ∧
              e.location.map Location.text = some ("'" ++ text ++ "'"))) ∧
    ∀ done left, cutAll source.toList = done ++ left →
      Span.Inside source ⟨(done.foldl Scan.add {}).cursor.offset, source.utf8ByteSize⟩ := by
  obtain ⟨tokensOrdered, errorsOrdered⟩ := scan_increasing source
  obtain ⟨front, tokens, clear⟩ := scan_front source
  refine ⟨fun t => scan_stands, fun e => parseSource_error_stands, tokensOrdered,
    ⟨front, endOf source, tokens, clear, rfl, rfl, rfl⟩, ?_, fun done left => scan_cursor_inside⟩
  refine ⟨_, _, rfl, rfl, rfl, errorsOrdered, ?_, fun e => parse_error_location⟩
  intro e member
  exact (scan_error_stands member).2.2

end Treewalk
