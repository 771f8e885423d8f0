import Treewalk.Proofs.LexicalGrammar
import Treewalk.Scan

namespace Treewalk

open Lexeme

def bytes (text : List Char) : Nat := (String.ofList text).utf8ByteSize

inductive Found
  | token (t : Token)
  | error (e : SyntaxError)

namespace Found

def span : Found → Span
  | token t => t.span
  | error e => e.span

def token? : Found → Option Token
  | token t => some t
  | error _ => none

def error? : Found → Option SyntaxError
  | token _ => none
  | error e => some e

end Found

/-- The text that starts at the byte `start`, piece by piece, and what is reported of it in order.
Nothing is reported of blanks and comments. -/
inductive Tiles : Nat → List Char → List Found → Prop
  | done {start : Nat} : Tiles start [] []
  | blank {start : Nat} {c : Char} {rest : List Char} {found : List Found} :
    c ∈ blanks → Tiles (start + bytes [c]) rest found → Tiles start ([c] ++ rest) found
  | comment {start : Nat} {body rest : List Char} {found : List Found} :
    '\n' ∉ body → EndsLine rest → Tiles (start + bytes ('/' :: '/' :: body)) rest found →
    Tiles start ('/' :: '/' :: body ++ rest) found
  | token {start : Nat} {t : Token} {text rest : List Char} {found : List Found} :
    Longest text rest t.kind → ¬ ['/', '/'] <+: text ++ rest →
    t.lexeme = String.ofList text → t.span = ⟨start, start + bytes text⟩ →
    Tiles (start + bytes text) rest found → Tiles start (text ++ rest) (.token t :: found)
  | stray {start : Nat} {c : Char} {e : SyntaxError} {rest : List Char} {found : List Found} :
    StartsNothing c → e.message = "Unexpected character." →
    e.span = ⟨start, start + bytes [c]⟩ → Tiles (start + bytes [c]) rest found →
    Tiles start ([c] ++ rest) (.error e :: found)
  | openString {start : Nat} {e : SyntaxError} {body : List Char} :
    '"' ∉ body → e.message = "Unterminated string." →
    e.span = ⟨start, start + bytes ('"' :: body)⟩ → Tiles start ('"' :: body) [.error e]

theorem bytes_cons (c : Char) (cs : List Char) : bytes (c :: cs) = c.utf8Size + bytes cs := by
  rw [bytes, String.ofList_cons, String.utf8ByteSize_append, String.utf8ByteSize_singleton, bytes]

theorem bytes_pos {text : List Char} (nonempty : text ≠ []) : 0 < bytes text := by
  cases text with
  | nil => exact absurd rfl nonempty
  | cons c cs =>
    have := c.utf8Size_pos
    rw [bytes_cons]
    omega

theorem Cursor.offset_advance (c : Cursor) (text : List Char) :
    (c.advance text).offset = c.offset + bytes text := by
  have sum : text.foldr (fun letter size => letter.utf8Size + size) 0 = bytes text := by
    induction text with
    | nil => rfl
    | cons d text ih => rw [List.foldr_cons, ih, bytes_cons]
  exact congrArg (c.offset + ·) sum

structure Ordered (start : Nat) (found : List Found) : Prop where
  bounds : ∀ a ∈ found, start ≤ a.span.start ∧ a.span.start < a.span.stop
  disjoint : found.Pairwise fun a b => a.span.stop ≤ b.span.start

namespace Ordered

variable {start start' : Nat} {a : Found} {found : List Found}

theorem nil : Ordered start [] := ⟨fun _ member => absurd member List.not_mem_nil, .nil⟩

theorem skip (ordered : Ordered start' found) (later : start ≤ start') : Ordered start found where
  bounds a member := by
    have := ordered.bounds a member
    omega
  disjoint := ordered.disjoint

theorem cons {text : List Char} (nonempty : text ≠ []) (span : a.span = ⟨start, start + bytes text⟩)
    (ordered : Ordered (start + bytes text) found) : Ordered start (a :: found) := by
  have size := bytes_pos nonempty
  constructor
  · intro b member
    rcases List.mem_cons.mp member with rfl | member
    · rw [span]
      dsimp only
      omega
    · have := ordered.bounds b member
      omega
  · refine .cons (fun b member => ?_) ordered.disjoint
    rw [span]
    exact (ordered.bounds b member).1

theorem spans_nodup (ordered : Ordered start found) : (found.map Found.span).Nodup := by
  apply List.pairwise_map.mpr
  refine ordered.disjoint.imp_of_mem fun {a b} memberA memberB apart same => ?_
  have := (ordered.bounds a memberA).2
  have := (ordered.bounds b memberB).2
  rw [same] at apart
  omega

end Ordered

namespace Tiles

variable {start : Nat} {cs : List Char} {found : List Found}

theorem of_nil (tiles : Tiles start cs found) (empty : cs = []) : found = [] := by
  cases tiles with
  | done => rfl
  | blank _ _ => cases empty
  | comment _ _ _ => cases empty
  | token longest _ _ _ _ => exact absurd (List.append_eq_nil_iff.mp empty).1 longest.spells.ne_nil
  | stray _ _ _ _ => cases empty
  | openString _ _ _ => cases empty

theorem ordered (tiles : Tiles start cs found) : Ordered start found := by
  induction tiles with
  | done => exact .nil
  | blank _ _ ih => exact ih.skip (Nat.le_add_right _ _)
  | comment _ _ _ ih => exact ih.skip (Nat.le_add_right _ _)
  | token longest _ _ span _ ih => exact .cons longest.spells.ne_nil span ih
  | stray _ _ span _ ih => exact .cons (List.cons_ne_nil _ _) span ih
  | openString _ _ span => exact .cons (List.cons_ne_nil _ _) span .nil

theorem error_message (tiles : Tiles start cs found) {e : SyntaxError}
    (member : e ∈ found.filterMap Found.error?) :
    e.message = "Unexpected character." ∨ e.message = "Unterminated string." := by
  induction tiles with
  | done => cases member
  | blank _ _ ih => exact ih member
  | comment _ _ _ ih => exact ih member
  | token _ _ _ _ _ ih => exact ih member
  | stray _ message _ _ ih =>
    rcases List.mem_cons.mp member with rfl | member
    · exact .inl message
    · exact ih member
  | openString _ message _ =>
    rw [List.mem_singleton.mp member]
    exact .inr message

end Tiles

section Adding

variable {s : Scan} {x : Lexeme} {rest : List Char} {found : List Found}

theorem Scan.offset_add (s : Scan) (x : Lexeme) :
    (s.add x).cursor.offset = s.cursor.offset + bytes x.text := by
  rw [← Cursor.offset_advance]
  unfold Scan.add
  split <;> rfl

theorem span_eq (s : Scan) (text : List Char) :
    Span.mk s.cursor.offset (s.cursor.advance text).offset =
      ⟨s.cursor.offset, s.cursor.offset + bytes text⟩ := by
  rw [Cursor.offset_advance]

theorem add_tiles (fits : x.Fits rest)
    (tiles : Tiles (s.cursor.offset + bytes x.text) rest found) :
    ∃ found', Tiles s.cursor.offset (x.text ++ rest) found' ∧
      (s.add x).tokens.toList ++ found.filterMap Found.token? =
        s.tokens.toList ++ found'.filterMap Found.token? ∧
      (s.add x).errors.toList ++ found.filterMap Found.error? =
        s.errors.toList ++ found'.filterMap Found.error? := by
  cases fits with
  | blank blank => exact ⟨found, .blank blank tiles, rfl, rfl⟩
  | comment free ends => exact ⟨found, .comment free ends tiles, rfl, rfl⟩
  | @token kind literal text _ longest noComment =>
    let cursor := s.cursor.advance text
    let t : Token :=
      { kind, lexeme := String.ofList text, literal, line := cursor.line
        span := ⟨s.cursor.offset, cursor.offset⟩ }
    refine ⟨.token t :: found, .token longest noComment rfl (span_eq s text) tiles, ?_, rfl⟩
    change (s.tokens.push t).toList ++ _ = s.tokens.toList ++ t :: _
    rw [Array.toList_push, List.append_assoc, List.singleton_append]
  | @stray c _ nothing =>
    let cursor := s.cursor.advance [c]
    let e : SyntaxError :=
      { problem := .unexpectedCharacter, line := cursor.line, location := none
        span := ⟨s.cursor.offset, cursor.offset⟩ }
    refine ⟨.error e :: found, .stray nothing rfl (span_eq s [c]) tiles, rfl, ?_⟩
    change (s.errors.push e).toList ++ _ = s.errors.toList ++ e :: _
    rw [Array.toList_push, List.append_assoc, List.singleton_append]
  | @openString body free =>
    let cursor := s.cursor.advance ('"' :: body)
    let e : SyntaxError :=
      { problem := .unterminatedString, line := cursor.line, location := none
        span := ⟨s.cursor.offset, cursor.offset⟩ }
    have last := tiles.of_nil rfl
    subst last
    refine ⟨[.error e], ?_, rfl, ?_⟩
    · rw [List.append_nil]
      exact .openString free rfl (span_eq s ('"' :: body))
    · change (s.errors.push e).toList ++ [] = s.errors.toList ++ [e]
      rw [Array.toList_push, List.append_nil]

end Adding

/-- Scanning from any state on tiles the text that is left. -/
theorem fold_tiles (cs : List Char) (s : Scan) :
    ∃ found, Tiles s.cursor.offset cs found ∧
      ((cutAll cs).foldl Scan.add s).tokens.toList =
        s.tokens.toList ++ found.filterMap Found.token? ∧
      ((cutAll cs).foldl Scan.add s).errors.toList =
        s.errors.toList ++ found.filterMap Found.error? := by
  induction size : cs.length using Nat.strongRecOn generalizing cs s with
  | ind n ih =>
    cases cs with
    | nil => exact ⟨[], .done, by simp, by simp⟩
    | cons c cs =>
      rw [cutAll_cons, List.foldl_cons]
      obtain ⟨found, tiles, tokens, errors⟩ :=
        ih _ (size ▸ cut_length c cs) _ (s.add (cut c cs).1) rfl
      rw [Scan.offset_add] at tiles
      obtain ⟨found', tiles', tokens', errors'⟩ := add_tiles (cut_fits c cs) tiles
      rw [cut_append] at tiles'
      exact ⟨found', tiles', tokens.trans tokens', errors.trans errors'⟩

theorem scan_found (source : String) :
    ∃ (found : List Found) (eof : Token),
      (scan source).tokens = found.filterMap Found.token? ++ [eof] ∧ eof.kind = .eof ∧
      (scan source).errors = found.filterMap Found.error? ∧ Tiles 0 source.toList found := by
  obtain ⟨found, tiles, tokens, errors⟩ := fold_tiles source.toList {}
  let last := ((cutAll source.toList).foldl Scan.add {}).cursor
  let eof : Token :=
    { kind := .eof, lexeme := "", line := last.line, span := ⟨last.offset, last.offset⟩ }
  have closed : (scan source).tokens =
      ((cutAll source.toList).foldl Scan.add {}).tokens.toList ++ [eof] := Array.toList_push
  refine ⟨found, eof, ?_, rfl, ?_, tiles⟩
  · rw [closed, tokens, List.nil_append]
  · exact errors.trans (List.nil_append _)

/-- The tokens and errors of a source, put together in order, lie apart, and they tile the source
together with its blanks and comments. -/
theorem scan_tiles_source (source : String) :
    ∃ (found : List Found) (eof : Token),
      (scan source).tokens = found.filterMap Found.token? ++ [eof] ∧ eof.kind = .eof ∧
      (scan source).errors = found.filterMap Found.error? ∧
      found.Pairwise (fun a b => a.span.stop ≤ b.span.start) ∧
      Tiles 0 source.toList found := by
  obtain ⟨found, eof, tokens, last, errors, tiles⟩ := scan_found source
  exact ⟨found, eof, tokens, last, errors, tiles.ordered.disjoint, tiles⟩

end Treewalk
