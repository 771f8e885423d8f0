import Treewalk.Proofs.Relaid
import Treewalk.Proofs.StaticPositions

namespace Treewalk

namespace Lexeme

theorem span_append {p : Char → Bool} {d : Char} (cs rest : List Char)
    (ends : cs.dropWhile p ≠ [] ∨ p d = false) :
    (cs ++ d :: rest).takeWhile p = cs.takeWhile p ∧
    (cs ++ d :: rest).dropWhile p = cs.dropWhile p ++ d :: rest := by
  induction cs with
  | nil =>
    have stops : p d = false := by
      rcases ends with nonempty | stops
      · exact absurd rfl nonempty
      · exact stops
    simp [stops]
  | cons c cs ih =>
    by_cases continues : p c = true
    · rw [List.dropWhile_cons_of_pos continues] at ends
      obtain ⟨taken, left⟩ := ih ends
      simp [continues, taken, left]
    · simp [continues]

section Blank

variable {b : Char} (c : Char) (cs rest : List Char)

theorem blank_stops (blank : b ∈ blanks) :
    isWordPart b = false ∧ b.isDigit = false ∧ b ≠ '.' ∧ b ≠ '=' ∧ b ≠ '/' := by
  simp only [blanks, List.mem_cons, List.not_mem_nil, or_false] at blank
  rcases blank with rfl | rfl | rfl | rfl <;> decide

theorem cutWord_blank (blank : b ∈ blanks) :
    cutWord c (cs ++ b :: rest) = ((cutWord c cs).1, (cutWord c cs).2 ++ b :: rest) := by
  obtain ⟨taken, left⟩ := span_append cs rest (.inr (blank_stops blank).1)
  simp only [cutWord, taken, left]

theorem cutNumber_blank (blank : b ∈ blanks) :
    cutNumber c (cs ++ b :: rest) = ((cutNumber c cs).1, (cutNumber c cs).2 ++ b :: rest) := by
  obtain ⟨-, stops, noPoint, -⟩ := blank_stops blank
  obtain ⟨taken, left⟩ := span_append cs rest (.inr stops)
  simp only [cutNumber, taken, left]
  cases cs.dropWhile Char.isDigit with
  | nil => simp [noPoint]
  | cons a after =>
    by_cases point : a = '.'
    · subst point
      cases after with
      | nil => simp [stops]
      | cons d more =>
        obtain ⟨taken', left'⟩ := span_append more rest (.inr stops)
        by_cases digit : d.isDigit = true
        · simp [digit, taken', left']
        · simp [digit]
    · simp [point]

theorem cutString_append_cons (closed : (cutString cs).1.role ≠ .openString) :
    cutString (cs ++ b :: rest) = ((cutString cs).1, (cutString cs).2 ++ b :: rest) := by
  have ends : cs.dropWhile (· != '"') ≠ [] := by
    intro empty
    simp [cutString, empty] at closed
  obtain ⟨taken, left⟩ := span_append (d := b) cs rest (.inl ends)
  simp only [cutString, taken, left]
  cases found : cs.dropWhile (· != '"') with
  | nil => exact absurd found ends
  | cons quote after => simp

theorem cutSymbol_blank (blank : b ∈ blanks) :
    cutSymbol c (cs ++ b :: rest) = ((cutSymbol c cs).1, (cutSymbol c cs).2 ++ b :: rest) := by
  have noEqual : b ≠ '=' := (blank_stops blank).2.2.2.1
  unfold cutSymbol
  cases symbol? c with
  | none => simp
  | some kind =>
    cases doubled : withEqual? kind with
    | none => simp [doubled]
    | some longer =>
      cases cs with
      | nil => simp [doubled, noEqual]
      | cons d cs =>
        by_cases equal : d = '='
        · simp [doubled, equal]
        · simp [doubled, equal]

/-- A blank ends the piece before it, unless that is an open string or, for a blank that does not
end the line, a comment. -/
theorem cut_blank (blank : b ∈ blanks) (closed : (cut c cs).1.role ≠ .openString)
    (ends : b = '\n' ∨ (cut c cs).1.role ≠ .trivia) :
    cut c (cs ++ b :: rest) = ((cut c cs).1, (cut c cs).2 ++ b :: rest) := by
  have noSlash : b ≠ '/' := (blank_stops blank).2.2.2.2
  have head : ((cs ++ b :: rest).head? == some '/') = (cs.head? == some '/') := by
    cases cs <;> simp [noSlash]
  unfold cut at closed ends ⊢
  rw [head]
  by_cases space : isBlank c = true
  · simp [space]
  by_cases comment : (c == '/' && cs.head? == some '/') = true
  · have newline : b = '\n' := by simpa [space, comment] using ends
    have stops : (b != '\n') = false := by simp [newline]
    obtain ⟨taken, left⟩ := span_append (p := (· != '\n')) cs rest (.inr stops)
    simp [space, comment, taken, left]
  by_cases quote : (c == '"') = true
  · rw [if_neg space, if_neg comment, if_pos quote] at closed
    simp only [space, comment, quote, if_true]
    exact cutString_append_cons cs rest closed
  by_cases digit : c.isDigit = true
  · simp only [space, comment, quote, digit, if_true]
    exact cutNumber_blank c cs rest blank
  by_cases letter : isLetter c = true
  · simp only [space, comment, quote, digit, letter, if_true]
    exact cutWord_blank c cs rest blank
  · simp only [space, comment, quote, digit, letter]
    exact cutSymbol_blank c cs rest blank

end Blank

def newline : Lexeme := ⟨.trivia, ['\n']⟩

theorem cutAll_newline (cs rest : List Char) (closed : ∀ x ∈ cutAll cs, x.role ≠ .openString) :
    cutAll (cs ++ '\n' :: rest) = cutAll cs ++ newline :: cutAll rest := by
  induction size : cs.length using Nat.strongRecOn generalizing cs with
  | ind n ih =>
    cases cs with
    | nil =>
      rw [List.nil_append, cutAll_cons]
      simp [cut, isBlank, newline]
    | cons c cs =>
      rw [cutAll_cons] at closed ⊢
      have first : (cut c cs).1.role ≠ .openString := closed _ List.mem_cons_self
      have later := ih _ (size ▸ cut_length c cs) (cut c cs).2
        (fun x member => closed x (List.mem_cons_of_mem _ member)) rfl
      rw [List.cons_append, cutAll_cons, cut_blank c cs rest (by decide) first (.inl rfl), later]
      rfl

end Lexeme

open Lexeme

/-- Where a place of a text comes to stand when the text is put below another. -/
def Place.below (above : String) (p : Place) : Place :=
  { line := p.line + (above.toList.count '\n' + 1)
    span := ⟨p.span.start + (above.utf8ByteSize + 1), p.span.stop + (above.utf8ByteSize + 1)⟩ }

section Scanning

variable (above : String)

theorem bytes_below (text : List Char) :
    bytes (above.toList ++ '\n' :: text) = bytes text + (above.utf8ByteSize + 1) := by
  have upper : bytes above.toList = above.utf8ByteSize := by rw [bytes, String.ofList_toList]
  have feed : '\n'.utf8Size = 1 := by decide
  rw [bytes_append, bytes_cons, upper, feed]
  omega

theorem line_below (text : List Char) :
    1 + (above.toList ++ '\n' :: text).count '\n' =
      1 + text.count '\n' + (above.toList.count '\n' + 1) := by
  rw [List.count_append, List.count_cons_self]
  omega

theorem tokenOf?_below (before : List Char) (x : Lexeme) :
    tokenOf? (above.toList ++ '\n' :: before) x =
      (tokenOf? before x).map (Token.relaid (Place.below above)) := by
  unfold tokenOf?
  simp only [List.append_assoc, List.cons_append, Cursor.line_after, bytes_below, line_below]
  split <;> rfl

theorem errorOf?_below (before : List Char) (x : Lexeme) :
    errorOf? (above.toList ++ '\n' :: before) x =
      (errorOf? before x).map (SyntaxError.relaid (Place.below above)) := by
  unfold errorOf?
  simp only [List.append_assoc, List.cons_append, Cursor.line_after, bytes_below, line_below]
  split <;> rfl

theorem errorOf?_open (before : List Char) {x : Lexeme} (role : x.role = .openString) :
    ∃ e, errorOf? before x = some e ∧ e.problem = .unterminatedString := by
  simp [errorOf?, role]

theorem placed_append (before : List Char) (xs ys : List Lexeme) :
    placed before (xs ++ ys) =
      placed before xs ++ placed (before ++ (xs.map Lexeme.text).flatten) ys := by
  induction xs generalizing before with
  | nil => simp [placed]
  | cons x xs ih => simp [placed, ih]

theorem filterMap_below {α : Type} {find : List Char → Lexeme → Option α} {move : α → α}
    (moved : ∀ before x, find (above.toList ++ '\n' :: before) x = (find before x).map move)
    (before : List Char) (xs : List Lexeme) :
    (placed (above.toList ++ '\n' :: before) xs).filterMap (fun piece => find piece.1 piece.2) =
      ((placed before xs).filterMap fun piece => find piece.1 piece.2).map move := by
  induction xs generalizing before with
  | nil => rfl
  | cons x xs ih =>
    have later := ih (before ++ x.text)
    cases found : find before x <;> simp [placed, moved, found, later]

theorem endOf_below (below : String) :
    endOf (above ++ "\n" ++ below) = (endOf below).relaid (Place.below above) := by
  have chars : (above ++ "\n" ++ below).toList = above.toList ++ '\n' :: below.toList := by simp
  have size (s : String) : s.utf8ByteSize = bytes s.toList := by rw [bytes, String.ofList_toList]
  rw [endOf, size, chars, bytes_below, line_below, ← size]
  rfl

theorem body_pieces (source : String) :
    Parse.body (scan source).tokens =
      (placed [] (cutAll source.toList)).filterMap fun piece => tokenOf? piece.1 piece.2 :=
  List.append_cancel_right
    ((scan_body source).1.symm.trans (congrArg Scanned.tokens (scan_eq source)))

theorem scan_newline (below : String)
    (closed : ∀ e ∈ (scan above).errors, e.problem ≠ .unterminatedString) :
    scan (above ++ "\n" ++ below) =
      { tokens := Parse.body (scan above).tokens ++
          (scan below).tokens.map (Token.relaid (Place.below above))
        errors := (scan above).errors ++
          (scan below).errors.map (SyntaxError.relaid (Place.below above)) } := by
  have scanned (source : String) : scan source =
      { tokens := ((placed [] (cutAll source.toList)).filterMap fun piece =>
          tokenOf? piece.1 piece.2) ++ [endOf source]
        errors := (placed [] (cutAll source.toList)).filterMap fun piece =>
          errorOf? piece.1 piece.2 } := scan_eq source
  have pieces : ∀ x ∈ cutAll above.toList, x.role ≠ .openString := by
    intro x member role
    obtain ⟨l, r, split⟩ := List.append_of_mem member
    have there : ((l.map Lexeme.text).flatten, x) ∈ placed [] (cutAll above.toList) := by
      simp [split, placed_append, placed]
    obtain ⟨e, error, problem⟩ := errorOf?_open (l.map Lexeme.text).flatten role
    refine closed e ?_ problem
    rw [scanned]
    exact List.mem_filterMap.mpr ⟨_, there, error⟩
  have chars : (above ++ "\n" ++ below).toList = above.toList ++ '\n' :: below.toList := by simp
  have cut : placed [] (cutAll (above ++ "\n" ++ below).toList) =
      placed [] (cutAll above.toList) ++ (above.toList, newline) ::
        placed (above.toList ++ '\n' :: []) (cutAll below.toList) := by
    rw [chars, cutAll_newline _ _ pieces, placed_append, List.nil_append, cutAll_flatten]
    rfl
  rw [body_pieces, scanned (above ++ "\n" ++ below), cut, endOf_below]
  have tokens := filterMap_below above (tokenOf?_below above) [] (cutAll below.toList)
  have errors := filterMap_below above (errorOf?_below above) [] (cutAll below.toList)
  have blank : tokenOf? above.toList newline = none := rfl
  have quiet : errorOf? above.toList newline = none := rfl
  simp [tokens, errors, blank, quiet, scanned]

end Scanning

theorem body_eq_filter (source : String) :
    Parse.body (scan source).tokens = (scan source).tokens.filter fun t => !t.is .eof := by
  have plain : ∀ t ∈ Parse.body (scan source).tokens, (!t.is .eof) = true :=
    fun t member => List.mem_takeWhile_imp (p := fun t : Token => !t.is .eof) member
  have whole := congrArg (List.filter fun t => !t.is .eof) (scan_body source).1
  rw [List.filter_append, List.filter_eq_self.mpr plain] at whole
  exact (whole.trans (List.append_nil _)).symm

theorem Problem.message_eq_open {problem : Problem} :
    problem.message = "Unterminated string." ↔ problem = .unterminatedString := by
  cases problem <;> decide

/-- Scanning distributes over lines: below a text in which no string is left open, a text is scanned
as on its own, with everything found in it moved by the bytes and the lines of the text above and of
the line feed between them. -/
theorem lines_scan_apart {above below : String}
    (closed : ∀ e ∈ (scan above).errors, e.message ≠ "Unterminated string.") :
    let size := above.utf8ByteSize + 1
    let lines := above.toList.count '\n' + 1
    let moved (s : Span) : Span := ⟨s.start + size, s.stop + size⟩
    scan (above ++ "\n" ++ below) =
      { tokens := ((scan above).tokens.filter fun t => !t.is .eof) ++
          (scan below).tokens.map fun t =>
            { t with line := t.line + lines, span := moved t.span }
        errors := (scan above).errors ++
          (scan below).errors.map fun e =>
            { e with line := e.line + lines, span := moved e.span } } := by
  intro size lines moved
  rw [← body_eq_filter]
  exact scan_newline above below fun e member open' =>
    closed e member (Problem.message_eq_open.mpr open')

theorem lines_scan_apart_at_comment :
    let above := "\"a\nb\" # 1 // end"
    let below := ".5 \"open"
    (scan above).errors.length = 1 ∧ (scan below).errors.length = 1 ∧
    (scan (above ++ "\n" ++ below)).tokens.map Token.place =
      ((scan above).tokens.filter fun t => !t.is .eof).map Token.place ++
        (scan below).tokens.map fun t =>
          ⟨t.line + 2, ⟨t.span.start + 17, t.span.stop + 17⟩⟩ := by
  intro above below
  have closed : ∀ e ∈ (scan above).errors, e.message ≠ "Unterminated string." := by decide +kernel
  have size : above.utf8ByteSize + 1 = 17 := by decide +kernel
  have lines : above.toList.count '\n' + 1 = 2 := by decide +kernel
  have apart := @lines_scan_apart above below closed
  simp only [size, lines] at apart
  refine ⟨by decide +kernel, by decide +kernel, ?_⟩
  rw [apart, List.map_append, List.map_map]
  rfl

end Treewalk
