import Treewalk.Proofs.Tiling

namespace Treewalk

open Lexeme

/-- The text in the bytes of a span. There is none when the span is out of order, ends after the
source, or cuts through a character. -/
def Span.text? (source : String) (s : Span) : Option String :=
  if valid : s.start ≤ s.stop ∧ (String.Pos.Raw.mk s.start).IsValid source ∧
      (String.Pos.Raw.mk s.stop).IsValid source then
    some (source.extract ⟨_, valid.2.1⟩ ⟨_, valid.2.2⟩)
  else none

structure Span.Inside (source : String) (s : Span) : Prop where
  ordered : s.start ≤ s.stop
  bounded : s.stop ≤ source.utf8ByteSize
  starts : (String.Pos.Raw.mk s.start).IsValid source
  stops : (String.Pos.Raw.mk s.stop).IsValid source

/-- The number of the line on which the first `offset` bytes end. -/
def lineAt (source : String) (offset : Nat) : Option Nat :=
  (Span.text? source ⟨0, offset⟩).map fun before => 1 + before.toList.count '\n'

theorem bytes_append (a b : List Char) : bytes (a ++ b) = bytes a + bytes b := by
  rw [bytes, String.ofList_append, String.utf8ByteSize_append]
  rfl

section Cutting

variable {source : String} {before text after : List Char}

theorem isValid_bytes (whole : source.toList = before ++ after) :
    (String.Pos.Raw.mk (bytes before)).IsValid source := by
  rw [String.Pos.Raw.isValid_iff_exists_append]
  refine ⟨String.ofList before, String.ofList after, ?_, rfl⟩
  rw [← String.ofList_append, ← whole, String.ofList_toList]

theorem utf8ByteSize_eq (whole : source.toList = before ++ text ++ after) :
    source.utf8ByteSize = bytes before + bytes text + bytes after := by
  have size : source.utf8ByteSize = bytes source.toList := by rw [bytes, String.ofList_toList]
  rw [size, whole, bytes_append, bytes_append]

theorem inside_of_cut (whole : source.toList = before ++ text ++ after) :
    Span.Inside source ⟨bytes before, bytes (before ++ text)⟩ := by
  have size := utf8ByteSize_eq whole
  have grows := bytes_append before text
  have opened : source.toList = before ++ (text ++ after) := by rw [whole, List.append_assoc]
  refine ⟨?_, ?_, isValid_bytes opened, isValid_bytes whole⟩
  · dsimp only
    omega
  · dsimp only
    omega

theorem text?_of_cut (whole : source.toList = before ++ text ++ after) :
    Span.text? source ⟨bytes before, bytes (before ++ text)⟩ = some (String.ofList text) := by
  have inside := inside_of_cut whole
  have joined : source =
      String.ofList before ++ (String.ofList text ++ String.ofList after) := by
    rw [← String.ofList_append, ← String.ofList_append, ← List.append_assoc, ← whole,
      String.ofList_toList]
  have start : bytes before = (String.ofList before).toByteArray.size + 0 := rfl
  have stop : bytes (before ++ text) =
      (String.ofList before).toByteArray.size + (String.ofList text).toByteArray.size :=
    bytes_append before text
  unfold Span.text?
  rw [dif_pos ⟨inside.ordered, inside.starts, inside.stops⟩]
  congr 1
  rw [← String.toByteArray_inj, String.toByteArray_extract]
  dsimp only
  rw [start, stop]
  conv => lhs; rw [joined]
  rw [String.toByteArray_append, String.toByteArray_append, ByteArray.extract_append_size_add,
    ByteArray.extract_append_eq_left rfl]

theorem lineAt_of_cut (whole : source.toList = before ++ after) :
    lineAt source (bytes before) = some (1 + before.count '\n') := by
  have cut : Span.text? source ⟨bytes [], bytes ([] ++ before)⟩ = some (String.ofList before) :=
    text?_of_cut whole
  rw [List.nil_append] at cut
  rw [lineAt]
  change (Span.text? source ⟨bytes [], bytes before⟩).map _ = _
  rw [cut, Option.map_some, String.toList_ofList]

theorem lineAt_bounds {offset line : Nat} (valid : (String.Pos.Raw.mk offset).IsValid source)
    (here : lineAt source offset = some line) :
    1 ≤ line ∧ line ≤ 1 + source.toList.count '\n' := by
  obtain ⟨first, last, rfl, size⟩ := String.Pos.Raw.isValid_iff_exists_append.mp valid
  have cut : lineAt (first ++ last) (bytes first.toList) = some (1 + first.toList.count '\n') :=
    lineAt_of_cut String.toList_append
  have same : offset = bytes first.toList := by
    rw [bytes, String.ofList_toList]
    exact congrArg String.Pos.Raw.byteIdx size
  rw [← same, here, Option.some.injEq] at cut
  rw [cut, String.toList_append, List.count_append]
  omega

end Cutting

def placed (before : List Char) : List Lexeme → List (List Char × Lexeme)
  | [] => []
  | x :: xs => (before, x) :: placed (before ++ x.text) xs

theorem mem_placed {before b : List Char} {x : Lexeme} {xs : List Lexeme}
    (member : (b, x) ∈ placed before xs) :
    ∃ l r, xs = l ++ x :: r ∧ b = before ++ (l.map Lexeme.text).flatten := by
  induction xs generalizing before with
  | nil => cases member
  | cons y ys ih =>
    rcases List.mem_cons.mp member with same | member
    · cases same
      exact ⟨[], ys, rfl, by simp⟩
    · obtain ⟨l, r, rfl, rfl⟩ := ih member
      exact ⟨y :: l, r, rfl, by simp⟩

def Cursor.after (before : List Char) : Cursor := ⟨bytes before, 1 + before.count '\n'⟩

@[simp] theorem Cursor.offset_after (before : List Char) :
    (Cursor.after before).offset = bytes before := rfl

@[simp] theorem Cursor.line_after (before : List Char) :
    (Cursor.after before).line = 1 + before.count '\n' := rfl

@[simp] theorem Cursor.advance_after (before text : List Char) :
    (Cursor.after before).advance text = .after (before ++ text) := by
  have offset := Cursor.offset_advance (.after before) text
  rw [offset_after, ← bytes_append] at offset
  have line : ((Cursor.after before).advance text).line = 1 + (before ++ text).count '\n' := by
    rw [List.count_append, ← Nat.add_assoc]
    rfl
  change _ = Cursor.mk (bytes (before ++ text)) (1 + (before ++ text).count '\n')
  rw [← offset, ← line]

def tokenOf? (before : List Char) (x : Lexeme) : Option Token :=
  match x.role with
  | .token kind literal =>
    some { kind, lexeme := String.ofList x.text, literal
           line := (Cursor.after (before ++ x.text)).line
           span := ⟨bytes before, bytes (before ++ x.text)⟩ }
  | _ => none

def errorOf? (before : List Char) (x : Lexeme) : Option SyntaxError :=
  let error (problem : Problem) : SyntaxError :=
    { problem, line := (Cursor.after (before ++ x.text)).line, location := none
      span := ⟨bytes before, bytes (before ++ x.text)⟩ }
  match x.role with
  | .stray => some (error .unexpectedCharacter)
  | .openString => some (error .unterminatedString)
  | _ => none

theorem add_after {s : Scan} {before : List Char} (x : Lexeme) (here : s.cursor = .after before) :
    s.add x =
      { cursor := .after (before ++ x.text)
        tokens := s.tokens ++ (tokenOf? before x).toList
        errors := s.errors ++ (errorOf? before x).toList } := by
  obtain ⟨cursor, tokens, errors⟩ := s
  obtain ⟨role, text⟩ := x
  subst here
  cases role <;> simp [Scan.add, tokenOf?, errorOf?]

theorem fold_after {s : Scan} {before : List Char} (xs : List Lexeme)
    (here : s.cursor = .after before) :
    xs.foldl Scan.add s =
      { cursor := .after (before ++ (xs.map Lexeme.text).flatten)
        tokens := s.tokens ++ (placed before xs).filterMap fun (b, x) => tokenOf? b x
        errors := s.errors ++ (placed before xs).filterMap fun (b, x) => errorOf? b x } := by
  induction xs generalizing s before with
  | nil =>
    obtain ⟨cursor, tokens, errors⟩ := s
    subst here
    simp [placed]
  | cons x xs ih =>
    have next : (s.add x).cursor = .after (before ++ x.text) := by rw [add_after x here]
    rw [List.foldl_cons, ih next, add_after x here]
    cases token : tokenOf? before x <;> cases error : errorOf? before x <;>
      simp [placed, token, error]

def endOf (source : String) : Token :=
  { kind := .eof, lexeme := "", line := 1 + source.toList.count '\n'
    span := ⟨source.utf8ByteSize, source.utf8ByteSize⟩ }

theorem scan_eq (source : String) :
    scan source =
      { tokens := (placed [] (cutAll source.toList)).filterMap (fun (b, x) => tokenOf? b x) ++
          [endOf source]
        errors := (placed [] (cutAll source.toList)).filterMap fun (b, x) => errorOf? b x } := by
  have start : ({} : Scan).cursor = .after [] := rfl
  have size : bytes source.toList = source.utf8ByteSize := by rw [bytes, String.ofList_toList]
  rw [scan, fold_after _ start, List.nil_append, cutAll_flatten]
  simp [Scan.finish, endOf, size]

theorem scan_ends (source : String) : ∃ t ∈ (scan source).tokens, t.kind = .eof :=
  ⟨endOf source, by simp [scan_eq], rfl⟩

theorem placed_cut {source : String} {before : List Char} {x : Lexeme}
    (member : (before, x) ∈ placed [] (cutAll source.toList)) :
    ∃ after, source.toList = before ++ x.text ++ after := by
  obtain ⟨l, r, pieces, rfl⟩ := mem_placed member
  refine ⟨(r.map Lexeme.text).flatten, ?_⟩
  rw [← cutAll_flatten source.toList, pieces]
  simp

theorem cutAll_mem {cs : List Char} {x : Lexeme} (member : x ∈ cutAll cs) :
    ∃ c rest, x = (cut c rest).1 := by
  induction size : cs.length using Nat.strongRecOn generalizing cs with
  | ind n ih =>
    cases cs with
    | nil => simp at member
    | cons c rest =>
      rw [cutAll_cons] at member
      rcases List.mem_cons.mp member with same | member
      · exact ⟨c, rest, same⟩
      · exact ih _ (size ▸ cut_length c rest) member rfl

theorem keywords_kind : ∀ entry ∈ Token.Kind.keywords, entry.2 ≠ .eof ∧ entry.2 ≠ .string := by
  decide

theorem symbols_kind : ∀ entry ∈ symbols ++ doubled, entry.2 ≠ .eof ∧ entry.2 ≠ .string := by
  decide

theorem Lexeme.Spells.ne_eof {text : List Char} {kind : Token.Kind} (spelled : Spells text kind) :
    kind ≠ .eof := by
  cases spelled with
  | keyword _ _ member => exact (keywords_kind _ member).1
  | symbol member => exact (symbols_kind _ (List.mem_append_left _ member)).1
  | double member => exact (symbols_kind _ (List.mem_append_right _ member)).1
  | _ => decide

theorem Lexeme.Spells.of_string {text : List Char} (spelled : Spells text .string) :
    ∃ body, '"' ∉ body ∧ text = '"' :: (body ++ ['"']) := by
  generalize same : Token.Kind.string = kind at spelled
  cases spelled with
  | keyword _ _ member => exact absurd same.symm (keywords_kind _ member).2
  | symbol member => exact absurd same.symm (symbols_kind _ (List.mem_append_left _ member)).2
  | double member => exact absurd same.symm (symbols_kind _ (List.mem_append_right _ member)).2
  | string free => exact ⟨_, free, rfl⟩
  | _ => cases same

section Pieces

variable {c : Char} {cs : List Char} {kind : Token.Kind} {literal : Option Token.Literal}

theorem cut_spells (role : (cut c cs).1.role = .token kind literal) :
    Spells (cut c cs).1.text kind := by
  have fits := cut_fits c cs
  generalize cut c cs = piece at role fits
  obtain ⟨⟨r, text⟩, rest⟩ := piece
  cases role
  cases fits with
  | token longest _ => exact longest.spells

theorem cut_string (role : (cut c cs).1.role = .token .string literal) :
    ∃ body, (cut c cs).1.text = '"' :: (body ++ ['"']) ∧
      literal = some (.string (String.ofList body)) := by
  obtain ⟨body, -, text⟩ := (cut_spells role).of_string
  have whole := cut_append c cs
  rw [text, List.cons_append] at whole
  have quote : c = '"' := (List.cons.inj whole).1.symm
  subst quote
  have cutting : cut '"' cs = cutString cs := rfl
  rw [cutting] at role text ⊢
  unfold cutString at role text ⊢
  split
  · next none =>
    rw [none] at role
    cases role
  · next q rest found =>
    rw [found] at role text
    cases role
    have inner := (List.append_inj' (List.cons.inj text).2 rfl).1
    exact ⟨body, text, by rw [inner]⟩

end Pieces

structure Token.Stands (source : String) (t : Token) : Prop where
  inside : t.span.Inside source
  line : lineAt source t.span.stop = some t.line
  text : t.span.text? source = some t.lexeme
  string : t.kind = .string → ∃ body, t.literal = some (.string body) ∧
    t.lexeme = "\"" ++ body ++ "\"" ∧
    Span.text? source ⟨t.span.start + 1, t.span.stop - 1⟩ = some body

theorem string_stands {source : String} {before body after : List Char}
    (whole : source.toList = before ++ ('"' :: (body ++ ['"'])) ++ after) :
    Span.text? source ⟨bytes before + 1, bytes (before ++ '"' :: (body ++ ['"'])) - 1⟩ =
      some (String.ofList body) := by
  have quote : bytes ['"'] = 1 := rfl
  have opened : bytes (before ++ ['"']) = bytes before + 1 := by rw [bytes_append, quote]
  have closed : bytes (before ++ '"' :: (body ++ ['"'])) = bytes (before ++ ['"'] ++ body) + 1 := by
    rw [← quote, ← bytes_append, List.append_assoc, List.append_assoc, List.singleton_append]
  have inner : source.toList = before ++ ['"'] ++ body ++ ('"' :: after) := by simp [whole]
  rw [← opened, closed, Nat.add_sub_cancel]
  exact text?_of_cut inner

theorem tokenOf?_stands {source : String} {before : List Char} {x : Lexeme} {t : Token}
    (member : (before, x) ∈ placed [] (cutAll source.toList)) (token : tokenOf? before x = some t) :
    t.Stands source ∧ t.kind ≠ .eof := by
  obtain ⟨after, whole⟩ := placed_cut member
  obtain ⟨l, r, pieces, -⟩ := mem_placed member
  have piece : x ∈ cutAll source.toList := by simp [pieces]
  obtain ⟨c, rest, same⟩ := cutAll_mem piece
  unfold tokenOf? at token
  split at token
  · next kind literal role =>
    cases token
    rw [same] at role
    refine ⟨⟨inside_of_cut whole, lineAt_of_cut whole, text?_of_cut whole, ?_⟩,
      (cut_spells role).ne_eof⟩
    rintro rfl
    obtain ⟨body, text, rfl⟩ := cut_string role
    rw [← same] at text
    rw [text] at whole
    refine ⟨String.ofList body, rfl, ?_, ?_⟩
    · dsimp only
      rw [text, ← String.toList_inj]
      simp
    · dsimp only
      rw [text]
      exact string_stands whole
  · cases token

theorem errorOf?_stands {source : String} {before : List Char} {x : Lexeme} {e : SyntaxError}
    (member : (before, x) ∈ placed [] (cutAll source.toList)) (error : errorOf? before x = some e) :
    e.span.Inside source ∧ lineAt source e.span.stop = some e.line ∧ e.location = none := by
  obtain ⟨after, whole⟩ := placed_cut member
  have inside := inside_of_cut whole
  have line := lineAt_of_cut whole
  unfold errorOf? at error
  split at error <;> cases error <;> exact ⟨inside, line, rfl⟩

theorem endOf_stands (source : String) : (endOf source).Stands source := by
  have whole : source.toList = source.toList ++ [] ++ [] := by simp
  have size : bytes source.toList = source.utf8ByteSize := by rw [bytes, String.ofList_toList]
  have inside := inside_of_cut whole
  have line := lineAt_of_cut whole
  have text := text?_of_cut whole
  rw [List.append_nil, size] at inside line text
  refine ⟨inside, line, text, ?_⟩
  intro never
  cases never

theorem scan_stands {source : String} {t : Token} (member : t ∈ (scan source).tokens) :
    t.Stands source := by
  rw [scan_eq, List.mem_append, List.mem_singleton] at member
  rcases member with member | rfl
  · obtain ⟨⟨before, x⟩, piece, token⟩ := List.mem_filterMap.mp member
    exact (tokenOf?_stands piece token).1
  · exact endOf_stands source

end Treewalk
