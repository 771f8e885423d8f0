import Mathlib.Data.List.TakeWhile
import Treewalk.Lexeme

namespace Treewalk

open Token (Kind)

namespace Lexeme

def Letter (c : Char) : Prop := ('a' ≤ c ∧ c ≤ 'z') ∨ ('A' ≤ c ∧ c ≤ 'Z') ∨ c = '_'

def Digit (c : Char) : Prop := '0' ≤ c ∧ c ≤ '9'

def symbols : List (Char × Kind) :=
  [('(', .leftParen), (')', .rightParen), ('{', .leftBrace), ('}', .rightBrace), (',', .comma),
    ('.', .dot), ('-', .minus), ('+', .plus), (';', .semicolon), ('*', .star), ('/', .slash),
    ('!', .bang), ('=', .equal), ('<', .less), ('>', .greater)]

def doubled : List (Char × Kind) :=
  [('!', .bangEqual), ('=', .equalEqual), ('<', .lessEqual), ('>', .greaterEqual)]

inductive Spells : List Char → Kind → Prop
  | keyword {c : Char} {cs : List Char} {kind : Kind} :
    Letter c → (∀ d ∈ cs, Letter d ∨ Digit d) → (String.ofList (c :: cs), kind) ∈ Kind.keywords →
    Spells (c :: cs) kind
  | identifier {c : Char} {cs : List Char} :
    Letter c → (∀ d ∈ cs, Letter d ∨ Digit d) →
    (∀ kind, (String.ofList (c :: cs), kind) ∉ Kind.keywords) → Spells (c :: cs) .identifier
  | whole {d : Char} {ds : List Char} : Digit d → (∀ d ∈ ds, Digit d) → Spells (d :: ds) .number
  | decimal {d f : Char} {ds fs : List Char} :
    Digit d → (∀ d ∈ ds, Digit d) → Digit f → (∀ f ∈ fs, Digit f) →
    Spells (d :: (ds ++ '.' :: f :: fs)) .number
  | string {body : List Char} : '"' ∉ body → Spells ('"' :: (body ++ ['"'])) .string
  | symbol {c : Char} {kind : Kind} : (c, kind) ∈ symbols → Spells [c] kind
  | double {c : Char} {kind : Kind} : (c, kind) ∈ doubled → Spells [c, '='] kind

/-- `text` is a token in front of `rest`, and no longer text there is one. -/
structure Longest (text rest : List Char) (kind : Kind) : Prop where
  spells : Spells text kind
  longest : ∀ text' kind', Spells text' kind' → text' <+: text ++ rest →
    text'.length ≤ text.length

def blanks : List Char := [' ', '\t', '\r', '\n']

/-- Neither a token nor trivia starts with `c`. A comment starts as the token `/` does. -/
structure StartsNothing (c : Char) : Prop where
  noToken : ∀ text kind, Spells text kind → text.head? ≠ some c
  noBlank : c ∉ blanks

def EndsLine (rest : List Char) : Prop := rest = [] ∨ ∃ more, rest = '\n' :: more

inductive Fits : Lexeme → List Char → Prop
  | blank {c : Char} {rest : List Char} : c ∈ blanks → Fits ⟨.trivia, [c]⟩ rest
  | comment {body rest : List Char} :
    '\n' ∉ body → EndsLine rest → Fits ⟨.trivia, '/' :: '/' :: body⟩ rest
  | token {kind : Kind} {literal : Option Token.Literal} {text rest : List Char} :
    Longest text rest kind → ¬ ['/', '/'] <+: text ++ rest → Fits ⟨.token kind literal, text⟩ rest
  | stray {c : Char} {rest : List Char} : StartsNothing c → Fits ⟨.stray, [c]⟩ rest
  | openString {body : List Char} : '"' ∉ body → Fits ⟨.openString, '"' :: body⟩ []

theorem isDigit_iff {c : Char} : c.isDigit = true ↔ Digit c := by
  simp [Char.isDigit, Digit, Char.le_def]

theorem isLetter_iff {c : Char} : isLetter c = true ↔ Letter c := by
  have upper : c.isUpper = true ↔ 'A' ≤ c ∧ c ≤ 'Z' := decide_eq_true_iff
  have lower : c.isLower = true ↔ 'a' ≤ c ∧ c ≤ 'z' := by
    change (decide ('a' ≤ c) && decide (c ≤ 'z')) = true ↔ _
    rw [Bool.and_eq_true, decide_eq_true_eq, decide_eq_true_eq]
  change ((c.isUpper || c.isLower) || c == '_') = true ↔ Letter c
  rw [Bool.or_eq_true, Bool.or_eq_true, upper, lower, beq_iff_eq, or_comm (a := 'A' ≤ c ∧ c ≤ 'Z'),
    or_assoc, Letter]

theorem isWordPart_iff {c : Char} : isWordPart c = true ↔ Letter c ∨ Digit c := by
  rw [← isLetter_iff, ← isDigit_iff]
  simp only [isWordPart, isLetter, Char.isAlphanum, Bool.or_eq_true]
  exact or_right_comm

theorem isBlank_iff {c : Char} : isBlank c = true ↔ c ∈ blanks := by
  simp [isBlank, blanks, or_assoc]

instance (c : Char) : Decidable (Letter c) := decidable_of_iff _ isLetter_iff

instance (c : Char) : Decidable (Digit c) := decidable_of_iff _ isDigit_iff

theorem Digit.not_letter {c : Char} (digit : Digit c) : ¬ Letter c := by
  simp only [Digit, Letter, Char.le_def, UInt32.le_iff_toNat_le] at digit ⊢
  have nine : '9'.val.toNat = 57 := rfl
  have lower : 'a'.val.toNat = 97 := rfl
  have upper : 'A'.val.toNat = 65 := rfl
  rintro (letter | letter | rfl)
  · omega
  · omega
  · revert digit
    decide

theorem symbols_head : ∀ entry ∈ symbols, symbol? entry.1 = some entry.2 ∧
    ¬ Letter entry.1 ∧ ¬ Digit entry.1 ∧ entry.1 ≠ '"' ∧ entry.1 ∉ blanks := by decide

theorem doubled_head : ∀ entry ∈ doubled, (symbol? entry.1).bind withEqual? = some entry.2 ∧
    ¬ Letter entry.1 ∧ ¬ Digit entry.1 ∧ entry.1 ≠ '"' ∧ entry.1 ∉ blanks := by decide

theorem symbol_mem {c : Char} {kind : Kind} (symbol : symbol? c = some kind) :
    (c, kind) ∈ symbols := by
  unfold symbol? at symbol
  split at symbol <;> cases symbol <;> decide

theorem doubled_mem {c : Char} {head kind : Kind} (symbol : symbol? c = some head)
    (equal : withEqual? head = some kind) : (c, kind) ∈ doubled := by
  unfold symbol? at symbol
  split at symbol <;> cases symbol <;> cases equal <;> decide

namespace Spells

variable {c : Char} {cs : List Char} {kind : Kind}

theorem ne_nil {text : List Char} (spelled : Spells text kind) : text ≠ [] := by
  cases spelled <;> exact List.cons_ne_nil _ _

theorem of_letter (spelled : Spells (c :: cs) kind) (letter : Letter c) :
    ∀ d ∈ cs, isWordPart d = true := by
  cases spelled with
  | keyword _ parts _ => exact fun d member => isWordPart_iff.mpr (parts d member)
  | identifier _ parts _ => exact fun d member => isWordPart_iff.mpr (parts d member)
  | whole digit _ => exact absurd letter digit.not_letter
  | decimal digit _ _ _ => exact absurd letter digit.not_letter
  | string _ => exact absurd letter (by decide)
  | symbol member => exact absurd letter (symbols_head _ member).2.1
  | double member => exact absurd letter (doubled_head _ member).2.1

theorem of_digit (spelled : Spells (c :: cs) kind) (digit : Digit c) :
    (∀ d ∈ cs, Digit d) ∨ ∃ ds f fs, cs = ds ++ '.' :: f :: fs ∧ (∀ d ∈ ds, Digit d) ∧
      Digit f ∧ ∀ d ∈ fs, Digit d := by
  cases spelled with
  | keyword letter _ _ => exact absurd letter digit.not_letter
  | identifier letter _ _ => exact absurd letter digit.not_letter
  | whole _ digits => exact .inl digits
  | decimal _ digits first more => exact .inr ⟨_, _, _, rfl, digits, first, more⟩
  | string _ => exact absurd digit (by decide)
  | symbol member => exact absurd digit (symbols_head _ member).2.2.1
  | double member => exact absurd digit (doubled_head _ member).2.2.1

theorem of_quote (spelled : Spells ('"' :: cs) kind) :
    ∃ body, '"' ∉ body ∧ cs = body ++ ['"'] := by
  cases spelled with
  | keyword letter _ _ => exact absurd letter (by decide)
  | identifier letter _ _ => exact absurd letter (by decide)
  | whole digit _ => exact absurd digit (by decide)
  | decimal digit _ _ _ => exact absurd digit (by decide)
  | string free => exact ⟨_, free, rfl⟩
  | symbol member => exact absurd rfl (symbols_head _ member).2.2.2.1
  | double member => exact absurd rfl (doubled_head _ member).2.2.2.1

theorem of_symbol (spelled : Spells (c :: cs) kind) (noLetter : ¬ Letter c) (noDigit : ¬ Digit c)
    (noQuote : c ≠ '"') : (cs = [] ∧ (c, kind) ∈ symbols) ∨ (cs = ['='] ∧ (c, kind) ∈ doubled) := by
  cases spelled with
  | keyword letter _ _ => exact absurd letter noLetter
  | identifier letter _ _ => exact absurd letter noLetter
  | whole digit _ => exact absurd digit noDigit
  | decimal digit _ _ _ => exact absurd digit noDigit
  | string _ => exact absurd rfl noQuote
  | symbol member => exact .inl ⟨rfl, member⟩
  | double member => exact .inr ⟨rfl, member⟩

end Spells

section Cutting

variable {c : Char} {cs : List Char}

theorem length_le_takeWhile {p : Char → Bool} {w : List Char} (before : w <+: cs)
    (all : ∀ d ∈ w, p d = true) : w.length ≤ (cs.takeWhile p).length := by
  obtain ⟨rest, rfl⟩ := before
  rw [List.takeWhile_append_of_pos all, List.length_append]
  omega

/-- It is enough to look at the tokens that start with the first character. -/
theorem Longest.of_cut {text rest : List Char} {kind : Kind} (whole : text ++ rest = c :: cs)
    (spells : Spells text kind)
    (longest : ∀ w kind', Spells (c :: w) kind' → w <+: cs → w.length < text.length) :
    Longest text rest kind where
  spells := spells
  longest text' kind' spelled before := by
    cases text' with
    | nil => exact absurd rfl spelled.ne_nil
    | cons c' w =>
      rw [whole, List.cons_prefix_cons] at before
      rw [before.1] at spelled
      exact longest w kind' spelled before.2

theorem Fits.of_longest {x : Lexeme} {rest : List Char} {kind : Kind}
    {literal : Option Token.Literal} (role : x.role = .token kind literal)
    (longest : Longest x.text rest kind) (whole : x.text ++ rest = c :: cs)
    (noComment : ¬ ['/', '/'] <+: c :: cs) : x.Fits rest := by
  obtain ⟨role', text⟩ := x
  cases role
  refine .token longest ?_
  rw [whole]
  exact noComment

theorem spells_word (letter : Letter c) (parts : ∀ d ∈ cs, Letter d ∨ Digit d) :
    Spells (c :: cs) (.ofWord (String.ofList (c :: cs))) := by
  unfold Kind.ofWord Kind.keyword?
  cases found : Kind.keywords.lookup (String.ofList (c :: cs)) with
  | none =>
    refine .identifier letter parts fun kind member => ?_
    have differs := List.lookup_eq_none_iff.mp found _ member
    simp at differs
  | some kind =>
    obtain ⟨before, after, split, -⟩ := List.lookup_eq_some_iff.mp found
    refine .keyword letter parts ?_
    rw [split]
    simp

theorem cutWord_longest (letter : Letter c) :
    Longest (cutWord c cs).1.text (cutWord c cs).2
      (.ofWord (String.ofList (c :: cs.takeWhile isWordPart))) := by
  refine .of_cut (cutWord_append c cs) ?_ ?_
  · exact spells_word letter fun d member => isWordPart_iff.mp (List.mem_takeWhile_imp member)
  · intro w kind spelled before
    have parts := spelled.of_letter letter
    exact Nat.lt_succ_of_le (length_le_takeWhile before parts)

theorem digits_takeWhile (cs : List Char) : ∀ d ∈ cs.takeWhile Char.isDigit, Digit d :=
  fun _ member => isDigit_iff.mp (List.mem_takeWhile_imp member)

theorem cutNumber_spells (digit : Digit c) : Spells (cutNumber c cs).1.text .number := by
  unfold cutNumber
  split
  · next f rest _ =>
    split
    · next first =>
      exact .decimal digit (digits_takeWhile cs) (isDigit_iff.mp first) (digits_takeWhile rest)
    · exact .whole digit (digits_takeWhile cs)
  · exact .whole digit (digits_takeWhile cs)

theorem cutNumber_whole (c : Char) (cs : List Char) :
    (cs.takeWhile Char.isDigit).length < (cutNumber c cs).1.text.length := by
  unfold cutNumber
  split
  · split <;> simp only [number, List.length_cons, List.length_append] <;> omega
  · exact Nat.lt_succ_self _

theorem cutNumber_decimal {ds rest : List Char} {f : Char} (digits : ∀ d ∈ ds, Digit d)
    (first : Digit f) :
    cutNumber c (ds ++ '.' :: f :: rest) =
      (number (c :: ds) (f :: rest.takeWhile Char.isDigit)
        (c :: (ds ++ '.' :: f :: rest.takeWhile Char.isDigit)), rest.dropWhile Char.isDigit) := by
  have all : ∀ d ∈ ds, d.isDigit = true := fun d member => isDigit_iff.mpr (digits d member)
  have taken : (ds ++ '.' :: f :: rest).takeWhile Char.isDigit = ds := by
    rw [List.takeWhile_append_of_pos all, List.takeWhile_cons_of_neg (by decide), List.append_nil]
  have dropped : (ds ++ '.' :: f :: rest).dropWhile Char.isDigit = '.' :: f :: rest := by
    rw [List.dropWhile_append_of_pos all, List.dropWhile_cons_of_neg (by decide)]
  simp only [cutNumber, taken, dropped, isDigit_iff.mpr first, if_true, List.cons_append]

theorem cutNumber_role (c : Char) (cs : List Char) :
    ∃ literal, (cutNumber c cs).1.role = .token .number literal := by
  unfold cutNumber
  split
  · split <;> exact ⟨_, rfl⟩
  · exact ⟨_, rfl⟩

theorem cutNumber_longest (digit : Digit c) :
    Longest (cutNumber c cs).1.text (cutNumber c cs).2 .number := by
  refine .of_cut (cutNumber_append c cs) (cutNumber_spells digit) ?_
  intro w kind spelled before
  rcases spelled.of_digit digit with digits | ⟨ds, f, fs, rfl, digits, first, more⟩
  · have all : ∀ d ∈ w, d.isDigit = true := fun d member => isDigit_iff.mpr (digits d member)
    have taken := length_le_takeWhile before all
    have whole := cutNumber_whole c cs
    omega
  · have all : ∀ d ∈ fs, d.isDigit = true := fun d member => isDigit_iff.mpr (more d member)
    obtain ⟨rest, rfl⟩ := before
    have fraction := length_le_takeWhile (List.prefix_append fs rest) all
    simp only [List.append_assoc, List.cons_append, cutNumber_decimal digits first, number,
      List.length_cons, List.length_append]
    omega

theorem not_mem_takeWhile (cs : List Char) (stop : Char) : stop ∉ cs.takeWhile (· != stop) := by
  intro member
  have differs := List.mem_takeWhile_imp member
  simp at differs

theorem length_le_of_quoted {w body rest : List Char} (free : '"' ∉ body)
    (before : w ++ ['"'] <+: body ++ '"' :: rest) (inner : '"' ∉ w) : w.length ≤ body.length := by
  have clear {cs : List Char} (free : '"' ∉ cs) : ∀ d ∈ cs, (d != '"') = true := by
    intro d member
    rw [bne_iff_ne]
    rintro rfl
    exact free member
  have taken := length_le_takeWhile ((List.prefix_append w ['"']).trans before) (clear inner)
  rwa [List.takeWhile_append_of_pos (clear free), List.takeWhile_cons_of_neg (by decide),
    List.append_nil] at taken

theorem cutString_fits (cs : List Char) : (cutString cs).1.Fits (cutString cs).2 := by
  have whole : cs.takeWhile (· != '"') ++ cs.dropWhile (· != '"') = cs :=
    List.takeWhile_append_dropWhile
  have free := not_mem_takeWhile cs '"'
  unfold cutString
  split
  · exact .openString free
  · next q rest dropped =>
    have closes : q = '"' := by
      have stops := List.head?_dropWhile_not (· != '"') cs
      rw [dropped] at stops
      simpa using stops
    subst closes
    rw [dropped] at whole
    have joined : '"' :: cs.takeWhile (· != '"') ++ ['"'] ++ rest = '"' :: cs := by
      rw [List.append_assoc, List.cons_append, List.singleton_append, whole]
    refine .token (.of_cut joined (.string free) ?_) ?_
    · intro w kind spelled before
      obtain ⟨body, inner, rfl⟩ := spelled.of_quote
      rw [← whole] at before
      have shorter := length_le_of_quoted free before inner
      simp only [List.length_append, List.length_cons, List.length_nil]
      omega
    · rw [joined]
      simp

theorem startsNothing_of_symbol (noBlank : c ∉ blanks) (noLetter : ¬ Letter c) (noDigit : ¬ Digit c)
    (noQuote : c ≠ '"') (none : symbol? c = none) : StartsNothing c where
  noToken text kind spelled head := by
    cases text with
    | nil => cases head
    | cons c' cs =>
      cases head
      rcases spelled.of_symbol noLetter noDigit noQuote with ⟨-, member⟩ | ⟨-, member⟩
      · have found := (symbols_head _ member).1
        rw [none] at found
        cases found
      · have found := (doubled_head _ member).1
        rw [none] at found
        cases found
  noBlank := noBlank

theorem cutSymbol_fits (noBlank : c ∉ blanks) (noLetter : ¬ Letter c) (noDigit : ¬ Digit c)
    (noQuote : c ≠ '"') (noComment : ¬ ['/', '/'] <+: c :: cs) :
    (cutSymbol c cs).1.Fits (cutSymbol c cs).2 := by
  unfold cutSymbol
  split
  · next none =>
    exact .stray (startsNothing_of_symbol noBlank noLetter noDigit noQuote none)
  · next head found =>
    split
    · next longer rest equal =>
      refine .token (.of_cut rfl (.double (doubled_mem found equal)) ?_) noComment
      intro w kind spelled before
      rcases spelled.of_symbol noLetter noDigit noQuote with ⟨rfl, -⟩ | ⟨rfl, -⟩
      · exact Nat.zero_lt_two
      · exact Nat.one_lt_two
    · next single =>
      refine .token (.of_cut rfl (.symbol (symbol_mem found)) ?_) noComment
      intro w kind spelled before
      rcases spelled.of_symbol noLetter noDigit noQuote with ⟨rfl, -⟩ | ⟨rfl, member⟩
      · exact Nat.zero_lt_one
      · obtain ⟨rest, rfl⟩ := before
        have equal := (doubled_head _ member).1
        rw [found] at equal
        exact absurd rfl (single kind rest equal)

theorem endsLine_dropWhile (cs : List Char) : EndsLine (cs.dropWhile (· != '\n')) := by
  have stops := List.head?_dropWhile_not (· != '\n') cs
  cases dropped : cs.dropWhile (· != '\n') with
  | nil => exact .inl rfl
  | cons d rest =>
    rw [dropped] at stops
    have newline : d = '\n' := by simpa using stops
    exact .inr ⟨rest, by rw [newline]⟩

/-- What is cut off is a blank, a comment, the longest token, or what cannot start a token. -/
theorem cut_fits (c : Char) (cs : List Char) : (cut c cs).1.Fits (cut c cs).2 := by
  unfold cut
  split
  · next blank => exact .blank (isBlank_iff.mp blank)
  next noBlank =>
  rw [isBlank_iff] at noBlank
  split
  · next comment =>
    simp only [Bool.and_eq_true, beq_iff_eq] at comment
    obtain ⟨rfl, next⟩ := comment
    cases cs with
    | nil => cases next
    | cons d cs =>
      cases next
      exact .comment (not_mem_takeWhile cs '\n') (endsLine_dropWhile cs)
  next single =>
  have noComment : ¬ ['/', '/'] <+: c :: cs := by
    rintro ⟨rest, same⟩
    cases same
    simp at single
  split
  · exact cutString_fits cs
  next noQuote =>
  rw [beq_iff_eq] at noQuote
  split
  · next digit =>
    obtain ⟨literal, role⟩ := cutNumber_role c cs
    exact .of_longest role (cutNumber_longest (isDigit_iff.mp digit)) (cutNumber_append c cs)
      noComment
  next noDigit =>
  split
  · next letter =>
    exact .of_longest rfl (cutWord_longest (isLetter_iff.mp letter)) (cutWord_append c cs) noComment
  · next noLetter =>
    exact cutSymbol_fits noBlank (mt isLetter_iff.mpr noLetter) (mt isDigit_iff.mpr noDigit) noQuote
      noComment

end Cutting

end Lexeme

end Treewalk
