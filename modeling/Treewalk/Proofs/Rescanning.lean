import Treewalk.Proofs.Layout
import Treewalk.Proofs.Lines

namespace Treewalk

namespace Lexeme

inductive Filling : List Char → Prop
  | none : Filling []
  | blank {c : Char} {rest : List Char} : c ∈ blanks → Filling rest → Filling (c :: rest)
  | comment {body rest : List Char} :
    '\n' ∉ body → Filling rest → Filling ('/' :: '/' :: body ++ '\n' :: rest)

/-- What separates two tokens: a blank, and then any blanks and comments. -/
inductive Separator : List Char → Prop
  | mk {c : Char} {rest : List Char} : c ∈ blanks → Filling rest → Separator (c :: rest)

inductive Separated : List String → List Char → Prop
  | none : Separated [] []
  | one (word : String) : Separated [word] word.toList
  | more {word next : String} {words : List String} {gap rest : List Char} :
    Separator gap → Separated (next :: words) rest →
    Separated (word :: next :: words) (word.toList ++ gap ++ rest)

abbrev Content := Token.Kind × String × Option Token.Literal

def content? (x : Lexeme) : Option Content :=
  match x.role with
  | .token kind literal => some (kind, String.ofList x.text, literal)
  | .trivia | .stray | .openString => none

def Sound (x : Lexeme) : Prop := x.role ≠ .stray ∧ x.role ≠ .openString

section Own

variable {c : Char} {cs : List Char}

theorem takeWhile_all {p : Char → Bool} {cs : List Char} (all : ∀ d ∈ cs, p d = true) :
    cs.takeWhile p = cs ∧ cs.dropWhile p = [] :=
  ⟨List.takeWhile_eq_self_iff.mpr all, List.dropWhile_eq_nil_iff.mpr all⟩

/-- The piece starts with `c`, and `cut` takes the whole of its text as that piece. -/
def Own (cut : Char → List Char → Lexeme × List Char) (c : Char) (x : Lexeme) : Prop :=
  ∃ w, x.text = c :: w ∧ cut c w = (x, [])

theorem cutWord_own (c : Char) (cs : List Char) : Own cutWord c (cutWord c cs).1 := by
  have parts : ∀ d ∈ cs.takeWhile isWordPart, isWordPart d = true :=
    fun d member => List.mem_takeWhile_imp member
  obtain ⟨taken, left⟩ := takeWhile_all parts
  exact ⟨_, rfl, by simp only [cutWord, taken, left]⟩

theorem cutNumber_cases (c : Char) (cs : List Char) :
    (∃ ds, (∀ d ∈ ds, Digit d) ∧ (cutNumber c cs).1 = number (c :: ds) [] (c :: ds)) ∨
    ∃ ds f fs, (∀ d ∈ ds, Digit d) ∧ Digit f ∧ (∀ d ∈ fs, Digit d) ∧
      (cutNumber c cs).1 = number (c :: ds) (f :: fs) (c :: (ds ++ '.' :: f :: fs)) := by
  unfold cutNumber
  split
  · next f rest _ =>
    split
    · next first =>
      exact .inr ⟨_, f, _, digits_takeWhile cs, isDigit_iff.mp first, digits_takeWhile rest, rfl⟩
    · exact .inl ⟨_, digits_takeWhile cs, rfl⟩
  · exact .inl ⟨_, digits_takeWhile cs, rfl⟩

theorem cutNumber_own (c : Char) (cs : List Char) : Own cutNumber c (cutNumber c cs).1 := by
  rcases cutNumber_cases c cs with ⟨ds, digits, same⟩ | ⟨ds, f, fs, digits, first, more, same⟩
  · obtain ⟨taken, left⟩ := takeWhile_all fun d member => isDigit_iff.mpr (digits d member)
    rw [same]
    exact ⟨ds, rfl, by simp only [cutNumber, taken, left]⟩
  · obtain ⟨taken, left⟩ := takeWhile_all fun d member => isDigit_iff.mpr (more d member)
    rw [same]
    refine ⟨ds ++ '.' :: f :: fs, rfl, ?_⟩
    rw [cutNumber_decimal digits first, taken, left]

theorem cutString_closed {body rest : List Char} (free : '"' ∉ body) :
    cutString (body ++ '"' :: rest) =
      (⟨.token .string (some (.string (String.ofList body))), '"' :: body ++ ['"']⟩, rest) := by
  have clear : ∀ d ∈ body, (d != '"') = true := by
    intro d member
    rw [bne_iff_ne]
    rintro rfl
    exact free member
  have taken : (body ++ '"' :: rest).takeWhile (· != '"') = body := by
    rw [List.takeWhile_append_of_pos clear, List.takeWhile_cons_of_neg (by decide), List.append_nil]
  have dropped : (body ++ '"' :: rest).dropWhile (· != '"') = '"' :: rest := by
    rw [List.dropWhile_append_of_pos clear, List.dropWhile_cons_of_neg (by decide)]
  simp only [cutString, taken, dropped]

theorem cutString_own (closed : (cutString cs).1.role ≠ .openString) :
    Own (fun _ => cutString) '"' (cutString cs).1 := by
  by_cases quoted : '"' ∈ cs
  · obtain ⟨body, rest, rfl, free⟩ := List.eq_append_cons_of_mem quoted
    rw [cutString_closed free]
    exact ⟨body ++ ['"'], rfl, cutString_closed free⟩
  · refine absurd ?_ closed
    have dropped : cs.dropWhile (· != '"') = [] := by
      rw [List.dropWhile_eq_nil_iff]
      intro d member
      rw [bne_iff_ne]
      rintro rfl
      exact quoted member
    simp only [cutString, dropped]

theorem cutSymbol_own (c : Char) (cs : List Char) : Own cutSymbol c (cutSymbol c cs).1 := by
  cases found : symbol? c with
  | none => simp [Own, cutSymbol, found]
  | some kind =>
    cases doubled : withEqual? kind with
    | none => simp [Own, cutSymbol, found, doubled]
    | some longer =>
      cases cs with
      | nil => simp [Own, cutSymbol, found, doubled]
      | cons d rest =>
        by_cases equal : d = '='
        · simp [Own, cutSymbol, found, doubled, equal]
        · simp [Own, cutSymbol, found, doubled, equal]

def cutOther (c : Char) (cs : List Char) : Lexeme × List Char :=
  if c == '"' then cutString cs
  else if c.isDigit then cutNumber c cs
  else if isLetter c then cutWord c cs
  else cutSymbol c cs

theorem cut_other (noBlank : isBlank c = false)
    (noComment : (c == '/' && cs.head? == some '/') = false) : cut c cs = cutOther c cs := by
  rw [cut, noBlank, noComment]
  rfl

theorem cutOther_own (closed : (cutOther c cs).1.role ≠ .openString) :
    Own cutOther c (cutOther c cs).1 := by
  by_cases quote : (c == '"') = true
  · cases eq_of_beq quote
    exact cutString_own closed
  by_cases digit : c.isDigit = true
  · have same : cutOther c = cutNumber c := by
      funext cs
      rw [cutOther, if_neg quote, if_pos digit]
    rw [Own, same]
    exact cutNumber_own c cs
  by_cases letter : isLetter c = true
  · have same : cutOther c = cutWord c := by
      funext cs
      rw [cutOther, if_neg quote, if_neg digit, if_pos letter]
    rw [Own, same]
    exact cutWord_own c cs
  · have same : cutOther c = cutSymbol c := by
      funext cs
      rw [cutOther, if_neg quote, if_neg digit, if_neg letter]
    rw [Own, same]
    exact cutSymbol_own c cs

theorem cut_own {kind : Token.Kind} {literal : Option Token.Literal}
    (token : (cut c cs).1.role = .token kind literal) : Own cut c (cut c cs).1 := by
  have noBlank : isBlank c = false := by
    by_contra blank
    rw [Bool.not_eq_false] at blank
    simp [cut, blank] at token
  have noComment : (c == '/' && cs.head? == some '/') = false := by
    by_contra comment
    rw [Bool.not_eq_false] at comment
    rw [cut, noBlank, comment] at token
    cases token
  have other := cut_other noBlank noComment
  have whole := cut_append c cs
  rw [other] at token whole ⊢
  have closed : (cutOther c cs).1.role ≠ .openString := by simp [token]
  obtain ⟨w, text, own⟩ := cutOther_own closed
  refine ⟨w, text, (cut_other noBlank ?_).trans own⟩
  -- The text starts as the source does, so that it is no comment either.
  rw [text, List.cons_append, List.cons_inj_right] at whole
  rw [← whole] at noComment
  cases w with
  | nil => simp
  | cons d w => exact noComment

/-- In front of a blank, and at the end, a token is cut off as it is. -/
theorem Own.cut_off {x : Lexeme} (own : Own cut c x) (closed : x.role ≠ .openString)
    (loud : x.role ≠ .trivia) {b : Char} (blank : b ∈ blanks) (rest : List Char) :
    ∃ w, x.text ++ b :: rest = c :: w ∧ cut c w = (x, b :: rest) := by
  obtain ⟨w, text, whole⟩ := own
  refine ⟨w ++ b :: rest, by rw [text, List.cons_append], ?_⟩
  rw [cut_blank c w rest blank (by rw [whole]; exact closed) (.inr (by rw [whole]; exact loud)),
    whole, List.nil_append]

end Own

structure Reads (cs : List Char) (found : List Content) : Prop where
  tokens : (cutAll cs).filterMap content? = found
  sound : ∀ x ∈ cutAll cs, x.Sound

namespace Reads

variable {c : Char} {cs rest : List Char} {x : Lexeme} {found : List Content}

theorem nil : Reads [] [] := ⟨by simp, by simp⟩

theorem piece (first : cut c cs = (x, rest)) (sound : x.Sound) (later : Reads rest found) :
    Reads (c :: cs) (x.content?.toList ++ found) := by
  have pieces : cutAll (c :: cs) = x :: cutAll rest := by rw [cutAll_cons, first]
  constructor
  · rw [pieces, List.filterMap_cons, later.tokens]
    cases x.content? <;> rfl
  · rw [pieces]
    exact List.forall_mem_cons.mpr ⟨sound, later.sound⟩

theorem blank (blank : c ∈ blanks) (later : Reads cs found) : Reads (c :: cs) found := by
  have first : cut c cs = (⟨.trivia, [c]⟩, cs) := by rw [cut, if_pos (isBlank_iff.mpr blank)]
  exact later.piece first ⟨by simp, by simp⟩

theorem comment {body : List Char} (free : '\n' ∉ body) (later : Reads rest found) :
    Reads ('/' :: '/' :: body ++ '\n' :: rest) found := by
  have clear : ∀ d ∈ '/' :: body, (d != '\n') = true := by
    intro d member
    rw [bne_iff_ne]
    rintro rfl
    exact free (by simpa using member)
  have first : cut '/' ('/' :: body ++ '\n' :: rest) =
      (⟨.trivia, '/' :: '/' :: body⟩, '\n' :: rest) := by
    have taken : ('/' :: body ++ '\n' :: rest).takeWhile (· != '\n') = '/' :: body := by
      rw [List.takeWhile_append_of_pos clear, List.takeWhile_cons_of_neg (by decide),
        List.append_nil]
    have dropped : ('/' :: body ++ '\n' :: rest).dropWhile (· != '\n') = '\n' :: rest := by
      rw [List.dropWhile_append_of_pos clear, List.dropWhile_cons_of_neg (by decide)]
    simp only [cut, taken, dropped]
    rfl
  exact (later.blank (by decide)).piece first ⟨by simp, by simp⟩

theorem filling {gap : List Char} (filling : Filling gap) (later : Reads rest found) :
    Reads (gap ++ rest) found := by
  induction filling with
  | none => exact later
  | blank blank _ ih => exact ih.blank blank
  | comment free _ ih =>
    rw [List.append_assoc]
    exact ih.comment free

end Reads

def Writable (t : Content) : Prop :=
  ∃ x c, x.content? = some t ∧ Own cut c x

theorem Writable.of_piece {source : List Char} {t : Content}
    (member : t ∈ (cutAll source).filterMap content?) : Writable t := by
  obtain ⟨x, piece, content⟩ := List.mem_filterMap.mp member
  obtain ⟨c, cs, rfl⟩ := cutAll_mem piece
  refine ⟨_, c, content, ?_⟩
  unfold content? at content
  split at content
  · next token => exact cut_own token
  all_goals cases content

theorem Writable.reads {t : Content} (writable : Writable t) :
    Reads t.2.1.toList [t] ∧
    ∀ gap rest found, Separator gap → Reads rest found →
      Reads (t.2.1.toList ++ gap ++ rest) (t :: found) := by
  obtain ⟨x, c, content, own⟩ := writable
  have role : ∃ kind literal, x.role = .token kind literal ∧
      t = (kind, String.ofList x.text, literal) := by
    unfold content? at content
    split at content
    · next kind literal role =>
      cases content
      exact ⟨kind, literal, role, rfl⟩
    all_goals cases content
  obtain ⟨kind, literal, role, same⟩ := role
  have text : t.2.1.toList = x.text := by rw [same, String.toList_ofList]
  have sound : x.Sound := by simp [Sound, role]
  rw [text]
  constructor
  · obtain ⟨w, text, whole⟩ := own
    have reads := Reads.nil.piece whole sound
    rwa [content, ← text] at reads
  · rintro _ rest found ⟨blank, filling⟩ later
    obtain ⟨w, text, whole⟩ :=
      own.cut_off (by simp [role]) (by simp [role]) blank (_ ++ rest)
    have reads := ((later.filling filling).blank blank).piece whole sound
    rw [content, ← text] at reads
    simpa using reads

theorem Separated.reads {ts : List Content} {text : List Char}
    (separated : Separated (ts.map fun t => t.2.1) text) (writable : ∀ t ∈ ts, Writable t) :
    Reads text ts := by
  generalize written : ts.map (fun t => t.2.1) = words at separated
  induction separated generalizing ts with
  | none =>
    rw [List.map_eq_nil_iff.mp written]
    exact .nil
  | one word =>
    obtain ⟨t, rfl, rfl⟩ := List.map_eq_singleton_iff.mp written
    exact (writable t List.mem_cons_self).reads.1
  | more gap _ ih =>
    obtain ⟨t, ts, rfl, rfl, rest⟩ := List.map_eq_cons_iff.mp written
    obtain ⟨first, others⟩ := List.forall_mem_cons.mp writable
    exact first.reads.2 _ _ _ gap (ih others rest)

end Lexeme

open Lexeme

theorem filterMap_content (before : List Char) (xs : List Lexeme) :
    ((placed before xs).filterMap fun piece => tokenOf? piece.1 piece.2).map Token.content =
      xs.filterMap content? := by
  induction xs generalizing before with
  | nil => rfl
  | cons x xs ih =>
    have same : (tokenOf? before x).map Token.content = x.content? := by
      unfold tokenOf? content?
      cases x.role <;> rfl
    rw [placed, List.filterMap_cons, List.filterMap_cons, ← same, ← ih (before ++ x.text)]
    cases tokenOf? before x <;> rfl

theorem scan_contents (source : String) :
    (Parse.body (scan source).tokens).map Token.content =
      (cutAll source.toList).filterMap content? := by
  rw [body_pieces, filterMap_content]

theorem scan_of_reads {source : String} {found : List Content}
    (reads : Reads source.toList found) :
    (scan source).errors = [] ∧ (Parse.body (scan source).tokens).map Token.content = found := by
  refine ⟨?_, (scan_contents source).trans reads.tokens⟩
  have errors : (scan source).errors = (placed [] (cutAll source.toList)).filterMap fun piece =>
      errorOf? piece.1 piece.2 := congrArg Scanned.errors (scan_eq source)
  rw [errors, List.filterMap_eq_nil_iff]
  intro piece member
  obtain ⟨l, r, pieces, -⟩ := mem_placed member
  obtain ⟨noStray, closed⟩ := reads.sound piece.2 (by simp [pieces])
  unfold errorOf?
  split
  · exact absurd ‹_› noStray
  · exact absurd ‹_› closed
  · rfl

/-- The tokens of a source, with any separators between them, are a text without errors that has
the same tokens, whether the source had errors or not. -/
theorem written_tokens_scan_back {source text : String}
    (written : Separated ((Parse.body (scan source).tokens).map Token.lexeme) text.toList) :
    (scan text).errors = [] ∧
    (scan text).tokens.map Token.content =
      (Parse.body (scan source).tokens).map Token.content ++ [(.eof, "", none)] := by
  have words : (Parse.body (scan source).tokens).map Token.lexeme =
      ((Parse.body (scan source).tokens).map Token.content).map fun t => t.2.1 := by
    rw [List.map_map]
    rfl
  rw [words, scan_contents] at written
  obtain ⟨clean, tokens⟩ := scan_of_reads (written.reads fun t => Writable.of_piece)
  refine ⟨clean, ?_⟩
  rw [(scan_body text).1, List.map_append, tokens, scan_contents]
  rfl

def strayedSource : String := "x!=1.5.@\"a\n// b\"/\"open"

def respacedSource : String := "x\t!= // no\n1.5\r.\n\n\"a\n// b\" /"

theorem written_tokens_scan_back_strayed :
    (scan strayedSource).errors.length = 2 ∧
    Separated ((Parse.body (scan strayedSource).tokens).map Token.lexeme) respacedSource.toList ∧
    (scan respacedSource).errors = [] ∧
    (scan respacedSource).tokens.map Token.content =
      (Parse.body (scan strayedSource).tokens).map Token.content ++ [(.eof, "", none)] := by
  have words : (Parse.body (scan strayedSource).tokens).map Token.lexeme =
      ["x", "!=", "1.5", ".", "\"a\n// b\"", "/"] := by decide +kernel
  have chars : respacedSource.toList =
      "x".toList ++ ['\t'] ++ ("!=".toList ++ ' ' :: ('/' :: '/' :: [' ', 'n', 'o'] ++ ['\n']) ++
        ("1.5".toList ++ ['\r'] ++ (".".toList ++ ['\n', '\n'] ++
          ("\"a\n// b\"".toList ++ [' '] ++ "/".toList)))) := by decide +kernel
  have separated : Separated ((Parse.body (scan strayedSource).tokens).map Token.lexeme)
      respacedSource.toList := by
    rw [words, chars]
    exact .more (.mk (by decide) .none)
      (.more (.mk (by decide) (.comment (by decide) .none))
        (.more (.mk (by decide) .none)
          (.more (.mk (by decide) (.blank (by decide) .none))
            (.more (.mk (by decide) .none) (.one "/")))))
  exact ⟨by decide +kernel, separated, written_tokens_scan_back separated⟩

end Treewalk
