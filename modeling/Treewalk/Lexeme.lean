import Treewalk.Token
import Treewalk.Decimal

namespace Treewalk

inductive Lexeme.Role
  | trivia
  | token (kind : Token.Kind) (literal : Option Token.Literal)
  | stray
  | openString
deriving DecidableEq, Repr, Inhabited

structure Lexeme where
  role : Lexeme.Role
  text : List Char
deriving DecidableEq, Repr, Inhabited

namespace Lexeme

def isBlank (c : Char) : Bool := c == ' ' || c == '\t' || c == '\r' || c == '\n'

def isLetter (c : Char) : Bool := c.isAlpha || c == '_'

def isWordPart (c : Char) : Bool := c.isAlphanum || c == '_'

def symbol? : Char → Option Token.Kind
  | '(' => some .leftParen
  | ')' => some .rightParen
  | '{' => some .leftBrace
  | '}' => some .rightBrace
  | ',' => some .comma
  | '.' => some .dot
  | '-' => some .minus
  | '+' => some .plus
  | ';' => some .semicolon
  | '*' => some .star
  | '/' => some .slash
  | '!' => some .bang
  | '=' => some .equal
  | '<' => some .less
  | '>' => some .greater
  | _ => none

def withEqual? : Token.Kind → Option Token.Kind
  | .bang => some .bangEqual
  | .equal => some .equalEqual
  | .less => some .lessEqual
  | .greater => some .greaterEqual
  | _ => none

def number (whole fraction text : List Char) : Lexeme :=
  ⟨.token .number (some (.number (Decimal.read whole fraction))), text⟩

def cutWord (c : Char) (cs : List Char) : Lexeme × List Char :=
  let text := c :: cs.takeWhile isWordPart
  (⟨.token (.ofWord (String.ofList text)) none, text⟩, cs.dropWhile isWordPart)

/-- A point belongs to the number only when a digit follows it. -/
def cutNumber (c : Char) (cs : List Char) : Lexeme × List Char :=
  let whole := c :: cs.takeWhile Char.isDigit
  match cs.dropWhile Char.isDigit with
  | '.' :: d :: rest =>
    if d.isDigit then
      let fraction := d :: rest.takeWhile Char.isDigit
      (number whole fraction (whole ++ '.' :: fraction), rest.dropWhile Char.isDigit)
    else (number whole [] whole, '.' :: d :: rest)
  | rest => (number whole [] whole, rest)

/-- `cs` is what follows the opening quote. -/
def cutString (cs : List Char) : Lexeme × List Char :=
  let body := cs.takeWhile (· != '"')
  match cs.dropWhile (· != '"') with
  | [] => (⟨.openString, '"' :: body⟩, [])
  | q :: rest =>
    (⟨.token .string (some (.string (String.ofList body))), '"' :: body ++ [q]⟩, rest)

def cutSymbol (c : Char) (cs : List Char) : Lexeme × List Char :=
  match symbol? c with
  | none => (⟨.stray, [c]⟩, cs)
  | some kind =>
    match withEqual? kind, cs with
    | some longer, '=' :: rest => (⟨.token longer none, [c, '=']⟩, rest)
    | _, _ => (⟨.token kind none, [c]⟩, cs)

def cut (c : Char) (cs : List Char) : Lexeme × List Char :=
  if isBlank c then (⟨.trivia, [c]⟩, cs)
  else if c == '/' && cs.head? == some '/' then
    (⟨.trivia, c :: cs.takeWhile (· != '\n')⟩, cs.dropWhile (· != '\n'))
  else if c == '"' then cutString cs
  else if c.isDigit then cutNumber c cs
  else if isLetter c then cutWord c cs
  else cutSymbol c cs

theorem cutWord_append (c : Char) (cs : List Char) :
    (cutWord c cs).1.text ++ (cutWord c cs).2 = c :: cs := by
  simp [cutWord]

theorem cutNumber_append (c : Char) (cs : List Char) :
    (cutNumber c cs).1.text ++ (cutNumber c cs).2 = c :: cs := by
  have whole : cs.takeWhile Char.isDigit ++ cs.dropWhile Char.isDigit = cs :=
    List.takeWhile_append_dropWhile
  unfold cutNumber
  split
  · next d rest h =>
    split <;> simp only [number, List.append_assoc, List.cons_append] <;>
      rw [h] at whole <;> simpa using whole
  · simp [number]

theorem cutString_append (cs : List Char) :
    (cutString cs).1.text ++ (cutString cs).2 = '"' :: cs := by
  have whole : cs.takeWhile (· != '"') ++ cs.dropWhile (· != '"') = cs :=
    List.takeWhile_append_dropWhile
  unfold cutString
  split <;> next h => rw [h] at whole; simpa using whole

theorem cutSymbol_append (c : Char) (cs : List Char) :
    (cutSymbol c cs).1.text ++ (cutSymbol c cs).2 = c :: cs := by
  unfold cutSymbol
  split
  · rfl
  · split <;> rfl

theorem cut_append (c : Char) (cs : List Char) :
    (cut c cs).1.text ++ (cut c cs).2 = c :: cs := by
  unfold cut
  split
  · rfl
  split
  · simp
  split
  · next h => rw [cutString_append, eq_of_beq h]
  split
  · exact cutNumber_append c cs
  split
  · exact cutWord_append c cs
  · exact cutSymbol_append c cs

theorem cut_text_ne_nil (c : Char) (cs : List Char) : (cut c cs).1.text ≠ [] := by
  unfold cut cutString cutNumber cutWord cutSymbol
  repeat' split
  all_goals simp [number]

theorem cut_length (c : Char) (cs : List Char) : (cut c cs).2.length < (c :: cs).length := by
  have whole := congrArg List.length (cut_append c cs)
  have piece := List.length_pos_iff.2 (cut_text_ne_nil c cs)
  rw [List.length_append] at whole
  omega

def cutAllInto (found : Array Lexeme) : List Char → Array Lexeme
  | [] => found
  | c :: cs =>
    let next := cut c cs
    cutAllInto (found.push next.1) next.2
termination_by source => source.length
decreasing_by exact cut_length c cs

def cutAll (source : List Char) : List Lexeme := (cutAllInto #[] source).toList

theorem cutAllInto_toList (found : Array Lexeme) (source : List Char) :
    (cutAllInto found source).toList = found.toList ++ cutAll source := by
  induction hn : source.length using Nat.strongRecOn generalizing found source with
  | ind n ih =>
    cases source with
    | nil => simp [cutAll, cutAllInto]
    | cons c cs =>
      have shorter := hn ▸ cut_length c cs
      rw [cutAll, cutAllInto, cutAllInto, ih _ shorter _ _ rfl, ih _ shorter (#[].push _) _ rfl]
      simp

@[simp] theorem cutAll_nil : cutAll [] = [] := by simp [cutAll, cutAllInto]

theorem cutAll_cons (c : Char) (cs : List Char) :
    cutAll (c :: cs) = (cut c cs).1 :: cutAll (cut c cs).2 := by
  rw [cutAll, cutAllInto, cutAllInto_toList]
  simp

theorem cutAll_flatten (source : List Char) :
    ((cutAll source).map Lexeme.text).flatten = source := by
  induction hn : source.length using Nat.strongRecOn generalizing source with
  | ind n ih =>
    cases source with
    | nil => simp
    | cons c cs =>
      rw [cutAll_cons, List.map_cons, List.flatten_cons, ih _ (hn ▸ cut_length c cs) _ rfl,
        cut_append]

end Lexeme

end Treewalk
