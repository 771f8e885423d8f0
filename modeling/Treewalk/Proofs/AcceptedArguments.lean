import Mathlib.Data.List.Basic
import Mathlib.Data.List.Induction
import Mathlib.Data.List.TakeWhile
import Treewalk.Options

namespace Treewalk

namespace Text

def Trims (text core : List Char) : Prop :=
  ∃ before after, text = before ++ core ++ after ∧
    (∀ c ∈ before, isBlank c = true) ∧ (∀ c ∈ after, isBlank c = true) ∧
    (∀ c ∈ core.head?, isBlank c = false) ∧ ∀ c ∈ core.getLast?, isBlank c = false

theorem dropWhile_blanks {before rest : List Char} (blank : ∀ c ∈ before, isBlank c = true)
    (solid : ∀ c ∈ rest.head?, isBlank c = false) :
    (before ++ rest).dropWhile isBlank = rest := by
  rw [List.dropWhile_append_of_pos blank]
  cases rest with
  | nil => rfl
  | cons c rest => exact List.dropWhile_cons_of_neg (by simp [solid c rfl])

theorem dropWhile_solid (text : List Char) :
    ∀ c ∈ (text.dropWhile isBlank).head?, isBlank c = false := by
  intro c first
  have solid := List.head?_dropWhile_not isBlank text
  rw [Option.mem_def.mp first] at solid
  simpa using solid

theorem trims_trim (text : List Char) : Trims text (trim text) := by
  let rest := text.dropWhile isBlank
  let after := (rest.reverse.takeWhile isBlank).reverse
  have left : text.takeWhile isBlank ++ rest = text := List.takeWhile_append_dropWhile
  have right : trim text ++ after = rest := by
    rw [trim, ← List.reverse_append, List.takeWhile_append_dropWhile, List.reverse_reverse]
  refine ⟨text.takeWhile isBlank, after, ?_, fun c => List.mem_takeWhile_imp, ?_, ?_, ?_⟩
  · rw [List.append_assoc, right, left]
  · intro c member
    exact List.mem_takeWhile_imp (List.mem_reverse.mp member)
  · intro c first
    apply dropWhile_solid text
    change c ∈ rest.head?
    rw [← right, List.head?_append, Option.mem_def.mp first]
    rfl
  · intro c last
    rw [trim, List.getLast?_reverse] at last
    exact dropWhile_solid _ c last

theorem Trims.eq_trim {text core : List Char} (trims : Trims text core) : core = trim text := by
  obtain ⟨before, after, rfl, blankBefore, blankAfter, first, last⟩ := trims
  by_cases empty : core = []
  · -- nothing but white space, all of it dropped from the left
    subst empty
    have blank : ∀ c ∈ before ++ [] ++ after, isBlank c = true := by
      intro c member
      rw [List.append_nil] at member
      exact (List.mem_append.mp member).elim (blankBefore c) (blankAfter c)
    have nothing : (before ++ [] ++ after ++ []).dropWhile isBlank = [] :=
      dropWhile_blanks blank (by simp)
    rw [List.append_nil] at nothing
    rw [trim, nothing]
    rfl
  · have solid : ∀ c ∈ (core ++ after).head?, isBlank c = false := by
      rwa [List.head?_append_of_ne_nil _ empty]
    rw [trim, List.append_assoc, dropWhile_blanks blankBefore solid, List.reverse_append,
      dropWhile_blanks (by simpa using blankAfter) (by simpa using last), List.reverse_reverse]

end Text

def isFlag (text : String) : Bool := "--".toList.isPrefixOf text.toList

structure Acceptable (arguments : List String) : Prop where
  known : ∀ text ∈ arguments, isFlag text = true → text = "--tokens" ∨ text = "--print-ast"
  oneFlag : arguments.countP isFlag ≤ 1
  oneScript : arguments.countP (!isFlag ·) ≤ 1

instance (arguments : List String) : Decidable (Acceptable arguments) :=
  decidable_of_iff
    ((∀ text ∈ arguments, isFlag text = true → text = "--tokens" ∨ text = "--print-ast") ∧
      arguments.countP isFlag ≤ 1 ∧ arguments.countP (!isFlag ·) ≤ 1)
    ⟨fun parts => ⟨parts.1, parts.2.1, parts.2.2⟩,
      fun acceptable => ⟨acceptable.known, acceptable.oneFlag, acceptable.oneScript⟩⟩

def chosenAction (arguments : List String) : Action :=
  if "--tokens" ∈ arguments then .tokens
  else if "--print-ast" ∈ arguments then .tree
  else .run

def chosenScript (arguments : List String) : Option String := arguments.find? (!isFlag ·)

def chosenInput (arguments : List String) : Input :=
  (chosenScript arguments).elim .prompt .script

def blame (text : String) : OptionsError :=
  if isFlag text = true ∧ text ≠ "--tokens" ∧ text ≠ "--print-ast" then .unknownOption text
  else .usage

/-- The list stops being acceptable at `text`. -/
def StopsAt (arguments : List String) (text : String) : Prop :=
  ∃ before after, arguments = before ++ text :: after ∧
    Acceptable before ∧ ¬ Acceptable (before ++ [text])

namespace Acceptable

variable {arguments others : List String} {text : String}

theorem nil : Acceptable [] := ⟨by simp, by simp, by simp⟩

theorem of_append (acceptable : Acceptable (arguments ++ others)) : Acceptable arguments := by
  obtain ⟨known, oneFlag, oneScript⟩ := acceptable
  rw [List.countP_append] at oneFlag oneScript
  exact ⟨fun text member => known text (List.mem_append_left _ member), by omega, by omega⟩

theorem perm (same : others.Perm arguments) : Acceptable others ↔ Acceptable arguments := by
  have one {xs ys : List String} (same : xs.Perm ys) (acceptable : Acceptable xs) :
      Acceptable ys := by
    obtain ⟨known, oneFlag, oneScript⟩ := acceptable
    refine ⟨fun text member => known text (same.mem_iff.mpr member), ?_, ?_⟩
    · rwa [← same.countP_eq]
    · rwa [← same.countP_eq]
  exact ⟨one same, one same.symm⟩

theorem chosenAction_perm (same : others.Perm arguments) :
    chosenAction others = chosenAction arguments := by
  simp only [chosenAction, same.mem_iff]

/-- There is at most one script to choose, wherever it stands. -/
theorem chosenInput_perm (acceptable : Acceptable arguments) (same : others.Perm arguments) :
    chosenInput others = chosenInput arguments := by
  have one := acceptable.oneScript
  have scripts := same.filter (!isFlag ·)
  -- lists of one element at most are permutations only of themselves
  have equal : others.filter (!isFlag ·) = arguments.filter (!isFlag ·) := by
    rw [List.countP_eq_length_filter] at one
    cases found : arguments.filter (!isFlag ·) with
    | nil =>
      rw [found] at scripts
      exact scripts.eq_nil
    | cons text rest =>
      rw [found] at scripts one
      have alone : rest = [] := by simpa using one
      subst alone
      exact List.perm_singleton.mp scripts
  simp only [chosenInput, chosenScript, ← List.head?_filter, equal]

theorem add_flag (acceptable : Acceptable arguments) (flag : isFlag text = true) :
    Acceptable (arguments ++ [text]) ↔
      (text = "--tokens" ∨ text = "--print-ast") ∧ arguments.countP isFlag = 0 := by
  have scripts : (arguments ++ [text]).countP (!isFlag ·) = arguments.countP (!isFlag ·) := by
    simp [List.countP_append, flag]
  have flags : (arguments ++ [text]).countP isFlag = arguments.countP isFlag + 1 := by
    simp [List.countP_append, flag]
  constructor
  · rintro ⟨known, oneFlag, -⟩
    exact ⟨known text (by simp) flag, by omega⟩
  · rintro ⟨here, first⟩
    refine ⟨?_, by omega, scripts ▸ acceptable.oneScript⟩
    intro other member flagged
    rcases List.mem_append.mp member with member | last
    · exact acceptable.known other member flagged
    · rwa [List.mem_singleton.mp last]

theorem add_script (acceptable : Acceptable arguments) (script : isFlag text = false) :
    Acceptable (arguments ++ [text]) ↔ arguments.countP (!isFlag ·) = 0 := by
  have scripts : (arguments ++ [text]).countP (!isFlag ·) = arguments.countP (!isFlag ·) + 1 := by
    simp [List.countP_append, script]
  have flags : (arguments ++ [text]).countP isFlag = arguments.countP isFlag := by
    simp [List.countP_append, script]
  constructor
  · rintro ⟨-, -, oneScript⟩
    omega
  · intro first
    refine ⟨?_, flags ▸ acceptable.oneFlag, by omega⟩
    intro other member flagged
    rcases List.mem_append.mp member with member | last
    · exact acceptable.known other member flagged
    · rw [List.mem_singleton.mp last, script] at flagged
      cases flagged

theorem chosenAction_eq_run (acceptable : Acceptable arguments) :
    chosenAction arguments = .run ↔ arguments.countP isFlag = 0 := by
  rw [List.countP_eq_zero]
  constructor
  · intro run text member flag
    unfold chosenAction at run
    rcases acceptable.known text member flag with rfl | rfl
    · rw [if_pos member] at run
      cases run
    · rw [if_pos member] at run
      split at run <;> cases run
  · intro none
    have absent {text : String} (flag : isFlag text = true) : text ∉ arguments :=
      fun member => none text member flag
    rw [chosenAction, if_neg (absent (by decide)), if_neg (absent (by decide))]

end Acceptable

namespace Arguments

def of (arguments : List String) : Arguments :=
  { action := chosenAction arguments, script := chosenScript arguments }

def next (arguments : List String) (text : String) : Except OptionsError Arguments :=
  if Acceptable (arguments ++ [text]) then .ok (of (arguments ++ [text])) else .error (blame text)

variable {arguments : List String} {text : String}

theorem chosenScript_isSome :
    (chosenScript arguments).isSome = true ↔ arguments.countP (!isFlag ·) ≠ 0 := by
  rw [chosenScript, ← Option.ne_none_iff_isSome, ne_eq, List.find?_eq_none, ← List.countP_eq_zero]

theorem choose_of {action : Action} (acceptable : Acceptable arguments) (flag : isFlag text = true)
    (chosen : arguments.countP isFlag = 0 → chosenAction (arguments ++ [text]) = action) :
    (of arguments).choose action =
      if arguments.countP isFlag = 0 then .ok (of (arguments ++ [text])) else .error .usage := by
  have script : chosenScript (arguments ++ [text]) = chosenScript arguments := by
    simp [chosenScript, List.find?_append, flag]
  simp only [choose, of, acceptable.chosenAction_eq_run, script]
  split
  · next first => rw [chosen first]
  · rfl

theorem add_flag (acceptable : Acceptable arguments) (flag : isFlag text = true) :
    (of arguments).add text = next arguments text := by
  by_cases tokens : text = "--tokens"
  · subst tokens
    have chosen : chosenAction (arguments ++ ["--tokens"]) = .tokens := by simp [chosenAction]
    have usage : blame "--tokens" = .usage := by decide
    simp [add, next, acceptable.add_flag flag, choose_of acceptable flag fun _ => chosen, usage]
  by_cases tree : text = "--print-ast"
  · subst tree
    -- the other flag would win, but only if it stood before
    have chosen (first : arguments.countP isFlag = 0) :
        chosenAction (arguments ++ ["--print-ast"]) = .tree := by
      have absent : "--tokens" ∉ arguments :=
        fun member => List.countP_eq_zero.mp first _ member (by decide)
      simp [chosenAction, absent]
    have usage : blame "--print-ast" = .usage := by decide
    simp [add, next, acceptable.add_flag flag, choose_of acceptable flag chosen, usage]
  · have unknown : blame text = .unknownOption text := by simp [blame, flag, tokens, tree]
    have dashes : ['-', '-'].isPrefixOf text.toList = true := flag
    simp [add, next, acceptable.add_flag flag, tokens, tree, dashes, unknown]

theorem add_script (acceptable : Acceptable arguments) (script : isFlag text = false) :
    (of arguments).add text = next arguments text := by
  have tokens : text ≠ "--tokens" := by
    rintro rfl
    exact absurd script (by decide)
  have tree : text ≠ "--print-ast" := by
    rintro rfl
    exact absurd script (by decide)
  have dashes : ['-', '-'].isPrefixOf text.toList = false := script
  have usage : blame text = .usage := by simp [blame, script]
  have action : chosenAction (arguments ++ [text]) = chosenAction arguments := by
    simp [chosenAction, tokens.symm, tree.symm]
  have taken (first : arguments.countP (!isFlag ·) = 0) :
      chosenScript (arguments ++ [text]) = some text := by
    have none : arguments.find? (!isFlag ·) = none :=
      List.find?_eq_none.mpr (List.countP_eq_zero.mp first)
    simp [chosenScript, List.find?_append, none, script]
  simp only [add, next, tokens, tree, dashes, if_false, of, chosenScript_isSome, usage, action,
    acceptable.add_script script]
  by_cases first : arguments.countP (!isFlag ·) = 0
  · simp [first, taken first]
  · simp [first]

theorem add_of (acceptable : Acceptable arguments) (text : String) :
    (of arguments).add text = next arguments text := by
  cases flag : isFlag text with
  | true => exact add_flag acceptable flag
  | false => exact add_script acceptable flag

theorem foldlM_of_acceptable (acceptable : Acceptable arguments) :
    arguments.foldlM add {} = .ok (of arguments) := by
  induction arguments using List.reverseRecOn with
  | nil => rfl
  | append_singleton arguments text ih =>
    rw [List.foldlM_append, ih acceptable.of_append]
    change [text].foldlM add (of arguments) = _
    rw [List.foldlM_cons, add_of acceptable.of_append, next,
      if_pos acceptable]
    rfl

theorem foldlM_of_stopsAt (stops : StopsAt arguments text) :
    arguments.foldlM add {} = .error (blame text) := by
  obtain ⟨before, after, rfl, acceptable, refused⟩ := stops
  rw [List.foldlM_append, foldlM_of_acceptable acceptable]
  change (text :: after).foldlM add (of before) = _
  rw [List.foldlM_cons, add_of acceptable, next, if_neg refused]
  rfl

end Arguments

theorem acceptable_or_stopsAt (arguments : List String) :
    Acceptable arguments ∨ ∃ text, StopsAt arguments text := by
  induction arguments using List.reverseRecOn with
  | nil => exact .inl .nil
  | append_singleton arguments text ih =>
    rcases ih with acceptable | ⟨other, before, after, rfl, acceptable, refused⟩
    · by_cases more : Acceptable (arguments ++ [text])
      · exact .inl more
      · exact .inr ⟨text, arguments, [], rfl, acceptable, more⟩
    · exact .inr ⟨other, before, after ++ [text], by simp, acceptable, refused⟩

namespace Style

def Spells (text name : String) : Prop :=
  ∃ core, Text.Trims text.toList core ∧ name = String.ofList (core.map Char.toLower)

inductive Asked : Option String → Style → Prop
  | absent : Asked none plain
  | empty {text : String} : Spells text "" → Asked (some text) plain
  | plain {text : String} : Spells text "plain" → Asked (some text) plain
  | fancy {text : String} : Spells text "fancy" → Asked (some text) fancy

def Unknown (style : Option String) (name : String) : Prop :=
  ∃ text, style = some text ∧ Spells text name ∧ name ∉ ["", "plain", "fancy"]

theorem spells_iff {text name : String} :
    Spells text name ↔ name = String.ofList ((Text.trim text.toList).map Char.toLower) := by
  constructor
  · rintro ⟨core, trims, rfl⟩
    rw [trims.eq_trim]
  · rintro rfl
    exact ⟨_, Text.trims_trim _, rfl⟩

theorem asked_or_unknown (style : Option String) :
    (∃ s, Asked style s) ∨ ∃ name, Unknown style name := by
  cases style with
  | none => exact .inl ⟨_, .absent⟩
  | some text =>
    obtain ⟨name, spells⟩ : ∃ name, Spells text name := ⟨_, spells_iff.mpr rfl⟩
    by_cases known : name ∈ ["", "plain", "fancy"]
    · left
      simp only [List.mem_cons, List.not_mem_nil, or_false] at known
      rcases known with rfl | rfl | rfl
      · exact ⟨_, .empty spells⟩
      · exact ⟨_, .plain spells⟩
      · exact ⟨_, .fancy spells⟩
    · exact .inr ⟨name, text, rfl, spells, known⟩

def read (style : Option String) : Except OptionsError Style := style.elim (.ok plain) parse

theorem read_of_spells {text name : String} (spells : Spells text name) :
    read (some text) =
      if name = "" ∨ name = "plain" then .ok plain
      else if name = "fancy" then .ok fancy
      else .error (.unknownStyle name) := by
  simp only [read, Option.elim_some, parse, ← spells_iff.mp spells]

theorem read_of_asked {style : Option String} {s : Style} (asked : Asked style s) :
    read style = .ok s := by
  cases asked with
  | absent => rfl
  | empty spells | plain spells | fancy spells => exact read_of_spells spells

theorem read_of_unknown {style : Option String} {name : String} (unknown : Unknown style name) :
    read style = .error (.unknownStyle name) := by
  obtain ⟨text, rfl, spells, other⟩ := unknown
  simp only [List.mem_cons, List.not_mem_nil, or_false, not_or] at other
  rw [read_of_spells spells, if_neg (by simp [other]), if_neg (by simp [other])]

end Style

namespace Options

variable {arguments : List String} {style : Option String}

theorem parse_of_acceptable (acceptable : Acceptable arguments) (style : Option String) :
    parse arguments style = (Style.read style).map fun s =>
      { input := chosenInput arguments, action := chosenAction arguments, style := s } := by
  have input : (Arguments.of arguments).input = chosenInput arguments := by
    cases script : chosenScript arguments <;>
      simp [Arguments.input, Arguments.of, chosenInput, script]
  rw [parse, Arguments.foldlM_of_acceptable acceptable, ← input]
  cases style with
  | none => rfl
  | some text =>
    simp only [Style.read, Option.elim_some]
    cases Style.parse text <;> rfl

theorem parse_of_stopsAt {text : String} (stops : StopsAt arguments text) (style : Option String) :
    parse arguments style = .error (blame text) := by
  rw [parse, Arguments.foldlM_of_stopsAt stops]
  rfl

inductive Outcome (arguments : List String) (style : Option String) :
    Except OptionsError Options → Prop
  | accepted {s : Style} (acceptable : Acceptable arguments) (asked : Style.Asked style s) :
    Outcome arguments style
      (.ok { input := chosenInput arguments, action := chosenAction arguments, style := s })
  | stopped {text : String} (stops : StopsAt arguments text) :
    Outcome arguments style (.error (blame text))
  | unknownStyle {name : String} (acceptable : Acceptable arguments)
    (unknown : Style.Unknown style name) : Outcome arguments style (.error (.unknownStyle name))

theorem parse_of_outcome {result : Except OptionsError Options}
    (outcome : Outcome arguments style result) : parse arguments style = result := by
  cases outcome with
  | accepted acceptable asked =>
    rw [parse_of_acceptable acceptable, Style.read_of_asked asked]
    rfl
  | stopped stops => exact parse_of_stopsAt stops style
  | unknownStyle acceptable unknown =>
    rw [parse_of_acceptable acceptable, Style.read_of_unknown unknown]
    rfl

theorem exists_outcome (arguments : List String) (style : Option String) :
    ∃ result, Outcome arguments style result := by
  rcases acceptable_or_stopsAt arguments with acceptable | ⟨text, stops⟩
  · rcases Style.asked_or_unknown style with ⟨s, asked⟩ | ⟨name, unknown⟩
    · exact ⟨_, .accepted acceptable asked⟩
    · exact ⟨_, .unknownStyle acceptable unknown⟩
  · exact ⟨_, .stopped stops⟩

theorem parse_eq_iff {result : Except OptionsError Options} :
    parse arguments style = result ↔ Outcome arguments style result := by
  refine ⟨?_, parse_of_outcome⟩
  rintro rfl
  obtain ⟨result, outcome⟩ := exists_outcome arguments style
  rwa [parse_of_outcome outcome]

theorem parse_eq_ok_iff {options : Options} :
    parse arguments style = .ok options ↔
      Acceptable arguments ∧ Style.Asked style options.style ∧
        options.action = chosenAction arguments ∧ options.input = chosenInput arguments := by
  rw [parse_eq_iff]
  constructor
  · rintro ⟨⟩
    next acceptable asked => exact ⟨acceptable, asked, rfl, rfl⟩
  · obtain ⟨input, action, s⟩ := options
    rintro ⟨acceptable, asked, rfl, rfl⟩
    exact .accepted acceptable asked

theorem parse_eq_error_iff {e : OptionsError} :
    parse arguments style = .error e ↔
      (∃ text, StopsAt arguments text ∧ e = blame text) ∨
      (Acceptable arguments ∧ ∃ name, Style.Unknown style name ∧ e = .unknownStyle name) := by
  rw [parse_eq_iff]
  constructor
  · rintro ⟨⟩
    · next stops => exact .inl ⟨_, stops, rfl⟩
    · next acceptable unknown => exact .inr ⟨acceptable, _, unknown, rfl⟩
  · rintro (⟨text, stops, rfl⟩ | ⟨acceptable, name, unknown, rfl⟩)
    · exact .stopped stops
    · exact .unknownStyle acceptable unknown

end Options

/-- A command line is accepted exactly when its flags are known, at most one of them and at most one
other argument stand in it, and the style, where one is given, is a style; the order of the
arguments does not matter. One that is refused is refused because of the first argument that cannot
follow those before it, or, where there is none, because of the style. -/
theorem command_line_is_read_exactly (arguments : List String) (style : Option String) :
    (∀ options, Options.parse arguments style = .ok options ↔
      Acceptable arguments ∧ Style.Asked style options.style ∧
        options.action = chosenAction arguments ∧ options.input = chosenInput arguments) ∧
    (∀ others, others.Perm arguments → ∀ options,
      Options.parse others style = .ok options ↔ Options.parse arguments style = .ok options) ∧
    ∀ e, Options.parse arguments style = .error e ↔
      (∃ text, StopsAt arguments text ∧ e = blame text) ∨
      (Acceptable arguments ∧ ∃ name, Style.Unknown style name ∧ e = .unknownStyle name) := by
  refine ⟨fun options => Options.parse_eq_ok_iff, ?_, fun e => Options.parse_eq_error_iff⟩
  intro others same options
  rw [Options.parse_eq_ok_iff, Options.parse_eq_ok_iff, Acceptable.perm same]
  refine and_congr_right fun acceptable => ?_
  rw [Acceptable.chosenAction_perm same, acceptable.chosenInput_perm same]

example : StopsAt ["a.lox", "--tokens", "b.lox", "--fast"] "b.lox" :=
  ⟨["a.lox", "--tokens"], ["--fast"], rfl, by decide, by decide⟩

end Treewalk
