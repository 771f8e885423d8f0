import Treewalk.Tree.Text

namespace Treewalk

inductive Form
  | word (text : String)
  | node (head : String) (parts : List Form)
deriving Inhabited

namespace Form

mutual

def chars : Form → List Char
  | word text => text.toList
  | node head parts => '(' :: (head.toList ++ (charsAll parts ++ [')']))

def charsAll : List Form → List Char
  | [] => []
  | f :: fs => ' ' :: (f.chars ++ charsAll fs)

end

def delimiters : List Char := [' ', '(', ')', '\n']

def Solid (text : String) : Prop := ∀ c ∈ text.toList, c ∉ delimiters

instance (text : String) : Decidable (Solid text) :=
  List.decidableBAll (· ∉ delimiters) text.toList

mutual

def Plain : Form → Prop
  | word text => Solid text
  | node head parts => Solid head ∧ PlainAll parts

def PlainAll : List Form → Prop
  | [] => True
  | f :: fs => f.Plain ∧ PlainAll fs

end

/-- What may follow a form: nothing, or a delimiter that opens no other. -/
def Stops (rest : List Char) : Prop := ∀ c ∈ rest.head?, c ∈ delimiters ∧ c ≠ '('

theorem stops_nil : Stops [] := fun _ none => by cases none

theorem stops_cons {c : Char} {rest : List Char} (delimiter : c ∈ delimiters) (closes : c ≠ '(') :
    Stops (c :: rest) := by
  rintro _ ⟨⟩
  exact ⟨delimiter, closes⟩

theorem stops_parts (parts : List Form) (rest : List Char) :
    Stops (charsAll parts ++ ')' :: rest) := by
  cases parts with
  | nil => exact stops_cons (by decide) (by decide)
  | cons f fs => exact stops_cons (by decide) (by decide)

theorem solid_inj {s t : List Char} {u v : List Char} (solidS : ∀ c ∈ s, c ∉ delimiters)
    (solidT : ∀ c ∈ t, c ∉ delimiters) (stopU : Stops u) (stopV : Stops v)
    (same : s ++ u = t ++ v) : s = t ∧ u = v := by
  induction s generalizing t with
  | nil =>
    cases t with
    | nil => exact ⟨rfl, same⟩
    | cons d t =>
      rw [List.nil_append] at same
      rw [same] at stopU
      exact absurd (stopU d rfl).1 (solidT d List.mem_cons_self)
  | cons c s ih =>
    cases t with
    | nil =>
      rw [List.nil_append] at same
      rw [← same] at stopV
      exact absurd (stopV c rfl).1 (solidS c List.mem_cons_self)
    | cons d t =>
      obtain ⟨rfl, rest⟩ := List.cons.inj same
      obtain ⟨rfl, after⟩ := ih (fun c member => solidS c (List.mem_cons_of_mem _ member))
        (fun c member => solidT c (List.mem_cons_of_mem _ member)) rest
      exact ⟨rfl, after⟩

theorem word_ne_open {text : String} {u rest : List Char} (solid : Solid text) (stops : Stops u) :
    text.toList ++ u ≠ '(' :: rest := by
  intro same
  cases whole : text.toList with
  | nil =>
    rw [whole, List.nil_append] at same
    exact (stops '(' (same ▸ rfl)).2 rfl
  | cons c cs =>
    rw [whole] at same
    obtain ⟨rfl, -⟩ := List.cons.inj same
    exact solid '(' (whole ▸ List.mem_cons_self) (by decide)

theorem node_chars (head : String) (parts : List Form) (rest : List Char) :
    (node head parts).chars ++ rest = '(' :: (head.toList ++ (charsAll parts ++ ')' :: rest)) := by
  simp [chars]

mutual

-- By recursion on the first form. What follows is arbitrary but for the delimiter in front, so that
-- the parts of a node are taken off one after another.
theorem chars_inj (f g : Form) (plainF : f.Plain) (plainG : g.Plain) {u v : List Char}
    (stopU : Stops u) (stopV : Stops v) (same : f.chars ++ u = g.chars ++ v) : f = g ∧ u = v := by
  cases f with
  | word s =>
    cases g with
    | word t =>
      obtain ⟨text, rest⟩ := solid_inj plainF plainG stopU stopV same
      exact ⟨congrArg word (String.toList_inj.mp text), rest⟩
    | node head parts =>
      rw [node_chars] at same
      exact absurd same (word_ne_open plainF stopU)
  | node head parts =>
    rw [node_chars] at same
    cases g with
    | word t => exact absurd same.symm (word_ne_open plainG stopV)
    | node head' parts' =>
      rw [node_chars] at same
      obtain ⟨heads, rest⟩ := solid_inj plainF.1 plainG.1 (stops_parts parts u)
        (stops_parts parts' v) (List.cons.inj same).2
      obtain ⟨rfl, after⟩ := charsAll_inj parts parts' plainF.2 plainG.2 rest
      rw [String.toList_inj.mp heads]
      exact ⟨rfl, after⟩

theorem charsAll_inj (fs gs : List Form) (plainF : PlainAll fs) (plainG : PlainAll gs)
    {u v : List Char} (same : charsAll fs ++ ')' :: u = charsAll gs ++ ')' :: v) :
    fs = gs ∧ u = v := by
  cases fs with
  | nil =>
    cases gs with
    | nil => exact ⟨rfl, (List.cons.inj same).2⟩
    | cons g gs => exact absurd (List.cons.inj same).1 (by decide)
  | cons f fs =>
    cases gs with
    | nil => exact absurd (List.cons.inj same).1 (by decide)
    | cons g gs =>
      simp only [charsAll, List.cons_append, List.append_assoc] at same
      obtain ⟨rfl, rest⟩ := chars_inj f g plainF.1 plainG.1 (stops_parts fs u) (stops_parts gs v)
        (List.cons.inj same).2
      obtain ⟨rfl, after⟩ := charsAll_inj fs gs plainF.2 plainG.2 rest
      exact ⟨rfl, after⟩

end

def lines (fs : List Form) : List Char := (fs.map chars).flatMap ('\n' :: ·)

theorem stops_lines (fs : List Form) : Stops (lines fs) := by
  cases fs with
  | nil => exact stops_nil
  | cons f fs => exact stops_cons (by decide) (by decide)

theorem lines_inj {fs gs : List Form} (plainF : PlainAll fs) (plainG : PlainAll gs)
    (same : lines fs = lines gs) : fs = gs := by
  induction fs generalizing gs with
  | nil =>
    cases gs with
    | nil => rfl
    | cons g gs => cases same
  | cons f fs ih =>
    cases gs with
    | nil => cases same
    | cons g gs =>
      obtain ⟨rfl, rest⟩ := chars_inj f g plainF.1 plainG.1 (stops_lines fs) (stops_lines gs)
        (List.cons.inj same).2
      rw [ih plainF.2 plainG.2 rest]

end Form

end Treewalk
