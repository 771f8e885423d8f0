import Treewalk.CommandLine
import Treewalk.Proofs.FullSink
import Treewalk.Proofs.RejectedSources

namespace Treewalk

def Machine.preceded (before : ByteArray) (m : Machine) : Machine :=
  { m with sink := { m.sink with taken := before ++ m.sink.taken } }

/-- The action does the same whatever was printed before. -/
def Eval.Appends {α : Type} (x : Eval α) (m : Machine) : Prop :=
  ∀ before, x (m.preceded before) = onFinal (Machine.preceded before) (x m)

namespace Eval.Appends

variable {α β : Type} {m : Machine}

theorem silent {x : Eval α} (silent : x.Silent m) : x.Appends m := by
  intro before
  refine (silent _).trans (onFinal_congr ?_)
  rw [Machine.preceded, silent.final]

theorem bind {x : Eval α} {f : α → Eval β} (first : x.Appends m)
    (next : ∀ a n, x m = .ok a n → (f a).Appends n) : Eval.Appends (x >>= f) m := by
  intro before
  have start := first before
  cases ended : x m with
  | ok a n =>
    rw [ended] at start
    rw [bind_ok ended, bind_ok start, next a n ended before]
  | error h n =>
    rw [ended] at start
    rw [bind_error ended, bind_error start]
    rfl

theorem inside {x : Eval Flow} {p : ScopeId} {bs : List (String × Value)}
    (here : x.Appends (m.enter p bs)) : Eval.Appends (Eval.inside p bs x) m := by
  intro before
  have entered : x ((m.preceded before).enter p bs) = _ := here before
  rw [Eval.inside_apply, Eval.inside_apply, entered]
  cases x (m.enter p bs) <;> rfl

theorem print (keyword : Token) (v : Value) : (Eval.print keyword v).Appends m := by
  intro before
  have written : (m.preceded before).sink.write v.line =
      ((m.sink.write v.line).1, { (m.sink.write v.line).2 with
        taken := before ++ (m.sink.write v.line).2.taken }) := by
    unfold Machine.preceded Sink.write
    cases m.sink.room with
    | none => simp only [ByteArray.append_assoc]
    | some room =>
      dsimp only
      split <;> simp only [ByteArray.append_assoc]
  cases taken : m.sink.write v.line with
  | mk refused sink =>
    rw [taken] at written
    cases refused with
    | none =>
      rw [print_taken taken, print_taken written]
      rfl
    | some refusal =>
      rw [print_refused taken, print_refused written]
      rfl

end Eval.Appends

def appending (start : Moment) : Account start where
  holds x m := x.Appends m
  pure _ _ := rfl
  bind first next := first.bind next
  exhausted _ := rfl
  inside here := here.inside
  nested here := here
  define _ _ _ := rfl
  closure _ _ := rfl
  clock _ := rfl
  lookup _ := .silent .lookup
  assign _ _ := .silent .assign
  unary _ _ := .silent .pin
  binary _ _ _ := .silent .pin
  notCallable _ _ _ _ _ := rfl
  arity _ _ _ _ _ := rfl
  print _ _ := .print _ _

namespace Session

variable (x : Session) (fuel : Nat) (source : String)

def preceded (before : ByteArray) : Session := ⟨x.machine.preceded before⟩

def drained : Session := x.drain.2

theorem drained_preceded : x.drained.preceded x.machine.sink.taken = x := by
  simp only [preceded, drained, drain, Sink.drain, Machine.preceded, ByteArray.append_empty]

theorem run_preceded (before : ByteArray) :
    (x.preceded before).run fuel source =
      ((x.run fuel source).1, (x.run fuel source).2.preceded before) := by
  have interpreted : interpret fuel (parseSource source).statements (x.preceded before).machine =
      onFinal (Machine.preceded before)
        (interpret fuel (parseSource source).statements x.machine) :=
    (appending ⟨fuel, 0, .program _, x.machine⟩).interpret _ .start before
  simp only [run, interpreted]
  split
  · cases interpret fuel (parseSource source).statements x.machine <;> rfl
  · rfl

theorem run_drained :
    (x.drained.run fuel source).1 = (x.run fuel source).1 ∧
    (x.drained.run fuel source).2.drain =
      (x.printedSince (x.run fuel source).2, (x.run fuel source).2.drained) := by
  have run := x.drained.run_preceded fuel source x.machine.sink.taken
  rw [drained_preceded] at run
  rw [run]
  refine ⟨rfl, ?_⟩
  have printed : x.printedSince ((x.drained.run fuel source).2.preceded x.machine.sink.taken) =
      (x.drained.run fuel source).2.machine.sink.taken := by
    exact ByteArray.extract_append_eq_right rfl ByteArray.size_append
  rw [printed]
  rfl

end Session

namespace CommandLine

def withoutReturn (line : List UInt8) : List UInt8 :=
  if line.getLast? = some 13 then line.dropLast else line

/-- The input broken into lines. A line ends with a line feed, and with a carriage return before it
if there is one; only the last line may lack its end, and then it is not empty. -/
inductive Breaks : List UInt8 → List (List UInt8) → Prop
  | done : Breaks [] []
  | last {line : List UInt8} : line ≠ [] → 10 ∉ line → Breaks line [line]
  | line {line rest : List UInt8} {lines : List (List UInt8)} :
    10 ∉ line → Breaks rest lines → Breaks (line ++ 10 :: rest) (withoutReturn line :: lines)

theorem lines_feed (bs : List UInt8) : lines (10 :: bs) = [] :: lines bs :=
  (lines.eq_def (10 :: bs)).trans (if_pos rfl)

theorem lines_return (bs : List UInt8) : lines (13 :: 10 :: bs) = lines (10 :: bs) :=
  (lines.eq_def (13 :: 10 :: bs)).trans (if_neg (by decide))

theorem lines_more {b : UInt8} {bs : List UInt8} (other : b ≠ 10)
    (inner : b = 13 → bs.head? ≠ some 10) :
    lines (b :: bs) = (b :: (lines bs).headD []) :: (lines bs).tail := by
  refine (lines.eq_def (b :: bs)).trans ((if_neg other).trans ?_)
  split
  · exact absurd rfl (inner rfl)
  · next _ none => rw [none]; rfl
  · next _ more => rw [more]; rfl

theorem withoutReturn_cons {b c : UInt8} {line : List UInt8} :
    withoutReturn (b :: c :: line) = b :: withoutReturn (c :: line) := by
  unfold withoutReturn
  rw [List.getLast?_cons_cons]
  split <;> rfl

theorem lines_broken {line : List UInt8} (free : 10 ∉ line) (rest : List UInt8) :
    lines (line ++ 10 :: rest) = withoutReturn line :: lines rest := by
  induction line with
  | nil => exact lines_feed rest
  | cons b line ih =>
    obtain ⟨other, free⟩ := not_or.mp (mt List.mem_cons.mpr free)
    have later := ih free
    cases line with
    | nil =>
      by_cases return' : b = 13
      · rw [return']
        exact (lines_return rest).trans later
      · rw [List.cons_append, lines_more (Ne.symm other) (absurd · return'), later]
        simp [withoutReturn, return']
    | cons c line =>
      have inner : (c :: line ++ 10 :: rest).head? ≠ some 10 := by
        rintro ⟨⟩
        exact free List.mem_cons_self
      rw [List.cons_append, lines_more (Ne.symm other) fun _ => inner, later, withoutReturn_cons]
      rfl

theorem lines_unbroken {line : List UInt8} (free : 10 ∉ line) (nonempty : line ≠ []) :
    lines line = [line] := by
  induction line with
  | nil => exact absurd rfl nonempty
  | cons b line ih =>
    obtain ⟨other, free⟩ := not_or.mp (mt List.mem_cons.mpr free)
    cases line with
    | nil => rw [lines_more (Ne.symm other) fun _ none => by cases none]; rfl
    | cons c line =>
      have inner : (c :: line).head? ≠ some 10 := by
        rintro ⟨⟩
        exact free List.mem_cons_self
      rw [lines_more (Ne.symm other) fun _ => inner, ih free (List.cons_ne_nil c line)]
      rfl

theorem breaks_lines (bs : List UInt8) : Breaks bs (lines bs) := by
  induction size : bs.length using Nat.strongRecOn generalizing bs with
  | ind n ih =>
    -- The first line feed ends the first line.
    by_cases feed : 10 ∈ bs
    · obtain ⟨line, rest, rfl, free⟩ := List.eq_append_cons_of_mem feed
      rw [lines_broken free]
      refine .line free (ih rest.length ?_ rest rfl)
      rw [← size, List.length_append, List.length_cons]
      omega
    · by_cases empty : bs = []
      · rw [empty]
        exact .done
      · rw [lines_unbroken feed empty]
        exact .last empty feed

theorem Breaks.eq_lines {bs : List UInt8} {ls : List (List UInt8)} (breaks : Breaks bs ls) :
    lines bs = ls := by
  induction breaks with
  | done => rfl
  | last nonempty free => exact lines_unbroken free nonempty
  | line free _ ih => rw [lines_broken free, ih]

def encoded (text : String) : List UInt8 := text.toUTF8.data.toList

theorem encoded_eq (text : String) : encoded text = text.toList.flatMap String.utf8EncodeChar := by
  have whole : text.toUTF8 = (text.toList.flatMap String.utf8EncodeChar).toByteArray :=
    String.utf8Encode_toList.symm
  rw [encoded, whole, List.toList_data_toByteArray]

theorem decode_encoded (text : String) : decode ⟨(encoded text).toArray⟩ = .ok text := by
  have valid : text.toUTF8.IsValidUTF8 := text.isValidUTF8
  have read : String.fromUTF8? text.toUTF8 = some text := by
    rw [String.fromUTF8?, dif_pos valid]
    rfl
  have same : (⟨(encoded text).toArray⟩ : ByteArray) = text.toUTF8 := by
    rw [encoded, Array.toArray_toList]
  rw [decode, same, read]

theorem decode_bad {line : List UInt8} (bad : ∀ text, encoded text ≠ line) :
    decode ⟨line.toArray⟩ = .error .notText := by
  have invalid : ¬ (⟨line.toArray⟩ : ByteArray).IsValidUTF8 := fun valid =>
    bad (.fromUTF8 _ valid) rfl
  rw [decode, String.fromUTF8?, dif_neg invalid]

/-- A byte below 128 stands for the character of that number, and for no part of another. -/
theorem char_of_ascii {c : Char} {b : UInt8} (member : b ∈ String.utf8EncodeChar c)
    (ascii : b.toNat < 128) : c.toNat = b.toNat := by
  have low (d mask : UInt8) (large : 128 ≤ mask.toNat) : b ≠ d ||| mask := by
    rintro rfl
    have above : mask.toNat ≤ (d ||| mask).toNat := by
      rw [UInt8.toNat_or]
      exact Nat.right_le_or
    omega
  rcases c.utf8Size_eq with one | two | three | four
  · rw [String.utf8EncodeChar_eq_singleton one, List.mem_singleton] at member
    have small : c.val.toNat ≤ 127 := Char.utf8Size_eq_one_iff.mp one
    rw [member, UInt32.toNat_toUInt8]
    exact (Nat.mod_eq_of_lt (Nat.lt_of_le_of_lt small (by decide))).symm
  · rw [String.utf8EncodeChar_eq_cons_cons two] at member
    simp [low] at member
  · rw [String.utf8EncodeChar_eq_cons_cons_cons three] at member
    simp [low] at member
  · rw [String.utf8EncodeChar_eq_cons_cons_cons_cons four] at member
    simp [low] at member

theorem feed_mem {text : String} (member : 10 ∈ encoded text) : '\n' ∈ text.toList := by
  rw [encoded_eq, List.mem_flatMap] at member
  obtain ⟨c, stands, byte⟩ := member
  have same : c = '\n' := Char.toNat_inj.mp (char_of_ascii byte (by decide))
  rwa [same] at stands

theorem return_last {text : String} (last : (encoded text).getLast? = some 13) :
    text.toList.getLast? = some '\r' := by
  rw [encoded_eq] at last
  rcases List.eq_nil_or_concat text.toList with empty | ⟨before, c, whole⟩
  · rw [empty] at last
    cases last
  · have bytes : (String.utf8EncodeChar c).getLast? =
        some ((String.utf8EncodeChar c).getLast String.utf8EncodeChar_ne_nil) :=
      List.getLast?_eq_some_getLast _
    rw [whole, List.concat_eq_append, List.flatMap_append, List.flatMap_singleton,
      List.getLast?_append, bytes, Option.some_or, ← bytes] at last
    have byte := List.mem_of_getLast? last
    have same : c = '\r' := Char.toNat_inj.mp (char_of_ascii byte (by decide))
    rw [whole, same, List.concat_eq_append, List.getLast?_concat]

theorem breaks_text {text : String} {input : ByteArray} (free : '\n' ∉ text.toList)
    (closed : text.toList.getLast? ≠ some '\r')
    (typed : input = (text ++ "\n").toUTF8 ∨ text ≠ "" ∧ input = text.toUTF8) :
    Breaks input.data.toList [encoded text] := by
  have unbroken : 10 ∉ encoded text := mt feed_mem free
  rcases typed with rfl | ⟨nonempty, rfl⟩
  · have bytes : (text ++ "\n").toUTF8.data.toList = encoded text ++ [10] := by
      change encoded (text ++ "\n") = _
      rw [encoded_eq, encoded_eq, String.toList_append, List.flatMap_append]
      rfl
    have whole : withoutReturn (encoded text) = encoded text := if_neg (mt return_last closed)
    have breaks := Breaks.line unbroken .done
    rwa [whole, ← bytes] at breaks
  · refine .last (fun empty => nonempty ?_) unbroken
    have none : encoded text = [] := empty
    rw [encoded_eq, List.flatMap_eq_nil_iff] at none
    exact String.toList_eq_nil_iff.mp (List.eq_nil_iff_forall_not_mem.mpr fun c member =>
      String.utf8EncodeChar_ne_nil (none c member))

/-- The input gives the lines `texts`, and then `rest`, which starts with a line that is not text if
there is one. -/
def Reads (input : List UInt8) (texts : List String) (rest : List (List UInt8)) : Prop :=
  Breaks input (texts.map encoded ++ rest) ∧ ∀ bad ∈ rest.head?, ∀ text, encoded text ≠ bad

theorem reads_exists (input : List UInt8) : ∃ texts rest, Reads input texts rest := by
  have split (ls : List (List UInt8)) : ∃ (texts : List String) (rest : List (List UInt8)),
      ls = texts.map encoded ++ rest ∧ ∀ bad ∈ rest.head?, ∀ text, encoded text ≠ bad := by
    induction ls with
    | nil => exact ⟨[], [], rfl, fun bad none => by cases none⟩
    | cons l ls ih =>
      by_cases good : ∃ text, encoded text = l
      · obtain ⟨text, rfl⟩ := good
        obtain ⟨texts, rest, rfl, stops⟩ := ih
        exact ⟨text :: texts, rest, rfl, stops⟩
      · refine ⟨[], l :: ls, rfl, ?_⟩
        rintro bad ⟨⟩ text same
        exact good ⟨text, same⟩
  obtain ⟨texts, rest, same, stops⟩ := split (lines input)
  exact ⟨texts, rest, same ▸ breaks_lines input, stops⟩

end CommandLine

/-- What the sources give one after another: as runs of one session, or as listings of each. -/
def Session.replies (x : Session) (action : Action) (sources : List String) : List Run :=
  match action with
  | .run => x.history (sources.map fun source => (plenty, source))
  | .tokens => sources.map fun source =>
    { source, report := (tokenListing source).2, printed := (tokenListing source).1.toUTF8 }
  | .tree => sources.map fun source =>
    { source, report := (treeListing source).2, printed := (treeListing source).1.toUTF8 }

theorem Session.replies_nil (x : Session) (action : Action) : x.replies action [] = [] := by
  cases action <;> rfl

/-- A source at the prompt gives its reply, and leaves the session that the next replies are from
but for the output that was handed over. -/
theorem Session.perform_drained (x : Session) (action : Action) (source : String) :
    ∃ (reply : Run) (next : Session),
      x.drained.perform action source = (reply.printed, reply.report, next.drained) ∧
      ∀ sources, x.replies action (source :: sources) = reply :: next.replies action sources := by
  cases action with
  | run =>
    obtain ⟨report, drain⟩ := x.run_drained plenty source
    refine ⟨⟨source, (x.run plenty source).1, x.printedSince (x.run plenty source).2⟩,
      (x.run plenty source).2, ?_, fun _ => rfl⟩
    simp only [perform, report, drain]
  | tokens => exact ⟨⟨source, _, _⟩, x, rfl, fun _ => rfl⟩
  | tree => exact ⟨⟨source, _, _⟩, x, rfl, fun _ => rfl⟩

namespace CommandLine

def marked (before : ByteArray) (replies : List Run) : ByteArray :=
  replies.foldl (fun output reply => output ++ reply.printed ++ mark.toUTF8) before

def complaints (replies : List Run) : String :=
  String.join ((replies.flatMap (·.report.diagnostics)).map fun d => d.plain ++ "\n")

def farewell : List (List UInt8) → String
  | [] => ""
  | _ :: _ => "Failed to read input: stream did not contain valid UTF-8\n"

variable (layout : SourceDiagnostic → String)

theorem complaints_cons (reply : Run) (replies : List Run) (name source : String) :
    complaints (reply :: replies) =
      reply.report.render .plain layout name source ++ complaints replies := by
  simp only [complaints, List.flatMap_cons, List.map_append, String.join_append]
  rfl

theorem converse_replies {options : Options} (plain : options.style = .plain)
    {rest : List (List UInt8)} (stops : ∀ bad ∈ rest.head?, ∀ text, encoded text ≠ bad)
    (texts : List String) (x : Session) (t : Transcript) :
    converse layout options x.drained (texts.map encoded ++ rest) t =
      { t with
        output := marked (t.output ++ mark.toUTF8) (x.replies options.action texts)
        errors := t.errors ++ complaints (x.replies options.action texts) ++ farewell rest } := by
  -- By induction on the lines that are text, for any session and transcript so far.
  induction texts generalizing x t with
  | nil =>
    rw [x.replies_nil]
    cases rest with
    | nil => simp only [List.map_nil, List.nil_append, converse, marked, complaints, farewell,
        List.foldl_nil, List.flatMap_nil, String.join_nil, String.append_empty]
    | cons bad more =>
      have answered : answer layout options x.drained ⟨bad.toArray⟩ =
          (.empty, farewell (bad :: more), none) := by
        rw [answer, decode_bad (stops bad rfl)]
        rfl
      simp only [List.map_nil, List.nil_append, converse, answered, marked, complaints,
        List.foldl_nil, List.flatMap_nil, String.join_nil, String.append_empty,
        ByteArray.append_empty]
  | cons text texts ih =>
    obtain ⟨reply, next, performed, replies⟩ := x.perform_drained options.action text
    have answered : answer layout options x.drained ⟨(encoded text).toArray⟩ =
        (reply.printed, reply.report.render .plain layout "<prompt>" text,
          some next.drained) := by
      simp only [answer, decode_encoded, performed, plain]
    have said := complaints_cons layout reply (next.replies options.action texts) "<prompt>" text
    simp only [List.map_cons, List.cons_append, converse, answered, ih, replies, said, marked,
      List.foldl_cons, String.append_assoc]

variable {arguments : List String} {style : Option String} {options : Options}

theorem run_prompt (accepted : Options.parse arguments style = .ok options)
    (prompts : options.input = .prompt) (plain : options.style = .plain)
    (read : String → Except AccessError ByteArray) {input : ByteArray} {texts : List String}
    {rest : List (List UInt8)} (reads : Reads input.data.toList texts rest) (clock : Clock) :
    run arguments style read input clock layout =
      { output := marked mark.toUTF8 ((Session.start {} clock).replies options.action texts)
        errors := complaints ((Session.start {} clock).replies options.action texts) ++
          farewell rest
        status := 0 } := by
  have spoken := converse_replies layout plain reads.2 texts (.start {} clock) {}
  simp only [ByteArray.empty_append, String.empty_append] at spoken
  simp only [run, accepted, prompts, prompt, reads.1.eq_lines]
  exact spoken

theorem run_script {path text : String} {action : Action}
    (accepted : Options.parse arguments style = .ok ⟨.script path, action, .plain⟩)
    {read : String → Except AccessError ByteArray} (stored : read path = .ok text.toUTF8)
    (input : ByteArray) (clock : Clock) :
    ∃ reply, (Session.start {} clock).replies action [text] = [reply] ∧
      run arguments style read input clock layout =
        { output := reply.printed
          errors := complaints [reply]
          status := reply.report.outcome.exitCode } := by
  obtain ⟨reply, next, performed, replies⟩ :=
    (Session.start {} clock).perform_drained action text
  have decoded : (Except.ok text.toUTF8 >>= decode) = .ok text := decode_encoded text
  have same : (Session.start {} clock).drained = .start {} clock := rfl
  rw [same] at performed
  refine ⟨reply, by rw [replies, next.replies_nil], ?_⟩
  have alone : complaints [reply] = reply.report.render .plain layout path text :=
    (complaints_cons layout reply [] path text).trans String.append_empty
  simp only [run, accepted, script, stored, decoded, performed, alone]

end CommandLine

open CommandLine

/-- The prompt is a session run line by line. What it writes is told by the replies to the lines
that it reads, whatever they are, and its status is 0. A script of one line has the output and the
errors of that line at the prompt, and a status by its outcome. -/
theorem prompt_is_session_by_lines {arguments : List String} {style : Option String}
    {options : Options} (accepted : Options.parse arguments style = .ok options)
    (prompts : options.input = .prompt) (plain : options.style = .plain)
    (read : String → Except AccessError ByteArray) (clock : Clock)
    (layout : SourceDiagnostic → String) :
    (∀ input : ByteArray,
      (∃ texts rest, Reads input.data.toList texts rest) ∧
      ∀ texts rest, Reads input.data.toList texts rest →
        CommandLine.run arguments style read input clock layout =
          { output := marked mark.toUTF8 ((Session.start {} clock).replies options.action texts)
            errors := complaints ((Session.start {} clock).replies options.action texts) ++
              farewell rest
            status := 0 }) ∧
    ∀ (text path : String) (files : String → Except AccessError ByteArray)
      (others : List String) (default : Option String) (typed input : ByteArray),
      '\n' ∉ text.toList → text.toList.getLast? ≠ some '\r' →
      typed = (text ++ "\n").toUTF8 ∨ text ≠ "" ∧ typed = text.toUTF8 →
      Options.parse others default = .ok ⟨.script path, options.action, .plain⟩ →
      files path = .ok text.toUTF8 →
      ∃ reply, (Session.start {} clock).replies options.action [text] = [reply] ∧
        (let prompted := CommandLine.run arguments style read typed clock layout
        let scripted := CommandLine.run others default files input clock layout
        prompted.output = mark.toUTF8 ++ scripted.output ++ mark.toUTF8 ∧
          prompted.errors = scripted.errors ∧ prompted.status = 0 ∧
          scripted.status = reply.report.outcome.exitCode ∧
          (reply.report.outcome ≠ .exhausted → (reply.report.outcome, scripted.status) ∈
            [(.success, 0), (.staticError, 65), (.runtimeError, 70)])) := by
  refine ⟨fun input => ⟨reads_exists _, fun texts rest reads =>
    run_prompt layout accepted prompts plain read reads clock⟩, ?_⟩
  intro text path files others default typed input free closed only scripts stored
  obtain ⟨reply, replies, scripted⟩ := run_script layout scripts stored input clock
  have reads : Reads typed.data.toList [text] [] :=
    ⟨breaks_text free closed only, fun bad none => by cases none⟩
  have prompted := run_prompt layout accepted prompts plain read reads clock
  rw [replies] at prompted
  refine ⟨reply, replies, ?_⟩
  rw [prompted, scripted]
  refine ⟨rfl, String.append_empty, rfl, rfl, ?_⟩
  cases reply.report.outcome <;> simp [Outcome.exitCode]

theorem prompt_is_session_by_lines_after_fault :
    let typed := encoded "var a;\nprint b;\r\nprint a;\n" ++ [255, 10]
    let prompted (input : ByteArray) :=
      CommandLine.run [] (some " Plain") (fun _ => .error .notFound) input default
    let scripted := CommandLine.run ["b.lox"] none (fun _ => .ok "print b;".toUTF8) .empty default
    Reads typed ["var a;", "print b;", "print a;"] [[255]] ∧
      (prompted ⟨typed.toArray⟩).output = "> > > nil\n> ".toUTF8 ∧
      (prompted ⟨typed.toArray⟩).status = 0 ∧
      (prompted "print b;\n".toUTF8).errors = scripted.errors ∧ scripted.status = 70 := by
  intro typed prompted scripted
  have accepted : Options.parse [] (some " Plain") = .ok ⟨.prompt, .run, .plain⟩ := by
    with_unfolding_all rfl
  obtain ⟨told, alone⟩ := prompt_is_session_by_lines accepted rfl rfl
    (fun _ => .error .notFound) default SourceDiagnostic.record
  have breaks : lines typed = ["var a;", "print b;", "print a;"].map encoded ++ [[255]] := by
    decide +kernel
  have bad (text : String) : encoded text ≠ [255] := by
    intro same
    have read := decode_encoded text
    rw [same] at read
    have unread : (decode ⟨#[255]⟩).toOption = none := by decide +kernel
    rw [read] at unread
    cases unread
  have reads : Reads typed ["var a;", "print b;", "print a;"] [[255]] :=
    ⟨breaks ▸ breaks_lines typed, fun _ same => Option.some.inj same ▸ bad⟩
  have output : marked mark.toUTF8
      ((Session.start {} default).replies .run ["var a;", "print b;", "print a;"]) =
        "> > > nil\n> ".toUTF8 := by
    decide +kernel
  have whole := (told ⟨typed.toArray⟩).2 _ _ reads
  obtain ⟨reply, replies, -, errors, -, status, -⟩ := alone "print b;" "b.lox"
    (fun _ => .ok "print b;".toUTF8) ["b.lox"] none _ .empty (by decide +kernel) (by decide +kernel)
    (.inl rfl) (by with_unfolding_all rfl) rfl
  have outcome : ((Session.start {} default).replies .run ["print b;"]).map
      (·.report.outcome.exitCode) = [70] := by
    decide +kernel
  rw [replies] at outcome
  exact ⟨reads, (congrArg Transcript.output whole).trans output, congrArg Transcript.status whole,
    errors, status.trans (List.cons.inj outcome).1⟩

end Treewalk
