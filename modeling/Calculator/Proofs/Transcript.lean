import Calculator.Console.Run
import Calculator.Proofs.Lines

/-!
What a run writes.

On a sink that takes everything, each line costs a run one exchange: the prompt, and what stands
behind it. Whether the run goes on is the business of this one line. So the run over a text writes
a transcript that can be told line by line, and nothing but the text decides what is in it.
-/

set_option autoImplicit false

namespace Calculator

namespace Sink

theorem append_written (written : Array UInt8) (first second : List UInt8) :
    written ++ first ++ second = written ++ (first ++ second) := by
  apply Array.toList_inj.mp
  rw [Array.toList_appendList, Array.toList_appendList, Array.toList_appendList,
    List.append_assoc]

theorem write_unlimited (written : Array UInt8) (bytes : List UInt8) :
    write ⟨written, none⟩ bytes = .ok ⟨written ++ bytes, none⟩ := by
  simp [write, accepted]

theorem write_nothing (sink : Sink) : sink.write [] = .ok sink := by
  obtain ⟨written, limit⟩ := sink
  cases limit <;> simp [write, accepted]

end Sink

namespace Console

variable (evaluator : Evaluator)

/-- Whether a line of text asks to leave: its characters that are not white space spell the word, in
letters of either case. -/
def AsksToLeave (line : List Char) : Prop :=
  List.Forall₂ (fun written letter => written = letter ∨ written = letter.toUpper)
    (WhiteSpace.strip line) "exit".toList

instance : DecidablePred AsksToLeave := fun _ =>
  inferInstanceAs (Decidable (List.Forall₂ _ _ _))

def response (line : List Char) : List Char :=
  match evaluator.evaluate (WhiteSpace.strip line) with
  | .ok value => "Result: ".toList ++ Binary64.text value
  | .error error => "Error: ".toList ++ error.message

/-- The prompt for a line and what is written behind it: the answer to a text that does not ask to
leave, and nothing if the line is not text. -/
def exchange (line : List UInt8) : List UInt8 :=
  Utf8.encode prompt ++
    match Utf8.decode? line with
    | none => []
    | some text =>
        Utf8.encode ((if AsksToLeave text then farewell else response evaluator text) ++ ['\n'])

/-- What is written about lines of text: a prompt and an answer for each before the first that asks
to leave, and a last prompt, with the farewell if there is such a line. -/
def conversation (lines : List (List Char)) : List Char :=
  (lines.takeWhile fun line => !decide (AsksToLeave line)).flatMap
      (fun line => prompt ++ response evaluator line ++ ['\n']) ++
    prompt ++ (if ∃ line ∈ lines, AsksToLeave line then farewell else []) ++ ['\n']

def transcript (text : List Char) : List Char :=
  banner ++ ['\n'] ++ hint ++ ['\n'] ++ conversation evaluator (linesOf text)

theorem toLower_eq_iff {written letter : Char} (small : letter.isLower = true) :
    written.toLower = letter ↔ written = letter ∨ written = letter.toUpper := by
  have bounds : 97 ≤ letter.val.toNat ∧ letter.val.toNat ≤ 122 := by
    unfold Char.isLower at small
    simpa [UInt32.le_iff_toNat_le] using small
  have upper : letter.toUpper.val.toNat = letter.val.toNat - 32 := by
    have inRange : 'a'.val ≤ letter.val ∧ letter.val ≤ 'z'.val := by
      simpa [UInt32.le_iff_toNat_le] using bounds
    have constant : ('A'.val - 'a'.val).toNat = 2 ^ 32 - 32 := rfl
    unfold Char.toUpper
    simp only [dif_pos inRange, UInt32.toNat_add]
    omega
  simp only [Char.ext_iff, ← UInt32.toNat_inj, upper]
  unfold Char.toLower
  split
  case isTrue large =>
    have range : 65 ≤ written.val.toNat ∧ written.val.toNat ≤ 90 := by
      simpa [UInt32.le_iff_toNat_le] using large
    have constant : ('a'.val - 'A'.val).toNat = 32 := rfl
    simp only [UInt32.toNat_add, constant]
    omega
  case isFalse notLarge =>
    have range : ¬(65 ≤ written.val.toNat ∧ written.val.toNat ≤ 90) := by
      simpa [UInt32.le_iff_toNat_le] using notLarge
    omega

theorem map_toLower_eq_iff {word : List Char} (small : ∀ letter ∈ word, letter.isLower = true)
    (text : List Char) :
    text.map Char.toLower = word ↔
      List.Forall₂ (fun written letter => written = letter ∨ written = letter.toUpper)
        text word := by
  induction word generalizing text with
  | nil => simp
  | cons letter word ih =>
      have first := small letter List.mem_cons_self
      have others := ih fun other member => small other (List.mem_cons_of_mem _ member)
      cases text with
      | nil => simp
      | cons written text =>
          simp only [List.map_cons, List.cons.injEq, List.forall₂_cons, toLower_eq_iff first,
            others]

theorem isExit_strip_iff (line : List Char) :
    isExit (WhiteSpace.strip line) = true ↔ AsksToLeave line := by
  have small : "exit".toList.all Char.isLower = true := rfl
  rw [isExit, beq_iff_eq]
  exact map_toLower_eq_iff (List.all_eq_true.mp small) _

theorem exchange_eq_turn (line : List UInt8) :
    exchange evaluator line = Utf8.encode prompt ++ (turn evaluator line).said := by
  simp only [exchange, turn, reply]
  cases Utf8.decode? line with
  | none => rfl
  | some text =>
      simp only [isExit_strip_iff]
      by_cases leaves : AsksToLeave text
      · simp only [leaves, if_true, lineOf]
      · simp only [leaves, if_false]
        rfl

theorem converse_nothing (written : Array UInt8) :
    converse evaluator ⟨written, none⟩ [] =
      ⟨.ok (), evaluator, [], written ++ Utf8.encode prompt ++ lineOf [], none⟩ := by
  simp only [converse, Sink.write_unlimited, close]

theorem converse_line (written : Array UInt8) (line : List UInt8) (unread : List (List UInt8)) :
    converse evaluator ⟨written, none⟩ (line :: unread) =
      (turn evaluator line).result.elim
        (converse evaluator ⟨written ++ exchange evaluator line, none⟩ unread) fun result =>
          ⟨result, evaluator, unread, written ++ exchange evaluator line, none⟩ := by
  simp only [converse, Sink.write_unlimited, Sink.append_written, exchange_eq_turn]
  cases (turn evaluator line).result with
  | none => rfl
  | some result => rfl

theorem run_unlimited (unread : List (List UInt8)) (written : Array UInt8) :
    run ⟨evaluator, unread, written, none⟩ =
      converse evaluator ⟨written ++ greeting, none⟩ unread := by
  simp only [run, Sink.write_unlimited]

theorem strip_line_feed (line : List Char) :
    WhiteSpace.strip (line ++ ['\n']) = WhiteSpace.strip line := by
  have blank : WhiteSpace.strip ['\n'] = [] := rfl
  rw [WhiteSpace.strip_append, blank, List.append_nil]

theorem reply_to_line {line : List Char} {bytes : List UInt8}
    (spelled : bytes = Utf8.encode line ∨ bytes = lineOf line) :
    reply evaluator bytes =
      if AsksToLeave line then .farewell else .answer (response evaluator line) := by
  have heard : ∃ whole, Utf8.decode? bytes = some whole ∧
      WhiteSpace.strip whole = WhiteSpace.strip line := by
    rcases spelled with rfl | rfl
    · exact ⟨line, Utf8.decode?_encode line, rfl⟩
    · exact ⟨line ++ ['\n'], Utf8.decode?_encode _, strip_line_feed line⟩
  obtain ⟨whole, read, same⟩ := heard
  simp only [reply, read, same, isExit_strip_iff]
  rfl

theorem conversation_cons (line : List Char) (lines : List (List Char)) :
    conversation evaluator (line :: lines) =
      if AsksToLeave line then prompt ++ farewell ++ ['\n']
      else prompt ++ response evaluator line ++ ['\n'] ++ conversation evaluator lines := by
  by_cases leaves : AsksToLeave line <;> simp [conversation, leaves]

/-- The induction is on the lines, and nothing that was written before has a part in it. -/
theorem converse_writes_conversation {lines : List (List Char)} {unread : List (List UInt8)}
    (spelled : List.Forall₂ (fun line bytes => bytes = Utf8.encode line ∨ bytes = lineOf line)
      lines unread) (written : Array UInt8) :
    let ending := converse evaluator ⟨written, none⟩ unread
    ending.result = .ok () ∧
      ending.console.sink.written.toList =
        written.toList ++ Utf8.encode (conversation evaluator lines) := by
  induction spelled generalizing written with
  | nil =>
      rw [converse_nothing]
      refine ⟨rfl, ?_⟩
      simp [Array.toList_appendList, conversation, lineOf, Utf8.encode_append]
  | @cons line bytes lines unread first later ih =>
      have replied := reply_to_line evaluator first
      rw [converse_line, conversation_cons]
      by_cases leaves : AsksToLeave line
      · rw [if_pos leaves] at replied ⊢
        simp only [turn, exchange_eq_turn, replied, Option.elim]
        refine ⟨trivial, ?_⟩
        simp only [Array.toList_appendList, lineOf, Utf8.encode_append, List.append_assoc]
      · rw [if_neg leaves] at replied ⊢
        simp only [turn, exchange_eq_turn, replied, Option.elim]
        obtain ⟨ended, wrote⟩ := ih (written ++ (Utf8.encode prompt ++
          lineOf (response evaluator line)))
        refine ⟨ended, ?_⟩
        rw [wrote]
        simp only [Array.toList_appendList, lineOf, Utf8.encode_append, List.append_assoc]

theorem run_over_text (text : List Char) :
    let ending := (ofInput evaluator (Utf8.encode text) Sink.unlimited).run
    ending.result = .ok () ∧
      ending.console.sink.written.toList = Utf8.encode (transcript evaluator text) := by
  have spelled := converse_writes_conversation evaluator (lines_encode text)
    ((#[] : Array UInt8) ++ greeting)
  simp only [ofInput, Sink.unlimited, run_unlimited]
  refine ⟨spelled.1, ?_⟩
  rw [spelled.2]
  simp only [Array.toList_appendList, List.nil_append, greeting, lineOf, transcript,
    Utf8.encode_append, List.append_assoc]

/-- A run over readable bytes ends well and leaves the transcript of their text on the sink. -/
theorem run_writes_transcript {input : List UInt8} {text : List Char}
    (readable : Utf8.decode? input = some text) :
    let ending := (ofInput evaluator input Sink.unlimited).run
    ending.result = .ok () ∧
      ending.console.sink.written.toList = Utf8.encode (transcript evaluator text) := by
  rw [← Utf8.encode_of_decode? readable]
  exact run_over_text evaluator text

/-- An error, a blank line, a line that asks to leave in its own way, and a line behind it. -/
theorem run_writes_transcript_of_five_lines :
    let text := "1/0\n \t\n2 * 3\ne X\u00a0i\tT\n1".toList
    let ending := (ofInput Evaluator.standard (Utf8.encode text) Sink.unlimited).run
    Utf8.decode? (Utf8.encode text) = some text ∧ ending.result = .ok () ∧
      ending.console.sink.written.toList = Utf8.encode (banner ++ ['\n'] ++ hint ++ ['\n'] ++
        prompt ++ "Error: Cannot divide by zero\n".toList ++
        prompt ++ "Error: Invalid expression format\n".toList ++
        prompt ++ "Result: 6.0\n".toList ++ prompt ++ farewell ++ ['\n']) := by
  intro text
  have readable : Utf8.decode? (Utf8.encode text) = some text := Utf8.decode?_encode text
  have told : transcript Evaluator.standard text = banner ++ ['\n'] ++ hint ++ ['\n'] ++
      prompt ++ "Error: Cannot divide by zero\n".toList ++
      prompt ++ "Error: Invalid expression format\n".toList ++
      prompt ++ "Result: 6.0\n".toList ++ prompt ++ farewell ++ ['\n'] := by
    decide +kernel
  have wrote := run_writes_transcript Evaluator.standard readable
  rw [told] at wrote
  exact ⟨readable, wrote⟩

end Console

end Calculator
