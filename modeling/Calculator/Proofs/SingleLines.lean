import Calculator.Proofs.Legibility
import Calculator.Proofs.Transcript

/-!
One answer, one line.

An error that names a character names one that the text may not contain, and a line break is not
among those; an error that names a literal names digits and points. So no message breaks a line,
and no value does. What a run writes is then cut by its line feeds into what it said: the greeting
in two pieces, each answer behind its prompt, and the end. The input decides what the answers are,
but not where one of them ends.
-/

set_option autoImplicit false

namespace Calculator

namespace Decimal

theorem line_feed_not_mem_toDigits (number : Nat) : '\n' ∉ Nat.toDigits 10 number := by
  intro member
  have digit := Nat.isDigit_of_mem_toDigits (by decide) (by decide) member
  exact absurd digit (by decide)

theorem line_feed_not_mem_positional (decimal : Decimal) : '\n' ∉ decimal.positional := by
  simp [positional, List.leftpad, line_feed_not_mem_toDigits]

theorem line_feed_not_mem_signed (number : Int) : '\n' ∉ signed number := by
  unfold signed
  split <;> simp [line_feed_not_mem_toDigits]

theorem line_feed_not_mem_scientific (decimal : Decimal) : '\n' ∉ decimal.scientific := by
  have digits := line_feed_not_mem_toDigits decimal.digits
  unfold scientific
  split
  case h_1 => simp
  case h_2 first others same =>
    rw [same] at digits
    have behindPoint : '\n' ∉ (if others.isEmpty then [] else '.' :: others) := by
      split <;> simp_all
    simp_all [line_feed_not_mem_signed]

end Decimal

theorem Binary64.line_feed_not_mem_text (value : Float) : '\n' ∉ text value := by
  have magnitude (rank : Nat) : '\n' ∉ magnitudeText rank := by
    unfold magnitudeText
    split
    case isTrue => decide
    case isFalse =>
      split
      · exact Decimal.line_feed_not_mem_positional _
      · exact Decimal.line_feed_not_mem_scientific _
  unfold text
  split
  case isTrue => decide
  case isFalse => split <;> simp [magnitude]

namespace Evaluator

open Lexeme

/-- A character that an error names is foreign to all texts, and the literal that it names is made of
digits and points. -/
theorem break_not_mem_message {evaluator : Evaluator} {text : List Char}
    {error : CalculationError} {character : Char} (breaks : character = '\n' ∨ character = '\r')
    (failed : evaluator.evaluate text = .error error) : character ∉ error.message := by
  cases error with
  | invalidCharacter other position =>
      have label : character ∉ "Invalid character in expression: ".toList := by
        rcases breaks with rfl | rfl <;> decide +kernel
      rcases fault_of_evaluate failed (.character other position) with ⟨before, fault, _⟩
      cases fault with
      | character parts foreign =>
          have different : character ≠ other := by
            rintro rfl
            rcases breaks with rfl | rfl <;> exact foreign (by decide)
          change character ∉ "Invalid character in expression: ".toList ++ [other]
          rw [List.mem_append, not_or, List.mem_singleton]
          exact ⟨label, different⟩
  | invalidNumber literal position =>
      have label : character ∉ "Invalid number: ".toList := by
        rcases breaks with rfl | rfl <;> decide +kernel
      rcases fault_of_evaluate failed (.number literal position) with ⟨before, fault, _⟩
      cases fault with
      | number maximal invalid =>
          have outside : character ∉ literal := by
            intro member
            have digit := maximal.literal character member
            rcases breaks with rfl | rfl <;> exact absurd digit (by decide)
          change character ∉ "Invalid number: ".toList ++ literal
          rw [List.mem_append, not_or]
          exact ⟨label, outside⟩
  | mismatchedParentheses => rcases breaks with rfl | rfl <;> decide +kernel
  | missingOperand operator =>
      change character ∉ "Invalid expression".toList
      rcases breaks with rfl | rfl <;> decide +kernel
  | operandCount count =>
      change character ∉ "Invalid expression format".toList
      rcases breaks with rfl | rfl <;> decide +kernel
  | divisionByZero => rcases breaks with rfl | rfl <;> decide +kernel

end Evaluator

theorem Sink.written_of_write {sink after : Sink} {bytes : List UInt8}
    (done : sink.write bytes = .ok after) : after.written = sink.written ++ bytes := by
  rcases sink with ⟨written, limit⟩
  simp only [write] at done
  split at done
  case isTrue => cases done
  case isFalse fits =>
    have whole : accepted ⟨written, limit⟩ bytes = bytes := by
      cases limit with
      | none => rfl
      | some limit =>
          simp only [accepted, List.length_take] at fits ⊢
          exact List.take_of_length_le (by omega)
    rw [whole] at done
    cases done
    rfl

namespace Console

theorem line_feed_not_mem_encode {text : List Char} (single : '\n' ∉ text) :
    10 ∉ Utf8.encode text := by
  intro member
  rcases List.mem_flatMap.mp member with ⟨character, inside, byte⟩
  rw [Utf8.line_feed_of_mem byte] at inside
  exact single inside

theorem lineOf_eq (text : List Char) : lineOf text = Utf8.encode text ++ [10] :=
  Utf8.encode_append text ['\n']

theorem lines_lineOf {text : List Char} (single : '\n' ∉ text) (bytes : List UInt8) :
    lines (lineOf text ++ bytes) = lineOf text :: lines bytes := by
  have feed : lines ([10] ++ bytes) = [10] :: lines bytes := lines_line_feed bytes
  rw [lineOf_eq, List.append_assoc]
  by_cases empty : Utf8.encode text = []
  · rw [empty]
    exact feed
  · rw [lines_append _ empty (line_feed_not_mem_encode single), feed]

theorem count_lineOf {text : List Char} (single : '\n' ∉ text) : (lineOf text).count 10 = 1 := by
  rw [lineOf_eq, List.count_append,
    List.count_eq_zero_of_not_mem (line_feed_not_mem_encode single)]
  rfl

theorem lines_flatMap_lineOf {texts : List (List Char)} (single : ∀ text ∈ texts, '\n' ∉ text) :
    lines (texts.flatMap lineOf) = texts.map lineOf ∧
      (texts.flatMap lineOf).count 10 = texts.length := by
  induction texts with
  | nil => exact ⟨rfl, rfl⟩
  | cons text texts ih =>
      rcases List.forall_mem_cons.mp single with ⟨first, others⟩
      rcases ih others with ⟨cut, counted⟩
      constructor
      · rw [List.flatMap_cons, lines_lineOf first, cut, List.map_cons]
      · rw [List.flatMap_cons, List.count_append, count_lineOf first, counted, List.length_cons,
          Nat.add_comm]

variable {evaluator : Evaluator}

theorem line_feed_not_mem_response (evaluator : Evaluator) (line : List Char) :
    '\n' ∉ response evaluator line := by
  unfold response
  split
  case h_1 value _ =>
    have shown := Binary64.line_feed_not_mem_text value
    rw [List.mem_append, not_or]
    exact ⟨by decide, shown⟩
  case h_2 error failed =>
    have told := Evaluator.break_not_mem_message (Or.inl rfl) failed
    rw [List.mem_append, not_or]
    exact ⟨by decide, told⟩

/-- The lines that are read until one asks to leave or the input ends: the texts of those that are
answered, what is said at the end, and the lines that are left. -/
inductive Hears : List (List UInt8) → List (List Char) → List Char → List (List UInt8) → Prop where
  | ended : Hears [] [] [] []
  | left {line : List UInt8} {text : List Char} {unread : List (List UInt8)}
      (read : Utf8.decode? line = some text) (asks : AsksToLeave text) :
      Hears (line :: unread) [] farewell unread
  | answered {line : List UInt8} {text : List Char} {waiting unread : List (List UInt8)}
      {texts : List (List Char)} {closing : List Char} (read : Utf8.decode? line = some text)
      (stays : ¬AsksToLeave text) (later : Hears waiting texts closing unread) :
      Hears (line :: waiting) (text :: texts) closing unread

theorem Hears.closing_cases {waiting unread : List (List UInt8)} {texts : List (List Char)}
    {closing : List Char} (hears : Hears waiting texts closing unread) :
    closing = [] ∨ closing = farewell := by
  induction hears with
  | ended => exact Or.inl rfl
  | left read asks => exact Or.inr rfl
  | answered read stays later ih => exact ih

def utterances (evaluator : Evaluator) (texts : List (List Char)) (closing : List Char) :
    List (List Char) :=
  texts.map (fun text => prompt ++ response evaluator text) ++ [prompt ++ closing]

theorem written_of_exchange {sink prompted after : Sink} {text : List Char}
    (shown : sink.write (Utf8.encode prompt) = .ok prompted)
    (done : prompted.write (lineOf text) = .ok after) :
    after.written = sink.written ++ lineOf (prompt ++ text) := by
  have together : Utf8.encode prompt ++ lineOf text = lineOf (prompt ++ text) := by
    rw [lineOf_eq, lineOf_eq, Utf8.encode_append, List.append_assoc]
  rw [Sink.written_of_write done, Sink.written_of_write shown, Sink.append_written, together]

theorem closed_well {sink prompted : Sink} {text : List Char} {unread : List (List UInt8)}
    (shown : sink.write (Utf8.encode prompt) = .ok prompted)
    (ended : (close evaluator unread (prompted.write (lineOf text))).result = .ok ()) :
    ∃ after, after.written = sink.written ++ lineOf (prompt ++ text) ∧
      close evaluator unread (prompted.write (lineOf text)) =
        ⟨.ok (), evaluator, unread, after⟩ := by
  cases done : prompted.write (lineOf text) with
  | error full =>
      rw [done] at ended
      cases ended
  | ok after => exact ⟨after, written_of_exchange shown done, rfl⟩

theorem converse_nothing_well {sink : Sink}
    (ended : (converse evaluator sink []).result = .ok ()) :
    ∃ after, after.written = sink.written ++ lineOf (prompt ++ []) ∧
      converse evaluator sink [] = ⟨.ok (), evaluator, [], after⟩ := by
  simp only [converse] at ended ⊢
  cases shown : sink.write (Utf8.encode prompt) with
  | error full =>
      rw [shown] at ended
      cases ended
  | ok prompted =>
      rw [shown] at ended
      exact closed_well shown ended

/-- Of a run that ends well, the next line is text. It ends the run, or it is answered and the run
goes on behind the answer. -/
theorem converse_line_well {sink : Sink} {line : List UInt8} {unread : List (List UInt8)}
    (ended : (converse evaluator sink (line :: unread)).result = .ok ()) :
    ∃ text, Utf8.decode? line = some text ∧
      ((AsksToLeave text ∧ ∃ after, after.written = sink.written ++ lineOf (prompt ++ farewell) ∧
          converse evaluator sink (line :: unread) = ⟨.ok (), evaluator, unread, after⟩) ∨
        (¬AsksToLeave text ∧ ∃ after,
          after.written = sink.written ++ lineOf (prompt ++ response evaluator text) ∧
          converse evaluator sink (line :: unread) = converse evaluator after unread)) := by
  simp only [converse] at ended ⊢
  cases shown : sink.write (Utf8.encode prompt) with
  | error full =>
      rw [shown] at ended
      cases ended
  | ok prompted =>
      rw [shown] at ended
      cases read : Utf8.decode? line with
      | none =>
          simp only [turn, reply, read, Sink.write_nothing] at ended
          cases ended
      | some text =>
          have replied := reply_to_line evaluator (Or.inl (Utf8.encode_of_decode? read).symm)
          refine ⟨text, rfl, ?_⟩
          by_cases leaves : AsksToLeave text
          · rw [if_pos leaves] at replied
            simp only [turn, replied] at ended ⊢
            cases done : prompted.write (lineOf farewell) with
            | error full =>
                rw [done] at ended
                cases ended
            | ok after => exact Or.inl ⟨leaves, after, written_of_exchange shown done, rfl⟩
          · rw [if_neg leaves] at replied
            simp only [turn, replied] at ended ⊢
            cases done : prompted.write (lineOf (response evaluator text)) with
            | error full =>
                rw [done] at ended
                cases ended
            | ok after => exact Or.inr ⟨leaves, after, written_of_exchange shown done, rfl⟩

/-- The induction is on the lines that wait, over any sink that they find. -/
theorem converse_says (waiting : List (List UInt8)) {sink : Sink}
    (ended : (converse evaluator sink waiting).result = .ok ()) :
    ∃ texts closing,
      Hears waiting texts closing (converse evaluator sink waiting).console.unread ∧
      (converse evaluator sink waiting).console.sink.written =
        sink.written ++ (utterances evaluator texts closing).flatMap lineOf := by
  induction waiting generalizing sink with
  | nil =>
      rcases converse_nothing_well ended with ⟨after, wrote, behaves⟩
      rw [behaves]
      exact ⟨[], [], .ended, by simp [utterances, wrote]⟩
  | cons line unread ih =>
      rcases converse_line_well ended with
        ⟨text, read, ⟨leaves, after, wrote, behaves⟩ | ⟨stays, after, wrote, behaves⟩⟩
      · rw [behaves]
        exact ⟨[], farewell, .left read leaves, by simp [utterances, wrote]⟩
      · rw [behaves] at ended ⊢
        rcases ih ended with ⟨texts, closing, hears, said⟩
        refine ⟨text :: texts, closing, .answered read stays hears, ?_⟩
        rw [said, wrote, Sink.append_written]
        rfl

theorem run_says {console : Console} (ended : console.run.result = .ok ()) :
    ∃ texts closing, Hears console.unread texts closing console.run.console.unread ∧
      console.run.console.sink.written = console.sink.written ++
        (banner :: hint :: utterances console.evaluator texts closing).flatMap lineOf := by
  simp only [run] at ended ⊢
  cases greeted : console.sink.write greeting with
  | error full =>
      rw [greeted] at ended
      cases ended
  | ok after =>
      rw [greeted] at ended
      simp only at ended ⊢
      rcases converse_says console.unread ended with ⟨texts, closing, hears, wrote⟩
      refine ⟨texts, closing, hears, ?_⟩
      rw [wrote, Sink.written_of_write greeted, Sink.append_written, greeting,
        List.flatMap_cons, List.flatMap_cons, List.append_assoc]

theorem line_feed_not_mem_utterances (evaluator : Evaluator) {waiting unread : List (List UInt8)}
    {texts : List (List Char)} {closing : List Char} (hears : Hears waiting texts closing unread) :
    ∀ text ∈ banner :: hint :: utterances evaluator texts closing, '\n' ∉ text := by
  have asked : '\n' ∉ prompt := by decide +kernel
  have ends : '\n' ∉ closing := by
    rcases hears.closing_cases with rfl | rfl <;> decide +kernel
  intro text member
  simp only [utterances, List.mem_cons, List.mem_append, List.mem_map, List.not_mem_nil,
    or_false] at member
  rcases member with rfl | rfl | ⟨line, _, rfl⟩ | rfl
  · decide +kernel
  · decide +kernel
  · rw [List.mem_append, not_or]
    exact ⟨asked, line_feed_not_mem_response evaluator line⟩
  · rw [List.mem_append, not_or]
    exact ⟨asked, ends⟩

/-- No message breaks a line. So what a run has written, cut behind its line feeds, is the greeting
in two pieces, a piece for each line that it answered, and one for its end. -/
theorem answers_are_single_lines :
    (∀ (evaluator : Evaluator) (text : List Char) (error : CalculationError),
      evaluator.evaluate text = .error error →
        '\n' ∉ error.message ∧ '\r' ∉ error.message) ∧
    ∀ console : Console, console.run.result = .ok () →
      ∃ (texts : List (List Char)) (closing : List Char) (output : List UInt8),
        Hears console.unread texts closing console.run.console.unread ∧
        console.run.console.sink.written = console.sink.written ++ output ∧
        output.count 10 = 3 + texts.length ∧
        lines output = [lineOf banner, lineOf hint] ++
          texts.map (fun text => lineOf (prompt ++ response console.evaluator text)) ++
          [lineOf (prompt ++ closing)] := by
  constructor
  · intro evaluator text error failed
    have feed := Evaluator.break_not_mem_message (Or.inl rfl) failed
    have feedBack := Evaluator.break_not_mem_message (Or.inr rfl) failed
    exact ⟨feed, feedBack⟩
  · intro console ended
    rcases run_says ended with ⟨texts, closing, hears, wrote⟩
    have single := line_feed_not_mem_utterances console.evaluator hears
    rcases lines_flatMap_lineOf single with ⟨cut, counted⟩
    refine ⟨texts, closing, _, hears, wrote, ?_, ?_⟩
    · rw [counted]
      simp only [utterances, List.length_cons, List.length_append, List.length_map, List.length_nil]
      omega
    · rw [cut]
      simp [utterances]

/-- A text with a line break in it that cannot be read, and a run that answers two lines before one
asks to leave. -/
theorem answers_are_single_lines_of_two :
    let text := "1/0\n1 $\re X it\nE x i t\n2".toList
    let console := ofInput Evaluator.standard (Utf8.encode text) Sink.unlimited
    (Evaluator.standard.evaluate "1\r\n$".toList = .error (.invalidCharacter '$' 3) ∧
      '\n' ∉ (CalculationError.invalidCharacter '$' 3).message ∧
      '\r' ∉ (CalculationError.invalidCharacter '$' 3).message) ∧
    (console.run.result = .ok () ∧
      ∃ (texts : List (List Char)) (closing : List Char) (output : List UInt8),
        Hears console.unread texts closing console.run.console.unread ∧
        console.run.console.sink.written = console.sink.written ++ output ∧
        output.count 10 = 3 + texts.length ∧
        lines output = [lineOf banner, lineOf hint] ++
          texts.map (fun text => lineOf (prompt ++ response console.evaluator text)) ++
          [lineOf (prompt ++ closing)]) := by
  intro text console
  have unreadable : Evaluator.standard.evaluate "1\r\n$".toList =
      .error (.invalidCharacter '$' 3) := by decide +kernel
  have ended : console.run.result = .ok () := (run_over_text Evaluator.standard text).1
  rcases answers_are_single_lines with ⟨messages, runs⟩
  exact ⟨⟨unreadable, messages _ _ _ unreadable⟩, ended, runs console ended⟩

end Console

end Calculator
