import Calculator.Proofs.Literals
import Calculator.Proofs.PlanContents
import Calculator.Proofs.SafeCut
import Calculator.Text.WhiteSpace

/-!
White space taken out of a text.

Reading drops blanks, so a text can be read with its white space or without it. The two readings
differ where white space is not blank, and where it keeps two literals apart. Everywhere else they
find the same lexemes, and each one that stands behind white space stands so many bytes farther on.
-/

set_option autoImplicit false

namespace Calculator

namespace WhiteSpace

def bytesBefore : Nat → List Char → Nat
  | _, [] => 0
  | position, character :: rest =>
      (if isMember character then min character.utf8Size position else 0) +
        bytesBefore (position - character.utf8Size) rest

/-- Where a position of a text lies once the white space is out. -/
def packed (text : List Char) (position : Nat) : Nat := position - bytesBefore position text

def IsBlank (text : List Char) : Prop :=
  ∀ character ∈ text, isMember character = true → Lexeme.isBlank character = true

/-- Whether no run of white space stands between two characters of literals. -/
def KeepsNoneApart (text : List Char) : Prop :=
  ∀ left run right, left :: (run ++ [right]) <:+: text →
    Decimal.isLiteralCharacter left = true → Decimal.isLiteralCharacter right = true →
    (∀ character ∈ run, isMember character = true) → run = []

theorem IsBlank.of_suffix {text rest : List Char} (blank : IsBlank text) (later : rest <:+ text) :
    IsBlank rest :=
  fun character member => blank character (later.mem member)

theorem KeepsNoneApart.of_suffix {text rest : List Char} (together : KeepsNoneApart text)
    (later : rest <:+ text) : KeepsNoneApart rest :=
  fun left run right within => together left run right (within.trans later.isInfix)

theorem not_isMember_of_literal {character : Char}
    (literal : Decimal.isLiteralCharacter character = true) : isMember character = false := by
  rcases Bool.or_eq_true_iff.mp literal with digit | point
  · have bounds := Decimal.digit_bounds digit
    simp only [isMember, ranges, List.any_eq_false, decide_eq_true_eq]
    simp only [List.mem_cons, List.not_mem_nil, or_false]
    rintro range (rfl | rfl | rfl | rfl | rfl | rfl | rfl | rfl | rfl | rfl) <;> omega
  · rw [beq_iff_eq.mp point]
    rfl

theorem head?_strip_eq_some_iff {text : List Char} {next : Char} :
    (strip text).head? = some next ↔ isMember next = false ∧
      ∃ run later, text = run ++ next :: later ∧
        ∀ character ∈ run, isMember character = true := by
  rw [strip, List.head?_filter, List.find?_eq_some_iff_append]
  simp

theorem keepsNoneApart_cons (character : Char) (rest : List Char) :
    KeepsNoneApart (character :: rest) ↔
      ¬(Decimal.isLiteralCharacter character = true ∧ rest.head?.any isMember = true ∧
        (strip rest).head?.any Decimal.isLiteralCharacter = true) ∧ KeepsNoneApart rest := by
  simp only [Option.any_eq_true, head?_strip_eq_some_iff]
  constructor
  · intro together
    refine ⟨?_, together.of_suffix (List.suffix_cons character rest)⟩
    rintro ⟨literal, ⟨white, first, isWhite⟩, next, ⟨notWhite, run, later, rfl, allWhite⟩,
      nextLiteral⟩
    have empty := together character run next ⟨[], later, by simp⟩ literal nextLiteral allWhite
    subst empty
    have same : next = white := Option.some.inj first
    rw [same, isWhite] at notWhite
    cases notWhite
  · rintro ⟨apart, together⟩ left run right within leftLiteral rightLiteral allWhite
    rcases List.infix_cons_iff.mp within with front | inside
    · obtain ⟨rfl, later, rfl⟩ := List.cons_prefix_cons.mp front
      cases run with
      | nil => rfl
      | cons white run =>
          have isWhite := allWhite white List.mem_cons_self
          have behind : white :: run ++ [right] ++ later = white :: run ++ right :: later := by
            simp
          exact (apart ⟨leftLiteral, ⟨white, rfl, isWhite⟩, right,
            ⟨not_isMember_of_literal rightLiteral, white :: run, later, behind, allWhite⟩,
            rightLiteral⟩).elim
    · exact together left run right inside leftLiteral rightLiteral allWhite

instance : DecidablePred IsBlank := fun text => List.decidableBAll _ text

instance decidableKeepsNoneApart : DecidablePred KeepsNoneApart
  | [] => isTrue fun _ _ _ within => by simp at within
  | character :: rest =>
      have := decidableKeepsNoneApart rest
      decidable_of_iff _ (keepsNoneApart_cons character rest).symm

theorem bytesBefore_le (position : Nat) (text : List Char) :
    bytesBefore position text ≤ position := by
  induction text generalizing position with
  | nil => exact Nat.zero_le position
  | cons character rest ih =>
      have later := ih (position - character.utf8Size)
      simp only [bytesBefore]
      split <;> omega

theorem bytesBefore_append (position : Nat) (front rest : List Char) :
    bytesBefore position (front ++ rest) =
      bytesBefore position front + bytesBefore (position - Lexeme.width front) rest := by
  induction front generalizing position with
  | nil => simp [bytesBefore, Lexeme.width]
  | cons character front ih =>
      simp only [List.cons_append, bytesBefore, Lexeme.width, ih, Nat.add_assoc, Nat.sub_sub]

theorem bytesBefore_of_strip_eq {text : List Char} (free : strip text = text) (position : Nat) :
    bytesBefore position text = 0 := by
  induction text generalizing position with
  | nil => rfl
  | cons character rest ih =>
      have all := List.filter_eq_self.mp free
      have first : isMember character = false := by
        simpa using all character List.mem_cons_self
      have later : strip rest = rest :=
        List.filter_eq_self.mpr fun other member => all other (List.mem_cons_of_mem _ member)
      simp [bytesBefore, first, ih later]

theorem packed_of_strip_eq {text : List Char} (free : strip text = text) (position : Nat) :
    packed text position = position := by
  rw [packed, bytesBefore_of_strip_eq free, Nat.sub_zero]

theorem packed_of_le_width {front : List Char} (free : strip front = front) (rest : List Char)
    {position : Nat} (within : position ≤ Lexeme.width front) :
    packed (front ++ rest) position = position := by
  have few := bytesBefore_le (position - Lexeme.width front) rest
  rw [packed, bytesBefore_append, bytesBefore_of_strip_eq free]
  omega

theorem packed_behind {front : List Char} (free : strip front = front) {character : Char}
    (white : isMember character = true) (rest : List Char) (position : Nat) :
    packed (front ++ character :: rest)
        (position + character.utf8Size + Lexeme.width front) =
      packed rest position + Lexeme.width front := by
  have fewer := bytesBefore_le position rest
  have before : bytesBefore (position + character.utf8Size + Lexeme.width front)
      (front ++ character :: rest) = character.utf8Size + bytesBefore position rest := by
    rw [bytesBefore_append, bytesBefore_of_strip_eq free, bytesBefore, if_pos white]
    simp
  simp only [packed, before]
  omega

end WhiteSpace

namespace Lexeme

theorem start_le_of_mem_scan {text : List Char} {lexeme : Lexeme} (member : lexeme ∈ scan text) :
    lexeme.start ≤ width text := by
  have inside (start : Nat) (pieces : List (List Char)) (member : lexeme ∈ located start pieces) :
      lexeme.start ≤ start + width pieces.flatten := by
    induction pieces generalizing start with
    | nil => cases member
    | cons piece pieces ih =>
        rw [List.flatten_cons, width_append]
        rcases List.mem_cons.mp member with rfl | later
        · exact Nat.le_add_right start _
        · have bound := ih _ later
          omega
  have bound := inside 0 (pieces text) (List.mem_of_mem_filter member)
  have whole : (pieces text).flatten = text := List.flatten_splitBy _ text
  rwa [whole, Nat.zero_add] at bound

theorem scan_blank_cons {character : Char} (blank : isBlank character = true) (rest : List Char) :
    scan (character :: rest) = (scan rest).map (shift character.utf8Size) := by
  have cut := safeCut_behind (not_literal_of_isBlank blank) rest
  have dropped : scan [character] = [] := by
    simp [scan, pieces, located, List.splitBy, List.splitBy.loop, blank]
  have whole := scan_append [character] rest cut
  rwa [dropped, List.nil_append] at whole

theorem safeCut_strip {front rest : List Char} {character : Char}
    (white : WhiteSpace.isMember character = true)
    (together : WhiteSpace.KeepsNoneApart (front ++ character :: rest)) :
    SafeCut front (WhiteSpace.strip rest) := by
  intro last final next first
  obtain ⟨front, rfl⟩ := List.getLast?_eq_some_iff.mp final
  obtain ⟨_, run, later, rfl, allWhite⟩ := WhiteSpace.head?_strip_eq_some_iff.mp first
  by_contra literals
  rw [Bool.not_eq_false, Bool.and_eq_true] at literals
  have empty := together last (character :: run) next ⟨front, later, by simp⟩ literals.1 literals.2
    (List.forall_mem_cons.mpr ⟨white, allWhite⟩)
  cases empty

/-- One step of taking the white space out: the first of it goes, and the rest has lost its own. -/
theorem scan_strip_behind {front rest : List Char} {character : Char}
    (free : WhiteSpace.strip front = front) (white : WhiteSpace.isMember character = true)
    (blank : isBlank character = true) (cut : SafeCut front (WhiteSpace.strip rest))
    (later : scan (WhiteSpace.strip rest) = (scan rest).map (relocate (WhiteSpace.packed rest))) :
    scan (WhiteSpace.strip (front ++ character :: rest)) =
      (scan (front ++ character :: rest)).map
        (relocate (WhiteSpace.packed (front ++ character :: rest))) := by
  have cutBlank := safeCut_before (not_literal_of_isBlank blank) front rest
  have stripped : WhiteSpace.strip (front ++ character :: rest) =
      front ++ WhiteSpace.strip rest := by
    rw [WhiteSpace.strip_append, free]
    simp [WhiteSpace.strip, white]
  have stays : ∀ lexeme ∈ scan front,
      lexeme.relocate (WhiteSpace.packed (front ++ character :: rest)) = id lexeme := by
    intro lexeme member
    rw [relocate, WhiteSpace.packed_of_le_width free _ (start_le_of_mem_scan member)]
    rfl
  have moves : ∀ lexeme ∈ scan rest,
      ((lexeme.shift character.utf8Size).shift (width front)).relocate
          (WhiteSpace.packed (front ++ character :: rest)) =
        (lexeme.relocate (WhiteSpace.packed rest)).shift (width front) := by
    intro lexeme _
    simp only [relocate, shift, WhiteSpace.packed_behind free white]
  rw [stripped, scan_append _ _ cut, scan_append _ _ cutBlank, scan_blank_cons blank, later,
    List.map_append, List.map_congr_left stays, List.map_id]
  simp only [List.map_map]
  exact congrArg _ (List.map_congr_left moves).symm

theorem scan_strip {text : List Char} (blank : WhiteSpace.IsBlank text)
    (together : WhiteSpace.KeepsNoneApart text) :
    scan (WhiteSpace.strip text) = (scan text).map (relocate (WhiteSpace.packed text)) := by
  -- The induction carries along what stands in front and has no white space.
  have general (front rest : List Char) (free : WhiteSpace.strip front = front)
      (blank : WhiteSpace.IsBlank (front ++ rest))
      (together : WhiteSpace.KeepsNoneApart (front ++ rest)) :
      scan (WhiteSpace.strip (front ++ rest)) =
        (scan (front ++ rest)).map (relocate (WhiteSpace.packed (front ++ rest))) := by
    induction rest generalizing front with
    | nil =>
        have stays : relocate (WhiteSpace.packed front) = id := by
          funext lexeme
          rw [relocate, WhiteSpace.packed_of_strip_eq free]
          rfl
        rw [List.append_nil, free, stays, List.map_id]
    | cons character rest ih =>
        cases white : WhiteSpace.isMember character with
        | false =>
            have longer : WhiteSpace.strip (front ++ [character]) = front ++ [character] := by
              rw [WhiteSpace.strip_append, free]
              simp [WhiteSpace.strip, white]
            have same : front ++ character :: rest = front ++ [character] ++ rest := by simp
            rw [same] at blank together ⊢
            exact ih (front ++ [character]) longer blank together
        | true =>
            have behind : rest <:+ front ++ character :: rest := ⟨front ++ [character], by simp⟩
            have later := ih [] rfl (blank.of_suffix behind) (together.of_suffix behind)
            exact scan_strip_behind free white (blank character (by simp) white)
              (safeCut_strip white together) later
  exact general [] text rfl blank together

theorem readings_strip {text : List Char} (blank : WhiteSpace.IsBlank text)
    (together : WhiteSpace.KeepsNoneApart text) :
    readings (WhiteSpace.strip text) = (readings text).map fun reading =>
      reading.mapError (CalculationError.relocate (WhiteSpace.packed text)) := by
  simp [readings, scan_strip blank together, token_relocate]

end Lexeme

namespace Plan

/-- Only planning knows places. The run of a program fails in ways that have none. -/
theorem settle_relocate (place : Nat → Nat) (plan : Plan) :
    settle ⟨plan.program, plan.status.mapError (CalculationError.relocate place)⟩ =
      plan.settle.mapError (CalculationError.relocate place) := by
  obtain ⟨program, status⟩ := plan
  simp only [settle]
  cases ran : Postfix.run program [] with
  | error error =>
      have placeless : error.relocate place = error := by
        cases Postfix.error_of_run ran <;> rfl
      simp only [Except.mapError, placeless]
  | ok operands =>
      cases status with
      | error fault => rfl
      | ok pending => rcases operands with _ | ⟨value, _ | ⟨other, operands⟩⟩ <;> rfl

end Plan

/-- A text has the same value without its white space, or the same error in the place to which the
text has moved. -/
theorem evaluate_strip (evaluator : Evaluator) {text : List Char} (blank : WhiteSpace.IsBlank text)
    (together : WhiteSpace.KeepsNoneApart text) :
    evaluator.evaluate (WhiteSpace.strip text) =
      (evaluator.evaluate text).mapError (CalculationError.relocate (WhiteSpace.packed text)) := by
  have fixed (place : Nat → Nat) :
      CalculationError.relocate place .mismatchedParentheses = .mismatchedParentheses := rfl
  rw [Plan.evaluate_settles_plan, Plan.evaluate_settles_plan,
    Lexeme.readings_strip blank together, Plan.ofReadings_mapError (fixed _),
    Plan.settle_relocate]

/-- White space that keeps two literals apart cannot be taken out. -/
example : ¬WhiteSpace.KeepsNoneApart "1 2".toList ∧
    Evaluator.standard.evaluate "1 2".toList = .error (.operandCount 2) ∧
    Evaluator.standard.evaluate (WhiteSpace.strip "1 2".toList) = .ok 12.0 := by
  decide +kernel

end Calculator
