import Calculator.Proofs.Schedule
import Mathlib.Data.List.SplitBy

/-!
Cutting a text in two.

Between two characters that do not belong to one literal a text can be cut: the lexemes of the
whole are those of the two parts, the later ones farther on by the bytes of the earlier part.
-/

set_option autoImplicit false

namespace Calculator

def CalculationError.relocate (place : Nat → Nat) : CalculationError → CalculationError
  | .invalidCharacter character position => .invalidCharacter character (place position)
  | .invalidNumber literal position => .invalidNumber literal (place position)
  | error => error

def CalculationError.shift (offset : Nat) : CalculationError → CalculationError
  | .invalidCharacter character position => .invalidCharacter character (position + offset)
  | .invalidNumber literal position => .invalidNumber literal (position + offset)
  | error => error

theorem CalculationError.shift_eq_relocate (offset : Nat) :
    CalculationError.shift offset = CalculationError.relocate (· + offset) := by
  funext error
  cases error <;> rfl

theorem CalculationError.shift_shift (offset further : Nat) (error : CalculationError) :
    (error.shift offset).shift further = error.shift (offset + further) := by
  cases error <;> simp [shift, Nat.add_assoc]

namespace Lexeme

def relocate (place : Nat → Nat) (lexeme : Lexeme) : Lexeme := ⟨place lexeme.start, lexeme.text⟩

def shift (offset : Nat) (lexeme : Lexeme) : Lexeme := ⟨lexeme.start + offset, lexeme.text⟩

/-- Whether no literal goes on across the cut. -/
def SafeCut (first second : List Char) : Prop :=
  ∀ last ∈ first.getLast?, ∀ next ∈ second.head?,
    (Decimal.isLiteralCharacter last && Decimal.isLiteralCharacter next) = false

theorem not_literal_of_isBlank {character : Char} (blank : isBlank character = true) :
    Decimal.isLiteralCharacter character = false := by
  simp only [isBlank, List.contains_iff_mem, List.mem_cons, List.not_mem_nil, or_false] at blank
  rcases blank with rfl | rfl | rfl | rfl | rfl <;> rfl

theorem not_isBlank_of_literal {character : Char}
    (literal : Decimal.isLiteralCharacter character = true) : isBlank character = false := by
  rw [Bool.eq_false_iff]
  intro blank
  rw [not_literal_of_isBlank blank] at literal
  cases literal

theorem safeCut_before {character : Char}
    (other : Decimal.isLiteralCharacter character = false) (front rest : List Char) :
    SafeCut front (character :: rest) := by
  intro last _ next first
  have same : character = next := Option.some.inj first
  rw [← same, other, Bool.and_false]

theorem safeCut_behind {character : Char}
    (other : Decimal.isLiteralCharacter character = false) (rest : List Char) :
    SafeCut [character] rest := by
  intro last final next _
  have same : character = last := Option.some.inj final
  rw [← same, other, Bool.false_and]

theorem SafeCut.append {front middle back : List Char} (earlier : SafeCut front (middle ++ back))
    (later : SafeCut middle back) : SafeCut (front ++ middle) back := by
  cases middle with
  | nil => rwa [List.append_nil]
  | cons character middle =>
      intro last final
      rw [List.getLast?_append_of_ne_nil _ (List.cons_ne_nil _ _)] at final
      exact later last final

theorem width_append (first second : List Char) :
    width (first ++ second) = width first + width second := by
  induction first with
  | nil => simp [width]
  | cons character first ih => simp [width, ih, Nat.add_assoc]

theorem located_append (start : Nat) (first second : List (List Char)) :
    located start (first ++ second) =
      located start first ++ located (start + width first.flatten) second := by
  induction first generalizing start with
  | nil => simp [located, width]
  | cons piece first ih =>
      simp only [List.cons_append, located, ih, List.flatten_cons, width_append]
      rw [Nat.add_assoc]

theorem located_shift (start offset : Nat) (pieces : List (List Char)) :
    located (start + offset) pieces = (located start pieces).map (shift offset) := by
  induction pieces generalizing start with
  | nil => rfl
  | cons piece pieces ih =>
      simp only [located, List.map_cons]
      rw [Nat.add_right_comm, ih]
      rfl

theorem pieces_append (first second : List Char) (cut : SafeCut first second) :
    pieces (first ++ second) = pieces first ++ pieces second :=
  List.splitBy_append cut

theorem scan_append (first second : List Char) (cut : SafeCut first second) :
    scan (first ++ second) = scan first ++ (scan second).map (shift (width first)) := by
  have split := pieces_append first second cut
  have whole : (pieces first).flatten = first := List.flatten_splitBy _ first
  simp only [scan]
  rw [split, located_append, whole, located_shift, List.filter_append, List.filter_map]
  rfl

theorem token_relocate (place : Nat → Nat) (lexeme : Lexeme) :
    (lexeme.relocate place).token = lexeme.token.mapError (CalculationError.relocate place) := by
  simp only [token, relocate]
  cases lexeme.text.find? fun character => !Decimal.isLiteralCharacter character with
  | none =>
      simp only
      cases Decimal.ofLiteral? lexeme.text <;> rfl
  | some character =>
      simp only
      cases symbolToken? character <;> rfl

theorem token_shift (offset : Nat) (lexeme : Lexeme) :
    (lexeme.shift offset).token = lexeme.token.mapError (CalculationError.shift offset) := by
  rw [CalculationError.shift_eq_relocate]
  exact token_relocate (· + offset) lexeme

theorem map_token_shift (offset : Nat) (lexemes : List Lexeme) :
    (lexemes.map (shift offset)).map token =
      (lexemes.map token).map fun reading =>
        reading.mapError (CalculationError.shift offset) := by
  simp [token_shift]

theorem readings_append (first second : List Char) (cut : SafeCut first second) :
    readings (first ++ second) = readings first ++
      (readings second).map fun reading =>
        reading.mapError (CalculationError.shift (width first)) := by
  simp only [readings]
  rw [scan_append first second cut, List.map_append, map_token_shift]

theorem readings_group (text : List Char) :
    readings ('(' :: (text ++ [')'])) =
      .ok .openParen :: ((readings text).map (fun reading =>
        reading.mapError (CalculationError.shift 1)) ++ [.ok .closeParen]) := by
  have front : SafeCut ['('] (text ++ [')']) := safeCut_behind rfl _
  have back : SafeCut text [')'] := safeCut_before rfl _ _
  have opening : readings ['('] = [.ok .openParen] := rfl
  have closing : readings [')'] = [.ok .closeParen] := rfl
  have byte : width ['('] = 1 := rfl
  have whole := readings_append ['('] (text ++ [')']) front
  rw [readings_append text [')'] back, opening, closing, byte] at whole
  simpa [Except.mapError] using whole

end Lexeme

end Calculator
