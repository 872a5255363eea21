import Calculator.Proofs.Legibility

/-!
Nothing of a text is lost.

Read from its start, a text is blanks and lexemes in turn, and each lexeme knows the byte at which
it stands. So the lexemes are in order and apart, every byte outside of them is a blank, and the
text can be put together again. What a lexeme is read as tells what stands there: a run of literal
characters that goes on to neither side, one symbol, or one character that is foreign.
-/

set_option autoImplicit false

namespace Calculator

namespace Lexeme

/-- A text from some byte on, made of blanks and of lexemes that stand where they say. -/
inductive Tiles : Nat → List Char → List Lexeme → Prop where
  | nothing (start : Nat) : Tiles start [] []
  | blank {start : Nat} {character : Char} {text : List Char} {lexemes : List Lexeme}
      (blank : isBlank character = true) (rest : Tiles (start + 1) text lexemes) :
      Tiles start (character :: text) lexemes
  | lexeme {start : Nat} (piece : List Char) {text : List Char} {lexemes : List Lexeme}
      (rest : Tiles (start + width piece) text lexemes) :
      Tiles start (piece ++ text) (⟨start, piece⟩ :: lexemes)

/-- What stands between two parts of a text, by what it is read as. -/
inductive StandsAs (text front piece back : List Char) : Except CalculationError Token → Prop where
  | number (value : Float) (maximal : MaximalRun text front piece back) :
      StandsAs text front piece back (.ok (.number value))
  | operator (operator : Operator) (single : piece = [operator.symbol]) :
      StandsAs text front piece back (.ok (.operator operator))
  | openParen (single : piece = ['(']) : StandsAs text front piece back (.ok .openParen)
  | closeParen (single : piece = [')']) : StandsAs text front piece back (.ok .closeParen)
  | malformed (maximal : MaximalRun text front piece back) :
      StandsAs text front piece back (.error (.invalidNumber piece (width front)))
  | foreign {character : Char} (single : piece = [character]) (outside : character ∉ alphabet) :
      StandsAs text front piece back (.error (.invalidCharacter character (width front)))

theorem utf8Size_of_isBlank {character : Char} (blank : isBlank character = true) :
    character.utf8Size = 1 :=
  (ascii_of_mem_alphabet ((mem_alphabet_iff character).mpr (Or.inr (Or.inl blank)))).2

theorem width_pos {text : List Char} (nonempty : text ≠ []) : 0 < width text := by
  cases text with
  | nil => exact (nonempty rfl).elim
  | cons character text =>
      have size := character.utf8Size_pos
      simp only [width]
      omega

theorem Tiles.blanks {start : Nat} {blanks text : List Char} {lexemes : List Lexeme}
    (all : blanks.all isBlank = true) (rest : Tiles (start + width blanks) text lexemes) :
    Tiles start (blanks ++ text) lexemes := by
  induction blanks generalizing start with
  | nil => exact rest
  | cons character blanks ih =>
      obtain ⟨here, later⟩ := Bool.and_eq_true_iff.mp all
      rw [width, utf8Size_of_isBlank here, ← Nat.add_assoc] at rest
      exact .blank here (ih later rest)

theorem tiles_located (start : Nat) (cut : List (List Char)) :
    Tiles start cut.flatten
      ((located start cut).filter fun lexeme => !lexeme.text.all isBlank) := by
  induction cut generalizing start with
  | nil => exact .nothing start
  | cons piece cut ih =>
      have later := ih (start + width piece)
      simp only [located, List.flatten_cons]
      cases blank : piece.all isBlank with
      | true =>
          rw [List.filter_cons_of_neg (by simp [blank])]
          exact later.blanks blank
      | false =>
          rw [List.filter_cons_of_pos (by simp [blank])]
          exact .lexeme piece later

theorem tiles_scan (text : List Char) : Tiles 0 text (scan text) := by
  have whole := tiles_located 0 (pieces text)
  rwa [flatten_pieces] at whole

theorem Tiles.start_le {start : Nat} {text : List Char} {lexemes : List Lexeme}
    (tiles : Tiles start text lexemes) : ∀ lexeme ∈ lexemes, start ≤ lexeme.start := by
  induction tiles with
  | nothing start => simp
  | blank blank rest ih =>
      intro lexeme member
      have later := ih lexeme member
      omega
  | lexeme piece rest ih =>
      intro lexeme member
      rcases List.mem_cons.mp member with rfl | behind
      · exact Nat.le_refl _
      · have later := ih lexeme behind
        omega

theorem Tiles.apart {start : Nat} {text : List Char} {lexemes : List Lexeme}
    (tiles : Tiles start text lexemes) :
    lexemes.Pairwise fun earlier later => earlier.stop ≤ later.start := by
  induction tiles with
  | nothing start => exact List.Pairwise.nil
  | blank blank rest ih => exact ih
  | lexeme piece rest ih => exact List.Pairwise.cons rest.start_le ih

theorem Tiles.blank_outside {start : Nat} {text : List Char} {lexemes : List Lexeme}
    (tiles : Tiles start text lexemes) {place : Nat} (behind : start ≤ place)
    (inside : place < start + width text)
    (outside : ∀ lexeme ∈ lexemes, ¬(lexeme.start ≤ place ∧ place < lexeme.stop)) :
    ∃ front blank back, text = front ++ blank :: back ∧ place = start + width front ∧
      isBlank blank = true := by
  induction tiles with
  | nothing start =>
      simp only [width] at inside
      omega
  | @blank start character text lexemes blank rest ih =>
      have size := utf8Size_of_isBlank blank
      rcases Nat.eq_or_lt_of_le behind with here | later
      · exact ⟨[], character, text, rfl, here.symm, blank⟩
      · rw [width, size, ← Nat.add_assoc] at inside
        obtain ⟨front, found, back, rfl, same, isBlank⟩ := ih later inside outside
        refine ⟨character :: front, found, back, rfl, ?_, isBlank⟩
        rw [same, width, size, Nat.add_assoc]
  | @lexeme start piece text lexemes rest ih =>
      obtain ⟨notHere, elsewhere⟩ := List.forall_mem_cons.mp outside
      have past : start + width piece ≤ place := by
        simp only [stop] at notHere
        omega
      rw [width_append, ← Nat.add_assoc] at inside
      obtain ⟨front, found, back, rfl, same, isBlank⟩ := ih past inside elsewhere
      refine ⟨piece ++ front, found, back, by simp, ?_, isBlank⟩
      rw [same, width_append, Nat.add_assoc]

theorem number_of_literal {lexeme : Lexeme} {token : Token}
    (literal : ∀ character ∈ lexeme.text, Decimal.isLiteralCharacter character = true)
    (reads : lexeme.token = .ok token) : ∃ value, token = .number value := by
  rw [token_of_run literal] at reads
  cases parsed : Decimal.ofLiteral? lexeme.text with
  | none => simp [parsed] at reads
  | some decimal =>
      simp only [parsed] at reads
      cases reads
      exact ⟨decimal.toFloat, rfl⟩

theorem symbol_of_single {start : Nat} {character : Char} {token : Token}
    (other : Decimal.isLiteralCharacter character = false)
    (reads : Lexeme.token ⟨start, [character]⟩ = .ok token) :
    symbolToken? character = some token := by
  rw [token_of_single other] at reads
  cases symbol : symbolToken? character with
  | none => simp [symbol] at reads
  | some found =>
      simp only [symbol] at reads
      cases reads
      rfl

theorem stands_of_mem_scan {text : List Char} {lexeme : Lexeme} (member : lexeme ∈ scan text) :
    ∃ front back, text = front ++ (lexeme.text ++ back) ∧ lexeme.start = width front ∧
      lexeme.text ≠ [] ∧ StandsAs text front lexeme.text back lexeme.token := by
  obtain ⟨before, after, split⟩ := List.append_of_mem member
  obtain ⟨front, back, cut, parts, _, place, shown⟩ := scan_eq_append_cons split
  obtain ⟨start, piece⟩ := lexeme
  simp only at cut parts place shown ⊢
  subst place
  have inside : piece ∈ pieces text := by simp [cut]
  refine ⟨front, back.flatten, parts, rfl, List.ne_nil_of_mem_splitBy inside, ?_⟩
  rcases piece_cases inside with literal | ⟨character, rfl, other⟩
  · have maximal := maximalRun_of_piece cut literal
    rw [flatten_pieces] at maximal
    cases reads : token ⟨width front, piece⟩ with
    | error error =>
        obtain ⟨_, rfl⟩ := (literal_eq_error_iff literal).mp reads
        exact .malformed maximal
    | ok token =>
        obtain ⟨value, rfl⟩ := number_of_literal literal reads
        exact .number value maximal
  · cases reads : token ⟨width front, [character]⟩ with
    | error error =>
        obtain ⟨symbol, rfl⟩ := (single_eq_error_iff other).mp reads
        have notBlank : isBlank character = false := by simpa using shown
        refine .foreign rfl ?_
        rw [mem_alphabet_iff]
        simp [other, notBlank, symbol]
    | ok token =>
        rcases symbolToken?_cases (symbol_of_single other reads) with
          ⟨rfl, rfl⟩ | ⟨rfl, rfl⟩ | ⟨operator, rfl, rfl⟩
        · exact .openParen rfl
        · exact .closeParen rfl
        · exact .operator operator rfl

/-- The lexemes of a text take it apart without a rest. Each stands at its bytes, between two
characters, and is what it is read as; they follow each other; and the text is made of them and of
the blanks between them. -/
theorem lexemes_partition_text (text : List Char) :
    (∀ lexeme ∈ scan text, ∃ front back, text = front ++ (lexeme.text ++ back) ∧
      lexeme.start = width front ∧ lexeme.stop = width (front ++ lexeme.text) ∧
      lexeme.start < lexeme.stop ∧ StandsAs text front lexeme.text back lexeme.token) ∧
    (scan text).Pairwise (fun earlier later => earlier.stop ≤ later.start) ∧
    (∀ place, place < width text →
      (∀ lexeme ∈ scan text, ¬(lexeme.start ≤ place ∧ place < lexeme.stop)) →
      ∃ front blank back, text = front ++ blank :: back ∧ place = width front ∧
        isBlank blank = true) ∧
    Tiles 0 text (scan text) := by
  have tiles := tiles_scan text
  refine ⟨?_, tiles.apart, ?_, tiles⟩
  · intro lexeme member
    obtain ⟨front, back, parts, place, nonempty, stands⟩ := stands_of_mem_scan member
    have bytes := width_pos nonempty
    refine ⟨front, back, parts, place, ?_, ?_, stands⟩
    · rw [stop, place, width_append]
    · rw [stop]
      omega
  · intro place inside outside
    rw [← Nat.zero_add (width text)] at inside
    have found := tiles.blank_outside (Nat.zero_le place) inside outside
    simpa only [Nat.zero_add] using found

/-- Two lexemes that are errors among others, and a tab between two lexemes. -/
theorem lexemes_partition_text_with_errors :
    let text := " 12.\t€+.)".toList
    scan text =
      [⟨1, "12.".toList⟩, ⟨5, ['€']⟩, ⟨8, ['+']⟩, ⟨9, ['.']⟩, ⟨10, [')']⟩] ∧
    (⟨5, ['€']⟩ ∈ scan text ∧ ∃ front back, text = front ++ (['€'] ++ back) ∧ 5 = width front ∧
      8 = width (front ++ ['€']) ∧
      StandsAs text front ['€'] back (.error (.invalidCharacter '€' 5))) ∧
    (4 < width text ∧ (∀ lexeme ∈ scan text, ¬(lexeme.start ≤ 4 ∧ 4 < lexeme.stop)) ∧
      ∃ front blank back, text = front ++ blank :: back ∧ 4 = width front ∧
        isBlank blank = true) := by
  intro text
  have lexemes : scan text =
      [⟨1, "12.".toList⟩, ⟨5, ['€']⟩, ⟨8, ['+']⟩, ⟨9, ['.']⟩, ⟨10, [')']⟩] := by decide +kernel
  have member : ⟨5, ['€']⟩ ∈ scan text := by
    rw [lexemes]
    simp
  have inside : 4 < width text := by decide +kernel
  have outside : ∀ lexeme ∈ scan text, ¬(lexeme.start ≤ 4 ∧ 4 < lexeme.stop) := by
    rw [lexemes]
    decide
  obtain ⟨places, _, blanks, _⟩ := lexemes_partition_text text
  obtain ⟨front, back, parts, start, stop, _, stands⟩ := places _ member
  exact ⟨lexemes, ⟨member, front, back, parts, start, stop, stands⟩, inside, outside,
    blanks 4 inside outside⟩

end Lexeme

end Calculator
