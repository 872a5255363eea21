import Calculator.Proofs.SafeCut

/-!
The pieces of a text.

A piece is a maximal run of literal characters or one other character, and the pieces follow each
other without a gap. So a text can be cut in front of any of its lexemes: what stands before it is
a text of its own, which has the earlier lexemes and ends where this one starts.
-/

set_option autoImplicit false

namespace Calculator

/-- A run of literal characters in a text that goes on to neither side, and what stands there. -/
structure MaximalRun (text front run back : List Char) : Prop where
  parts : text = front ++ (run ++ back)
  nonempty : run ≠ []
  literal : ∀ character ∈ run, Decimal.isLiteralCharacter character = true
  left : ∀ last ∈ front.getLast?, Decimal.isLiteralCharacter last = false
  right : ∀ next ∈ back.head?, Decimal.isLiteralCharacter next = false

theorem MaximalRun.cut_before {text front run back : List Char}
    (maximal : MaximalRun text front run back) : Lexeme.SafeCut front (run ++ back) := by
  intro last final next _
  rw [maximal.left last final, Bool.false_and]

theorem MaximalRun.cut_behind {text front run back : List Char}
    (maximal : MaximalRun text front run back) : Lexeme.SafeCut run back := by
  intro last _ next first
  rw [maximal.right next first, Bool.and_false]

namespace Lexeme

theorem literal_or_single {piece : List Char} (nonempty : piece ≠ [])
    (joined : piece.IsChain fun left right =>
      (Decimal.isLiteralCharacter left && Decimal.isLiteralCharacter right) = true) :
    (∀ character ∈ piece, Decimal.isLiteralCharacter character = true) ∨
      ∃ character, piece = [character] ∧ Decimal.isLiteralCharacter character = false := by
  induction piece with
  | nil => exact (nonempty rfl).elim
  | cons first rest ih =>
      cases rest with
      | nil => cases literal : Decimal.isLiteralCharacter first <;> simp [literal]
      | cons second rest =>
          obtain ⟨both, joined⟩ := List.isChain_cons_cons.mp joined
          obtain ⟨firstLiteral, secondLiteral⟩ := Bool.and_eq_true_iff.mp both
          rcases ih (List.cons_ne_nil _ _) joined with literal | ⟨character, same, other⟩
          · exact Or.inl (List.forall_mem_cons.mpr ⟨firstLiteral, literal⟩)
          · cases same
            rw [secondLiteral] at other
            cases other

theorem piece_cases {text piece : List Char} (member : piece ∈ pieces text) :
    (∀ character ∈ piece, Decimal.isLiteralCharacter character = true) ∨
      ∃ character, piece = [character] ∧ Decimal.isLiteralCharacter character = false :=
  literal_or_single (List.ne_nil_of_mem_splitBy member) (List.isChain_of_mem_splitBy member)

theorem flatten_pieces (text : List Char) : (pieces text).flatten = text :=
  List.flatten_splitBy _ text

theorem last_of_flatten {pieces : List (List Char)} {last : Char} (nonempty : [] ∉ pieces)
    (final : last ∈ pieces.flatten.getLast?) :
    ∃ piece ∈ pieces.getLast?, last ∈ piece.getLast? := by
  rcases List.eq_nil_or_concat' pieces with rfl | ⟨front, piece, rfl⟩
  · cases final
  · have inside : piece ≠ [] := by
      rintro rfl
      simp at nonempty
    rw [List.flatten_append, List.flatten_singleton,
      List.getLast?_append_of_ne_nil _ inside] at final
    exact ⟨piece, by simp, final⟩

theorem first_of_flatten {pieces : List (List Char)} {first : Char} (nonempty : [] ∉ pieces)
    (start : first ∈ pieces.flatten.head?) :
    ∃ piece ∈ pieces.head?, first ∈ piece.head? := by
  cases pieces with
  | nil => cases start
  | cons piece rest =>
      have inside : piece ≠ [] := by
        rintro rfl
        simp at nonempty
      rw [List.flatten_cons, List.head?_append_of_ne_nil _ inside] at start
      exact ⟨piece, rfl, start⟩

theorem cut_between {text : List Char} {before after : List (List Char)}
    (split : pieces text = before ++ after) :
    SafeCut before.flatten after.flatten ∧ pieces before.flatten = before ∧
      pieces after.flatten = after := by
  have nonempty : [] ∉ before ++ after := by
    rw [← split]
    exact List.nil_notMem_splitBy _ text
  have joined : ∀ piece ∈ before ++ after, piece.IsChain fun left right =>
      (Decimal.isLiteralCharacter left && Decimal.isLiteralCharacter right) = true := by
    rw [← split]
    exact fun piece member => List.isChain_of_mem_splitBy member
  have apart := List.isChain_getLast_head_splitBy
    (fun left right => Decimal.isLiteralCharacter left && Decimal.isLiteralCharacter right) text
  change (pieces text).IsChain _ at apart
  rw [split] at apart
  obtain ⟨apartBefore, apartAfter, between⟩ := List.isChain_append.mp apart
  rw [List.mem_append, not_or] at nonempty
  refine ⟨?_, ?_, ?_⟩
  · intro last final next first
    obtain ⟨piece, lastPiece, ending⟩ := last_of_flatten nonempty.1 final
    obtain ⟨later, firstPiece, starting⟩ := first_of_flatten nonempty.2 first
    obtain ⟨hasLast, hasFirst, different⟩ := between piece lastPiece later firstPiece
    rw [List.getLast?_eq_some_getLast hasLast] at ending
    rw [List.head?_eq_some_head hasFirst] at starting
    cases ending
    cases starting
    exact different
  · exact List.splitBy_flatten nonempty.1
      (fun piece member => joined piece (List.mem_append_left _ member)) apartBefore
  · exact List.splitBy_flatten nonempty.2
      (fun piece member => joined piece (List.mem_append_right _ member)) apartAfter

theorem pieces_of_run {run : List Char} (nonempty : run ≠ [])
    (literal : ∀ character ∈ run, Decimal.isLiteralCharacter character = true) :
    pieces run = [run] := by
  apply List.splitBy_of_isChain nonempty
  apply List.Pairwise.isChain
  apply List.pairwise_of_forall_mem_list
  intro left leftMember right rightMember
  rw [literal left leftMember, literal right rightMember, Bool.and_self]

theorem not_blank_of_run {run : List Char} (nonempty : run ≠ [])
    (literal : ∀ character ∈ run, Decimal.isLiteralCharacter character = true) :
    run.all isBlank = false := by
  rw [List.all_eq_false]
  obtain ⟨first, member⟩ := List.exists_mem_of_ne_nil run nonempty
  refine ⟨first, member, ?_⟩
  rw [not_isBlank_of_literal (literal first member)]
  exact Bool.false_ne_true

theorem maximalRun_of_piece {text run : List Char} {before after : List (List Char)}
    (split : pieces text = before ++ run :: after)
    (literal : ∀ character ∈ run, Decimal.isLiteralCharacter character = true) :
    MaximalRun text before.flatten run after.flatten := by
  have nonempty : run ≠ [] := by
    apply List.ne_nil_of_mem_splitBy
    change run ∈ pieces text
    rw [split]
    simp
  have whole := flatten_pieces text
  rw [split, List.flatten_append, List.flatten_cons] at whole
  have cutBefore := (cut_between split).1
  have resplit : pieces text = (before ++ [run]) ++ after := by simp [split]
  have cutBehind := (cut_between resplit).1
  obtain ⟨first, rest, rfl⟩ := List.exists_cons_of_ne_nil nonempty
  refine ⟨whole.symm, nonempty, literal, ?_, ?_⟩
  · intro last final
    have apart := cutBefore last final first rfl
    rwa [literal first List.mem_cons_self, Bool.and_true] at apart
  · intro next start
    have isLast := List.getLast_mem nonempty
    have apart := cutBehind ((first :: rest).getLast nonempty)
      (by rw [List.flatten_append, List.flatten_singleton,
            List.getLast?_append_of_ne_nil _ nonempty]
          exact List.getLast?_eq_some_getLast nonempty) next start
    rwa [literal _ isLast, Bool.true_and] at apart

theorem scan_alone {piece : List Char} (single : pieces piece = [piece])
    (shown : piece.all isBlank = false) : scan piece = [⟨0, piece⟩] := by
  simp [scan, single, located, shown]

/-- A lexeme can be told by its surroundings: a piece that goes on to neither side and is not
blank. -/
theorem scan_of_piece {front piece back : List Char} (cutBefore : SafeCut front (piece ++ back))
    (cutBehind : SafeCut piece back) (single : pieces piece = [piece])
    (shown : piece.all isBlank = false) :
    ∃ later, scan (front ++ (piece ++ back)) = scan front ++ ⟨width front, piece⟩ :: later := by
  refine ⟨((scan back).map (shift (width piece))).map (shift (width front)), ?_⟩
  rw [scan_append _ _ cutBefore, scan_append _ _ cutBehind, scan_alone single shown]
  simp [shift]

theorem located_eq_append_cons {start : Nat} {cut : List (List Char)} {before after : List Lexeme}
    {lexeme : Lexeme} (split : located start cut = before ++ lexeme :: after) :
    ∃ front back, cut = front ++ lexeme.text :: back ∧ before = located start front ∧
      lexeme.start = start + width front.flatten := by
  induction before generalizing start cut with
  | nil =>
      cases cut with
      | nil => cases split
      | cons piece cut =>
          cases split
          exact ⟨[], cut, rfl, rfl, rfl⟩
  | cons first before ih =>
      cases cut with
      | nil => cases split
      | cons piece cut =>
          obtain ⟨rfl, later⟩ := List.cons.inj split
          obtain ⟨front, back, rfl, rfl, place⟩ := ih later
          refine ⟨piece :: front, back, rfl, rfl, ?_⟩
          rw [place, List.flatten_cons, width_append, Nat.add_assoc]

/-- In front of each lexeme the text can be cut. What stands there has the lexemes before this one,
and their bytes are its start. -/
theorem scan_eq_append_cons {text : List Char} {before after : List Lexeme} {lexeme : Lexeme}
    (split : scan text = before ++ lexeme :: after) :
    ∃ front back, pieces text = pieces front ++ lexeme.text :: back ∧
      text = front ++ (lexeme.text ++ back.flatten) ∧ scan front = before ∧
      lexeme.start = width front ∧ lexeme.text.all isBlank = false := by
  obtain ⟨first, rest, whole, rfl, kept⟩ := List.filter_eq_append_iff.mp split
  obtain ⟨blanks, later, rfl, dropped, shown, -⟩ := List.filter_eq_cons_iff.mp kept
  rw [← List.append_assoc] at whole
  obtain ⟨front, back, cut, behind, place⟩ := located_eq_append_cons whole
  have flat := flatten_pieces text
  rw [cut, List.flatten_append, List.flatten_cons] at flat
  have same := (cut_between cut).2.1
  refine ⟨front.flatten, back, ?_, flat.symm, ?_, ?_, by simpa using shown⟩
  · rw [cut, same]
  · have nothing : blanks.filter (fun lexeme => !lexeme.text.all isBlank) = [] :=
      List.filter_eq_nil_iff.mpr dropped
    rw [scan, same, ← behind, List.filter_append, nothing, List.append_nil]
  · rw [place, Nat.zero_add]

end Lexeme

end Calculator
