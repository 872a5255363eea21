import Calculator.Proofs.Partition
import Calculator.Proofs.Spacing

/-!
Lexing by longest match, and where a text can be cut.

There is a rule for blanks, one for literals and one for each symbol. At every place the rule with
the longest match decides what stands there, and a character that no rule can begin with is refused
alone. Cutting a text into pieces and dropping the blank ones comes to the same: the items of a text
are the only ones that the rules give. A longest match never stops inside of a literal. So a text in
two parts has the items of the parts, the later ones farther on by the bytes of the earlier part,
exactly if no literal goes on across the cut. Blanks may go on.
-/

set_option autoImplicit false

namespace Calculator

namespace Lexeme

/-- What a lexeme shows to a reader: the bytes between which it stands, and what it is read as. -/
structure Item where
  start : Nat
  stop : Nat
  reading : Except CalculationError Token
  deriving DecidableEq

def Item.shift (offset : Nat) (item : Item) : Item :=
  ⟨item.start + offset, item.stop + offset,
    item.reading.mapError (CalculationError.shift offset)⟩

def item (lexeme : Lexeme) : Item := ⟨lexeme.start, lexeme.stop, lexeme.token⟩

def items (text : List Char) : List Item := (scan text).map item

/-- What the lexer looks for. -/
inductive Rule where
  | blanks
  | literal
  | symbol (token : Token)

namespace Rule

def Matches : Rule → List Char → Prop
  | blanks, piece => piece ≠ [] ∧ ∀ character ∈ piece, isBlank character = true
  | literal, piece =>
      piece ≠ [] ∧ ∀ character ∈ piece, Decimal.isLiteralCharacter character = true
  | symbol token, piece => ∃ character, piece = [character] ∧ symbolToken? character = some token

/-- What becomes of a match at some byte. Blanks are skipped. -/
def produced (start : Nat) (piece : List Char) : Rule → List Item
  | blanks => []
  | literal =>
      [⟨start, start + width piece,
        (Decimal.ofLiteral? piece).elim (.error (.invalidNumber piece start))
          fun decimal => .ok (.number decimal.toFloat)⟩]
  | symbol token => [⟨start, start + width piece, .ok token⟩]

/-- The rule of the matches that a character can stand in. -/
def of? (character : Char) : Option Rule :=
  if isBlank character then some blanks
  else if Decimal.isLiteralCharacter character then some literal
  else (symbolToken? character).map symbol

end Rule

/-- A match at the front of a text, where no rule matches more. -/
structure LongestMatch (rule : Rule) (piece rest : List Char) : Prop where
  matched : rule.Matches piece
  longest : ∀ (other : Rule) (longer : List Char), longer <+: piece ++ rest →
    other.Matches longer → longer.length ≤ piece.length

/-- What the rules give for a text that starts at some byte. -/
inductive Lexing : Nat → List Char → List Item → Prop where
  | finished (start : Nat) : Lexing start [] []
  | matched {start : Nat} {rule : Rule} {piece rest : List Char} {later : List Item}
      (longest : LongestMatch rule piece rest)
      (behind : Lexing (start + width piece) rest later) :
      Lexing start (piece ++ rest) (rule.produced start piece ++ later)
  | refused {start : Nat} {character : Char} {rest : List Char} {later : List Item}
      (unmatched : ∀ (rule : Rule) (piece : List Char), piece <+: character :: rest →
        ¬rule.Matches piece)
      (behind : Lexing (start + character.utf8Size) rest later) :
      Lexing start (character :: rest)
        (⟨start, start + character.utf8Size, .error (.invalidCharacter character start)⟩ :: later)

theorem item_shift (offset : Nat) (lexeme : Lexeme) :
    (lexeme.shift offset).item = lexeme.item.shift offset := by
  simp only [item, Item.shift, token_shift]
  simp only [stop, shift, Nat.add_right_comm]

theorem Item.shift_zero : Item.shift 0 = id := by
  funext item
  obtain ⟨start, stop, reading⟩ := item
  rcases reading with error | token
  · cases error <;> rfl
  · rfl

theorem Item.shift_shift (offset further : Nat) (item : Item) :
    (item.shift offset).shift further = item.shift (offset + further) := by
  obtain ⟨start, stop, reading⟩ := item
  cases reading <;>
    simp [Item.shift, Except.mapError, CalculationError.shift_shift, Nat.add_assoc]

theorem items_append {first second : List Char} (cut : SafeCut first second) :
    items (first ++ second) = items first ++ (items second).map (Item.shift (width first)) := by
  simp [items, scan_append first second cut, item_shift]

theorem items_append_from (start : Nat) {first second : List Char} (cut : SafeCut first second) :
    (items (first ++ second)).map (Item.shift start) =
      (items first).map (Item.shift start) ++
        (items second).map (Item.shift (start + width first)) := by
  simp [items_append cut, Item.shift_shift, Nat.add_comm]

namespace Rule

theorem ne_nil_of_matches {rule : Rule} {piece : List Char} (matched : rule.Matches piece) :
    piece ≠ [] := by
  cases rule with
  | blanks => exact matched.1
  | literal => exact matched.1
  | symbol token =>
      obtain ⟨character, rfl, _⟩ := matched
      exact List.cons_ne_nil _ _

theorem of?_of_literal {character : Char}
    (literal : Decimal.isLiteralCharacter character = true) :
    of? character = some .literal := by
  simp [of?, not_isBlank_of_literal literal, literal]

theorem plain_of_symbol {character : Char} {token : Token}
    (symbol : symbolToken? character = some token) :
    isBlank character = false ∧ Decimal.isLiteralCharacter character = false := by
  rcases symbolToken?_cases symbol with ⟨rfl, rfl⟩ | ⟨rfl, rfl⟩ | ⟨operator, rfl, rfl⟩
  · exact ⟨rfl, rfl⟩
  · exact ⟨rfl, rfl⟩
  · cases operator <;> exact ⟨rfl, rfl⟩

/-- Matches of different rules have no character in common. -/
theorem of?_of_mem {rule : Rule} {piece : List Char} (matched : rule.Matches piece)
    {character : Char} (member : character ∈ piece) : of? character = some rule := by
  cases rule with
  | blanks => simp [of?, matched.2 character member]
  | literal => exact of?_of_literal (matched.2 character member)
  | symbol token =>
      obtain ⟨only, rfl, symbol⟩ := matched
      obtain ⟨notBlank, other⟩ := plain_of_symbol symbol
      rw [List.mem_singleton.mp member]
      simp [of?, notBlank, other, symbol]

theorem of?_eq_some_iff {rule : Rule} {character : Char} :
    of? character = some rule ↔ rule.Matches [character] := by
  constructor
  · intro found
    unfold of? at found
    split at found
    case isTrue blank =>
      cases found
      exact ⟨List.cons_ne_nil _ _, List.forall_mem_singleton.mpr blank⟩
    case isFalse =>
      split at found
      case isTrue literal =>
        cases found
        exact ⟨List.cons_ne_nil _ _, List.forall_mem_singleton.mpr literal⟩
      case isFalse =>
        obtain ⟨token, symbol, rfl⟩ := Option.map_eq_some_iff.mp found
        exact ⟨character, rfl, symbol⟩
  · intro matched
    exact of?_of_mem matched List.mem_cons_self

theorem of?_eq_none_iff {character : Char} :
    of? character = none ↔ isBlank character = false ∧
      Decimal.isLiteralCharacter character = false ∧ symbolToken? character = none := by
  unfold of?
  split
  case isTrue blank => simp [blank]
  case isFalse notBlank =>
    split
    case isTrue literal => simp [literal]
    case isFalse other => simp [notBlank, other]

theorem of?_of_front {rule : Rule} {piece rest : List Char} {character : Char}
    (matched : rule.Matches piece) (front : piece <+: character :: rest) :
    of? character = some rule := by
  cases piece with
  | nil => exact (ne_nil_of_matches matched rfl).elim
  | cons first piece =>
      obtain ⟨rfl, _⟩ := List.cons_prefix_cons.mp front
      exact of?_of_mem matched List.mem_cons_self

theorem produced_shift (start offset : Nat) (piece : List Char) (rule : Rule) :
    (rule.produced start piece).map (Item.shift offset) = rule.produced (start + offset) piece := by
  cases rule with
  | blanks => rfl
  | literal =>
      simp only [produced, List.map_cons, List.map_nil, Item.shift, Nat.add_right_comm]
      cases Decimal.ofLiteral? piece <;> rfl
  | symbol token => simp [produced, Item.shift, Except.mapError, Nat.add_right_comm]

theorem stop_of_mem_produced {rule : Rule} {start : Nat} {piece : List Char} {item : Item}
    (member : item ∈ rule.produced start piece) : item.stop = start + width piece := by
  cases rule with
  | blanks => cases member
  | literal => rw [List.mem_singleton.mp member]
  | symbol token => rw [List.mem_singleton.mp member]

end Rule

theorem scan_blanks {blanks : List Char} (all : ∀ character ∈ blanks, isBlank character = true) :
    scan blanks = [] := by
  induction blanks with
  | nil => rfl
  | cons character blanks ih =>
      obtain ⟨here, later⟩ := List.forall_mem_cons.mp all
      rw [scan_blank_cons here, ih later, List.map_nil]

theorem items_of_single {character : Char} (shown : isBlank character = false)
    (other : Decimal.isLiteralCharacter character = false) :
    items [character] =
      [⟨0, width [character],
        (symbolToken? character).elim (.error (.invalidCharacter character 0)) .ok⟩] := by
  have alone : scan [character] = [⟨0, [character]⟩] := scan_alone rfl (by simp [shown])
  simp only [items, alone, List.map_cons, List.map_nil, item, stop, token_of_single other,
    Nat.zero_add]

theorem items_of_foreign {character : Char} (unruled : Rule.of? character = none) (start : Nat)
    (rest : List Char) :
    (items (character :: rest)).map (Item.shift start) =
      ⟨start, start + character.utf8Size, .error (.invalidCharacter character start)⟩ ::
        (items rest).map (Item.shift (start + character.utf8Size)) := by
  obtain ⟨shown, other, foreign⟩ := Rule.of?_eq_none_iff.mp unruled
  have split := items_append_from start (safeCut_behind other rest)
  rw [items_of_single shown other, foreign] at split
  simpa [Item.shift, Except.mapError, CalculationError.shift, width, Nat.add_comm] using split

theorem items_of_matches {rule : Rule} {piece : List Char} (matched : rule.Matches piece) :
    items piece = rule.produced 0 piece := by
  cases rule with
  | blanks =>
      rw [items, scan_blanks matched.2]
      rfl
  | literal =>
      obtain ⟨nonempty, literal⟩ := matched
      have reading : token ⟨0, piece⟩ = _ := token_of_run literal
      rw [items, scan_alone (pieces_of_run nonempty literal) (not_blank_of_run nonempty literal)]
      simp only [List.map_cons, List.map_nil, item, stop, reading, Rule.produced]
  | symbol token =>
      obtain ⟨character, rfl, symbol⟩ := matched
      obtain ⟨notBlank, other⟩ := Rule.plain_of_symbol symbol
      rw [items_of_single notBlank other, symbol, Rule.produced, Nat.zero_add]
      rfl

theorem LongestMatch.cut_behind {rule : Rule} {piece rest : List Char}
    (longest : LongestMatch rule piece rest) : SafeCut piece rest := by
  intro last final next first
  rw [Bool.eq_false_iff]
  intro joined
  obtain ⟨lastLiteral, nextLiteral⟩ := Bool.and_eq_true_iff.mp joined
  have found := Rule.of?_of_mem longest.matched (List.mem_of_getLast? final)
  rw [Rule.of?_of_literal lastLiteral] at found
  cases found
  obtain ⟨later, rfl⟩ := List.head?_eq_some_iff.mp first
  have front : piece ++ [next] <+: piece ++ next :: later := ⟨later, by simp⟩
  have both : Rule.literal.Matches (piece ++ [next]) := by
    refine ⟨by simp, List.forall_mem_append.mpr ⟨longest.matched.2, ?_⟩⟩
    simpa using nextLiteral
  have short := longest.longest _ _ front both
  rw [List.length_append, List.length_singleton] at short
  omega

theorem LongestMatch.ne_nil {rule : Rule} {piece rest : List Char}
    (longest : LongestMatch rule piece rest) : piece ≠ [] :=
  Rule.ne_nil_of_matches longest.matched

theorem LongestMatch.unique {rule other : Rule} {piece piece' rest rest' : List Char}
    (longest : LongestMatch rule piece rest) (again : LongestMatch other piece' rest')
    (same : piece ++ rest = piece' ++ rest') : rule = other ∧ piece = piece' ∧ rest = rest' := by
  have front : piece <+: piece' ++ rest' := ⟨rest, same⟩
  have front' : piece' <+: piece ++ rest := ⟨rest', same.symm⟩
  have shorter := again.longest _ _ front longest.matched
  have longer := longest.longest _ _ front' again.matched
  obtain ⟨rfl, rfl⟩ := List.append_inj same (Nat.le_antisymm shorter longer)
  obtain ⟨first, member⟩ := List.exists_mem_of_ne_nil piece longest.ne_nil
  have found := Rule.of?_of_mem longest.matched member
  rw [Rule.of?_of_mem again.matched member] at found
  cases found
  exact ⟨rfl, rfl, rfl⟩

theorem longestMatch_of_run {rule : Rule} {inside : Char → Bool}
    (isRun : ∀ piece, rule.Matches piece ↔
      piece ≠ [] ∧ ∀ character ∈ piece, inside character = true)
    {character : Char} (matched : rule.Matches [character]) (rest : List Char) :
    LongestMatch rule ((character :: rest).takeWhile inside)
      ((character :: rest).dropWhile inside) := by
  have here : inside character = true := ((isRun _).mp matched).2 _ List.mem_cons_self
  constructor
  · refine (isRun _).mpr ⟨?_, fun _ member => List.mem_takeWhile_imp member⟩
    rw [List.takeWhile_cons_of_pos here]
    exact List.cons_ne_nil _ _
  · intro other longer front alsoMatched
    rw [List.takeWhile_append_dropWhile] at front
    have found := Rule.of?_of_front alsoMatched front
    rw [Rule.of?_eq_some_iff.mpr matched] at found
    cases found
    obtain ⟨behind, parts⟩ := front
    rw [← parts, List.takeWhile_append_of_pos ((isRun longer).mp alsoMatched).2]
    simp

theorem longestMatch_of_symbol {token : Token} {character : Char}
    (matched : (Rule.symbol token).Matches [character]) (rest : List Char) :
    LongestMatch (.symbol token) [character] rest := by
  refine ⟨matched, ?_⟩
  intro other longer front alsoMatched
  have found := Rule.of?_of_front alsoMatched front
  rw [Rule.of?_eq_some_iff.mpr matched] at found
  cases found
  obtain ⟨only, rfl, _⟩ := alsoMatched
  exact Nat.le_refl _

theorem exists_longestMatch {rule : Rule} {character : Char}
    (found : Rule.of? character = some rule) (rest : List Char) :
    ∃ piece back, character :: rest = piece ++ back ∧ LongestMatch rule piece back := by
  have matched := Rule.of?_eq_some_iff.mp found
  cases rule with
  | blanks =>
      exact ⟨_, _, List.takeWhile_append_dropWhile.symm,
        longestMatch_of_run (fun _ => Iff.rfl) matched rest⟩
  | literal =>
      exact ⟨_, _, List.takeWhile_append_dropWhile.symm,
        longestMatch_of_run (fun _ => Iff.rfl) matched rest⟩
  | symbol token => exact ⟨_, _, rfl, longestMatch_of_symbol matched rest⟩

theorem unmatched_of_none {character : Char} (unruled : Rule.of? character = none)
    (rest : List Char) (rule : Rule) (piece : List Char)
    (front : piece <+: character :: rest) : ¬rule.Matches piece := by
  intro matched
  have found := Rule.of?_of_front matched front
  rw [unruled] at found
  cases found

/-- The rules give the items of a text, wherever it starts. A match has any number of characters,
so this goes by the length of what is left. -/
theorem lexing_items (start : Nat) (text : List Char) :
    Lexing start text ((items text).map (Item.shift start)) := by
  induction length : text.length using Nat.strong_induction_on generalizing start text with
  | _ length ih =>
      subst length
      cases text with
      | nil => exact .finished start
      | cons character rest =>
          cases found : Rule.of? character with
          | none =>
              have behind := ih rest.length (Nat.lt_succ_self _)
                (start + character.utf8Size) rest rfl
              rw [items_of_foreign found start rest]
              exact .refused (unmatched_of_none found rest) behind
          | some rule =>
              obtain ⟨piece, back, parts, longest⟩ := exists_longestMatch found rest
              have positive := List.length_pos_iff.mpr longest.ne_nil
              have shorter : back.length < (character :: rest).length := by
                rw [parts, List.length_append]
                omega
              have behind := ih back.length shorter (start + width piece) back rfl
              rw [parts, items_append_from start longest.cut_behind,
                items_of_matches longest.matched, Rule.produced_shift, Nat.zero_add]
              exact .matched longest behind

theorem Lexing.unique {start : Nat} {text : List Char} {lexed lexed' : List Item}
    (lexing : Lexing start text lexed) (again : Lexing start text lexed') : lexed = lexed' := by
  induction lexing generalizing lexed' with
  | finished start =>
      generalize same : [] = text at again
      cases again with
      | finished => rfl
      | matched longest behind =>
          exact (longest.ne_nil (List.append_eq_nil_iff.mp same.symm).1).elim
      | refused unmatched behind => cases same
  | @matched start rule piece rest later longest behind ih =>
      generalize same : piece ++ rest = text at again
      cases again with
      | finished =>
          exact (longest.ne_nil (List.append_eq_nil_iff.mp same).1).elim
      | matched longest' behind' =>
          obtain ⟨rfl, rfl, rfl⟩ := longest.unique longest' same
          rw [ih behind']
      | refused unmatched behind' =>
          exact (unmatched rule piece ⟨rest, same⟩ longest.matched).elim
  | @refused start character rest later unmatched behind ih =>
      generalize same : character :: rest = text at again
      cases again with
      | finished => cases same
      | @matched _ rule piece rest' _ longest' behind' =>
          exact (unmatched rule piece ⟨rest', same.symm⟩ longest'.matched).elim
      | refused unmatched' behind' =>
          cases same
          rw [ih behind']

/-- The items of a text are what the rules give for it, and nothing else is. -/
theorem lexing_iff {text : List Char} {lexed : List Item} :
    Lexing 0 text lexed ↔ lexed = items text := by
  have own : Lexing 0 text (items text) := by
    simpa [Item.shift_zero] using lexing_items 0 text
  constructor
  · intro lexing
    exact lexing.unique own
  · rintro rfl
    exact own

theorem not_literal_of_unmatched {character : Char} {rest : List Char}
    (unmatched : ∀ (rule : Rule) (piece : List Char), piece <+: character :: rest →
      ¬rule.Matches piece) : Decimal.isLiteralCharacter character = false := by
  rw [Bool.eq_false_iff]
  intro literal
  exact unmatched .literal [character] ⟨rest, rfl⟩
    ⟨List.cons_ne_nil _ _, List.forall_mem_singleton.mpr literal⟩

/-- An item ends where the text can be cut: a longest match leaves nothing of a literal. -/
theorem Lexing.cut_at_stop {start : Nat} {text : List Char} {lexed : List Item}
    (lexing : Lexing start text lexed) :
    ∀ item ∈ lexed, ∃ front back, text = front ++ back ∧ item.stop = start + width front ∧
      SafeCut front back := by
  induction lexing with
  | finished start =>
      intro item member
      cases member
  | @matched start rule piece rest later longest behind ih =>
      intro item member
      rcases List.mem_append.mp member with here | further
      · exact ⟨piece, rest, rfl, Rule.stop_of_mem_produced here, longest.cut_behind⟩
      · obtain ⟨front, back, rfl, place, cut⟩ := ih item further
        refine ⟨piece ++ front, back, (List.append_assoc ..).symm, ?_,
          longest.cut_behind.append cut⟩
        rw [place, width_append, Nat.add_assoc]
  | @refused start character rest later unmatched behind ih =>
      have cut := safeCut_behind (not_literal_of_unmatched unmatched) rest
      intro item member
      rcases List.mem_cons.mp member with rfl | further
      · exact ⟨[character], rest, rfl, rfl, cut⟩
      · obtain ⟨front, back, rfl, place, later⟩ := ih item further
        refine ⟨[character] ++ front, back, rfl, ?_, cut.append later⟩
        rw [place, width_append, ← Nat.add_assoc]
        rfl

theorem eq_of_width {front back front' back' : List Char}
    (same : front ++ back = front' ++ back') (bytes : width front = width front') :
    front = front' ∧ back = back' := by
  have empty {between : List Char} (narrow : width between = 0) : between = [] := by
    by_contra nonempty
    have bytes := width_pos nonempty
    omega
  rcases List.append_eq_append_iff.mp same with ⟨between, rfl, rfl⟩ | ⟨between, rfl, rfl⟩
  · rw [width_append] at bytes
    rw [empty (show width between = 0 by omega)]
    simp
  · rw [width_append] at bytes
    rw [empty (show width between = 0 by omega)]
    simp

theorem exists_item_at_end {text : List Char} {last : Char} (final : last ∈ text.getLast?)
    (literal : Decimal.isLiteralCharacter last = true) :
    ∃ item ∈ items text, item.stop = width text := by
  rw [← flatten_pieces text] at final
  have nonempty : [] ∉ pieces text := List.nil_notMem_splitBy _ text
  obtain ⟨piece, lastPiece, ending⟩ := last_of_flatten nonempty final
  obtain ⟨before, split⟩ := List.getLast?_eq_some_iff.mp lastPiece
  have shown : piece.all isBlank = false :=
    List.all_eq_false.mpr ⟨last, List.mem_of_getLast? ending, by
      simp [not_isBlank_of_literal literal]⟩
  have lexeme : ⟨width before.flatten, piece⟩ ∈ scan text := by
    rw [scan, split, located_append]
    simp [located, shown]
  refine ⟨_, List.mem_map_of_mem lexeme, ?_⟩
  have whole := flatten_pieces text
  rw [split, List.flatten_append, List.flatten_singleton] at whole
  rw [← whole, width_append]
  rfl

/-- Two texts are lexed one after the other as they are lexed alone, the second one farther on by
the bytes of the first, exactly if no literal goes on from the first to the second. -/
theorem items_append_iff_safeCut (first second : List Char) :
    items (first ++ second) = items first ++ (items second).map (Item.shift (width first)) ↔
      SafeCut first second := by
  constructor
  · -- If a literal went on, an item of the first text would end inside of it. No match does.
    intro apart last final next start
    rw [Bool.eq_false_iff]
    intro joined
    obtain ⟨lastLiteral, _⟩ := Bool.and_eq_true_iff.mp joined
    obtain ⟨item, member, ends⟩ := exists_item_at_end final lastLiteral
    have inside : item ∈ items (first ++ second) := by
      rw [apart]
      exact List.mem_append_left _ member
    have lexing : Lexing 0 (first ++ second) (items (first ++ second)) := lexing_iff.mpr rfl
    obtain ⟨front, back, parts, place, cut⟩ := lexing.cut_at_stop item inside
    rw [ends, Nat.zero_add] at place
    obtain ⟨rfl, rfl⟩ := eq_of_width parts place
    rw [cut last final next start] at joined
    cases joined
  · exact items_append

example : items ("1..2 \t".toList ++ "\n€".toList) =
    [⟨0, 4, .error (.invalidNumber "1..2".toList 0)⟩,
      ⟨7, 10, .error (.invalidCharacter '€' 7)⟩] := by
  decide +kernel

end Lexeme

end Calculator
