import Calculator.Console.Reply
import Mathlib.Data.List.Forall2
import Mathlib.Data.List.SplitBy

/-!
Lines of bytes and lines of text.

A console cuts its input behind every line feed, and that is the only cut of it into lines. No other
character has that byte in its encoding, so the bytes of a text are cut where the text is. What is
left behind some of the lines is cut into the lines that are left.
-/

set_option autoImplicit false

namespace Calculator

namespace Utf8

private theorem remainder_of_byte {code : Nat} {byte : UInt8} (same : UInt8.ofNat code = byte) :
    code % 256 = byte.toNat := by
  rw [← same]
  exact UInt8.toNat_ofNat'.symm

theorem line_feed_of_mem {character : Char}
    (member : (10 : UInt8) ∈ String.utf8EncodeChar character) : character = '\n' := by
  have code : character.val.toNat = 10 := by
    simp only [String.utf8EncodeChar] at member
    split at member
    · have same := remainder_of_byte (List.mem_singleton.mp member).symm
      have value : (10 : UInt8).toNat = 10 := rfl
      omega
    · -- Every byte of a longer encoding has its highest bit set.
      have high (code : Nat) (byte : 10 = UInt8.ofNat code) : code % 256 = 10 :=
        remainder_of_byte byte.symm
      split at member
      · simp only [List.mem_cons, List.not_mem_nil, or_false] at member
        rcases member with byte | byte <;> have := high _ byte <;> omega
      · split at member
        · simp only [List.mem_cons, List.not_mem_nil, or_false] at member
          rcases member with byte | byte | byte <;> have := high _ byte <;> omega
        · simp only [List.mem_cons, List.not_mem_nil, or_false] at member
          rcases member with byte | byte | byte | byte <;> have := high _ byte <;> omega
  exact Char.ext (UInt32.toNat_inj.mp code)

theorem encode_cons (character : Char) (text : List Char) :
    encode (character :: text) = String.utf8EncodeChar character ++ encode text :=
  List.flatMap_cons

theorem encode_injective : Function.Injective encode := by
  intro left right same
  have read := decode?_encode left
  rw [same, decode?_encode] at read
  exact (Option.some.inj read).symm

end Utf8

namespace Console

/-- The lines of a text without their line feeds. The last one may lack its own, but then it is not
empty. -/
def linesOf : List Char → List (List Char)
  | [] => []
  | character :: rest =>
      if character = '\n' then [] :: linesOf rest
      else
        match linesOf rest with
        | [] => [[character]]
        | line :: lines => (character :: line) :: lines

theorem linesOf_terminated {line : List Char} (rest : List Char) (oneLine : '\n' ∉ line) :
    linesOf (line ++ '\n' :: rest) = line :: linesOf rest := by
  induction line with
  | nil => simp [linesOf]
  | cons character line ih =>
      have other : character ≠ '\n' := fun same => oneLine (by simp [same])
      have later : '\n' ∉ line := fun member => oneLine (List.mem_cons_of_mem _ member)
      simp only [List.cons_append, linesOf, if_neg other, ih later]

/-- A cut of bytes into lines: no line is empty or goes on behind a line feed, and only the last may
lack its own. -/
structure AreLines (bytes : List UInt8) (cut : List (List UInt8)) : Prop where
  whole : bytes = cut.flatten
  filled : [] ∉ cut
  inner : ∀ line ∈ cut, 10 ∉ line.dropLast
  ended : ∀ line ∈ cut.dropLast, line.getLast? = some 10

theorem isChain_of_left_iff {α : Type} {holds : α → Prop} {list : List α} :
    list.IsChain (fun left _ => holds left) ↔ ∀ left ∈ list.dropLast, holds left := by
  induction list with
  | nil => simp
  | cons first list ih =>
      cases list with
      | nil => simp
      | cons next list =>
          rw [List.isChain_cons_cons, ih, List.dropLast_cons_cons, List.forall_mem_cons]

/-- The cut into lines is the only one. -/
theorem lines_eq_iff {bytes : List UInt8} {cut : List (List UInt8)} :
    lines bytes = cut ↔ AreLines bytes cut := by
  have inner (line : List UInt8) :
      (line.IsChain fun byte _ => (byte != 10) = true) ↔ 10 ∉ line.dropLast := by
    rw [isChain_of_left_iff]
    simp only [bne_iff_ne]
    exact List.forall_mem_ne'
  have ended (filled : [] ∉ cut) :
      (cut.IsChain fun line next => ∃ (lineFilled : line ≠ []) (_ : next ≠ []),
        (line.getLast lineFilled != 10) = false) ↔
        ∀ line ∈ cut.dropLast, line.getLast? = some 10 := by
    rw [← isChain_of_left_iff]
    apply List.IsChain.iff_of_mem_imp
    intro line next member nextMember
    have lineFilled : line ≠ [] := ne_of_mem_of_not_mem member filled
    have nextFilled : next ≠ [] := ne_of_mem_of_not_mem nextMember filled
    simp [List.getLast?_eq_some_getLast lineFilled, lineFilled, nextFilled]
  simp only [lines, List.splitBy_eq_iff, inner]
  constructor
  · rintro ⟨whole, filled, once, feeds⟩
    exact ⟨whole, filled, once, (ended filled).mp feeds⟩
  · rintro ⟨whole, filled, once, feeds⟩
    exact ⟨whole, filled, once, (ended filled).mpr feeds⟩

theorem areLines_lines (bytes : List UInt8) : AreLines bytes (lines bytes) :=
  lines_eq_iff.mp rfl

theorem AreLines.behind {bytes : List UInt8} {before left : List (List UInt8)}
    (cut : AreLines bytes (before ++ left)) : AreLines left.flatten left := by
  refine ⟨rfl, fun empty => cut.filled (List.mem_append_right _ empty),
    fun line member => cut.inner line (List.mem_append_right _ member), fun line member => ?_⟩
  apply cut.ended
  have filled : left ≠ [] := by
    rintro rfl
    exact List.not_mem_nil member
  rw [List.dropLast_append_of_ne_nil filled]
  exact List.mem_append_right _ member

theorem AreLines.of_suffix {bytes : List UInt8} {cut left : List (List UInt8)}
    (lines : AreLines bytes cut) (suffix : left <:+ cut) :
    left.flatten <:+ bytes ∧ AreLines left.flatten left := by
  obtain ⟨before, rfl⟩ := suffix
  refine ⟨?_, lines.behind⟩
  rw [lines.whole, List.flatten_append]
  exact List.suffix_append _ _

theorem AreLines.ends {bytes line : List UInt8} {before later : List (List UInt8)}
    (cut : AreLines bytes (before ++ line :: later)) : line.getLast? = some 10 ∨ later = [] := by
  by_cases last : later = []
  · exact Or.inr last
  · left
    apply cut.ended
    rw [List.dropLast_append_of_ne_nil (List.cons_ne_nil line later),
      List.dropLast_cons_of_ne_nil last]
    simp

theorem lines_line_feed (bytes : List UInt8) : lines (10 :: bytes) = [10] :: lines bytes :=
  List.splitBy_append (l := [10]) (by simp)

theorem lines_append {front : List UInt8} (bytes : List UInt8) (filled : front ≠ [])
    (goesOn : 10 ∉ front) :
    lines (front ++ bytes) =
      match lines bytes with
      | [] => [front]
      | line :: later => (front ++ line) :: later := by
  have other (byte : UInt8) (member : byte ∈ front) : (byte != 10) = true := by
    rw [bne_iff_ne]
    rintro rfl
    exact goesOn member
  have chain : front.IsChain fun byte _ => (byte != 10) = true :=
    (List.pairwise_of_forall_mem_list fun byte member _ _ => other byte member).isChain
  cases cut : lines bytes with
  | nil =>
      have empty : bytes = [] := List.splitBy_eq_nil.mp cut
      subst empty
      rw [List.append_nil]
      exact List.splitBy_of_isChain filled chain
  | cons line later =>
      obtain ⟨whole, nonempty, inner, between⟩ := List.splitBy_eq_iff.mp cut
      have lineFilled : line ≠ [] := fun empty => nonempty (by simp [empty])
      apply List.splitBy_eq_iff.mpr
      refine ⟨by simp [whole], ?_, ?_, ?_⟩
      · have laterNonempty : [] ∉ later := fun empty => nonempty (List.mem_cons_of_mem _ empty)
        simp [filled, laterNonempty]
      · intro piece member
        rcases List.mem_cons.mp member with rfl | member
        · apply chain.append (inner line List.mem_cons_self)
          intro byte last _ _
          exact other byte (List.mem_of_getLast? last)
        · exact inner piece (List.mem_cons_of_mem _ member)
      · have links := List.isChain_cons.mp between
        apply List.isChain_cons.mpr
        refine ⟨?_, links.2⟩
        intro next first
        obtain ⟨_, nextFilled, feed⟩ := links.1 next first
        refine ⟨by simp [filled], nextFilled, ?_⟩
        rw [List.getLast_append_of_ne_nil _ lineFilled]
        exact feed

/-- The lines of an encoded text are those of the text, each with its line feed if it has one. -/
theorem lines_encode (text : List Char) :
    List.Forall₂ (fun line bytes => bytes = Utf8.encode line ∨ bytes = lineOf line)
      (linesOf text) (lines (Utf8.encode text)) := by
  induction text with
  | nil => exact List.Forall₂.nil
  | cons character rest ih =>
      rw [Utf8.encode_cons]
      by_cases feed : character = '\n'
      · subst feed
        have byte : String.utf8EncodeChar '\n' = [10] := rfl
        rw [byte, List.singleton_append, lines_line_feed]
        simp only [linesOf, if_true]
        exact List.Forall₂.cons (Or.inr rfl) ih
      · have goesOn : 10 ∉ String.utf8EncodeChar character :=
          fun member => feed (Utf8.line_feed_of_mem member)
        rw [lines_append _ String.utf8EncodeChar_ne_nil goesOn]
        simp only [linesOf, if_neg feed]
        generalize linesOf rest = read, lines (Utf8.encode rest) = cut at ih ⊢
        cases ih with
        | nil =>
            have alone : String.utf8EncodeChar character = Utf8.encode [character] := by
              rw [Utf8.encode_cons, Utf8.encode, List.flatMap_nil, List.append_nil]
            exact List.Forall₂.cons (Or.inl alone) List.Forall₂.nil
        | cons same later =>
            refine List.Forall₂.cons ?_ later
            rcases same with rfl | rfl
            · exact Or.inl (Utf8.encode_cons character _).symm
            · exact Or.inr (Utf8.encode_cons character _).symm

end Console

end Calculator
