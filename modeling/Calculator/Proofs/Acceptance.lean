import Calculator.Proofs.Accounting
import Calculator.Proofs.Sentences
import Mathlib.Data.List.Chain

/-!
Accepted texts are sentences where no two values stand side by side.

Nobody checks that operands and operators alternate. But where values are kept apart, every group
holds at most one operand more than operators, so there is one number more than operators in all
only if no group falls short: only if every operator stands between two values.
-/

set_option autoImplicit false

namespace Calculator

namespace Token

def endsValue : Token → Bool
  | .number _ => true
  | .closeParen => true
  | _ => false

def startsValue : Token → Bool
  | .number _ => true
  | .openParen => true
  | _ => false

end Token

def juxtaposed : Except CalculationError Token → Except CalculationError Token → Bool
  | .ok left, .ok right => left.endsValue && right.startsValue
  | _, _ => false

/-- No value directly follows another, read behind a value or not. -/
def Apart : Bool → List Token → Prop
  | _, [] => True
  | behind, token :: tokens =>
      (behind && token.startsValue) = false ∧ Apart token.endsValue tokens

/-- Values and operators take turns, read behind a value or not and inside of so many groups. -/
inductive Alternates : Bool → Nat → List Token → Prop where
  | done : Alternates true 0 []
  | number {depth : Nat} {tokens : List Token} (value : Float)
      (after : Alternates true depth tokens) : Alternates false depth (.number value :: tokens)
  | openParen {depth : Nat} {tokens : List Token} (after : Alternates false (depth + 1) tokens) :
      Alternates false depth (.openParen :: tokens)
  | operator {depth : Nat} {tokens : List Token} (operator : Operator)
      (after : Alternates false depth tokens) :
      Alternates true depth (.operator operator :: tokens)
  | closeParen {depth : Nat} {tokens : List Token} (after : Alternates true depth tokens) :
      Alternates true (depth + 1) (.closeParen :: tokens)

structure WellPlaced (tokens : List Token) : Prop where
  operators : ∀ before operator after, tokens = before ++ .operator operator :: after →
    (∃ last ∈ before.getLast?, last.endsValue = true) ∧
      ∃ next ∈ after.head?, next.startsValue = true
  groups : ∀ before after, tokens ≠ before ++ .openParen :: .closeParen :: after
  parentheses : Closes 0 tokens

theorem apart_of_isChain {behind : Bool} {tokens : List Token}
    (chain : (tokens.map Except.ok).IsChain fun left right => juxtaposed left right = false)
    (start : ∀ next ∈ tokens.head?, (behind && next.startsValue) = false) :
    Apart behind tokens := by
  induction tokens generalizing behind with
  | nil => trivial
  | cons token tokens ih =>
      refine ⟨start token rfl, ?_⟩
      cases tokens with
      | nil => trivial
      | cons next tokens =>
          obtain ⟨between, chain⟩ := List.isChain_cons_cons.mp chain
          refine ih chain ?_
          intro following same
          cases same
          exact between

/-- The accounting of a text whose values are apart: at most one number more than operators, and
one more only if they alternate everywhere. -/
theorem numbers_le_operators (depth : Nat) (behind : Bool) (tokens : List Token)
    (closes : Closes depth tokens) (apart : Apart behind tokens) :
    (numbersOf tokens).length + behind.toNat ≤ (operatorsOf tokens).length + 1 ∧
      ((numbersOf tokens).length + behind.toNat = (operatorsOf tokens).length + 1 →
        Alternates behind depth tokens) := by
  induction tokens generalizing depth behind with
  | nil =>
      have outside : depth = 0 := closes
      subst outside
      cases behind with
      | false => simp [numbersOf, operatorsOf]
      | true => exact ⟨Nat.le_refl _, fun _ => .done⟩
  | cons token tokens ih =>
      obtain ⟨between, apart⟩ := apart
      cases token with
      | number value =>
          obtain ⟨bound, sharp⟩ := ih depth true closes apart
          have free : behind = false := by simpa [Token.startsValue] using between
          subst free
          simp only [numbersOf, operatorsOf, List.length_cons, Bool.toNat_true,
            Bool.toNat_false] at bound sharp ⊢
          exact ⟨by omega, fun even => .number value (sharp (by omega))⟩
      | openParen =>
          obtain ⟨bound, sharp⟩ := ih (depth + 1) false closes apart
          have free : behind = false := by simpa [Token.startsValue] using between
          subst free
          exact ⟨bound, fun even => .openParen (sharp even)⟩
      | operator operator =>
          obtain ⟨bound, sharp⟩ := ih depth false closes apart
          have one := Bool.toNat_le behind
          simp only [numbersOf, operatorsOf, List.length_cons, Bool.toNat_false] at bound sharp ⊢
          constructor
          · omega
          · intro even
            have full : behind = true := Bool.toNat_eq_one.mp (by omega)
            subst full
            exact .operator operator (sharp (by simp only [Bool.toNat_true] at even; omega))
      | closeParen =>
          cases depth with
          | zero => exact closes.elim
          | succ depth =>
              obtain ⟨bound, sharp⟩ := ih depth true closes apart
              have one := Bool.toNat_le behind
              simp only [numbersOf, operatorsOf, Bool.toNat_true] at bound sharp ⊢
              constructor
              · omega
              · intro even
                have full : behind = true := Bool.toNat_eq_one.mp (by omega)
                subst full
                exact .closeParen (sharp even)

/-- What stands behind a sum: the end of the text, or the end of the group that it is in. -/
inductive Ends : Nat → List Token → Prop where
  | finished : Ends 0 []
  | closed {outer : Nat} {tokens : List Token} (after : Alternates true outer tokens) :
      Ends (outer + 1) (.closeParen :: tokens)

theorem exists_phrase_of_atom (atom : Phrase 4) (steps level : Nat) (below : level + steps = 4) :
    ∃ phrase : Phrase level, phrase.tokens = atom.tokens := by
  induction steps generalizing level with
  | zero =>
      have top : level = 4 := below
      subst top
      exact ⟨atom, rfl⟩
  | succ steps ih =>
      obtain ⟨phrase, same⟩ := ih (level + 1) (by omega)
      exact ⟨.chain phrase .done, by simp [Phrase.tokens, Links.tokens, same]⟩

/-- An atom and an operator in front of a phrase make a phrase: the operator joins the chain of its
own level. -/
theorem exists_phrase_behind_operator (atom : Phrase 4) (operator : Operator) {level : Nat}
    (phrase : Phrase level) (binds : level ≤ operator.precedence) :
    ∃ longer : Phrase level,
      longer.tokens = atom.tokens ++ .operator operator :: phrase.tokens := by
  have top : operator.precedence ≤ 3 := by cases operator <;> decide
  match phrase with
  | .number _ => omega
  | .group _ => omega
  | .chain first links =>
      by_cases same : operator.precedence = level
      · obtain ⟨lifted, atomTokens⟩ := exists_phrase_of_atom atom (3 - level) (level + 1) (by omega)
        have joins := Operator.mem_joining_iff.mpr same
        refine ⟨.chain lifted (.link operator joins first links), ?_⟩
        simp [Phrase.tokens, Links.tokens, atomTokens]
      · obtain ⟨longer, longerTokens⟩ :=
          exists_phrase_behind_operator atom operator first (by omega)
        refine ⟨.chain longer links, ?_⟩
        simp [Phrase.tokens, longerTokens]

/-- Where values and operators take turns, a sum can be read up to the end of its group. The
induction is on the length, since what follows a group is shorter but no part of its derivation. -/
theorem exists_sum_of_alternates (length depth : Nat) (tokens : List Token)
    (short : tokens.length ≤ length) (alternates : Alternates false depth tokens) :
    ∃ (sum : Phrase 1) (rest : List Token), tokens = sum.tokens ++ rest ∧ Ends depth rest := by
  induction length generalizing depth tokens with
  | zero =>
      have ended : tokens = [] := List.length_eq_zero_iff.mp (by omega)
      subst ended
      cases alternates
  | succ length ih =>
      -- Behind an atom the sum ends, or an operator joins the atom to the sum that follows.
      have behindAtom (atom : Phrase 4) (later : List Token) (shorter : later.length ≤ length)
          (after : Alternates true depth later) :
          ∃ (sum : Phrase 1) (rest : List Token),
            atom.tokens ++ later = sum.tokens ++ rest ∧ Ends depth rest := by
        obtain ⟨alone, aloneTokens⟩ := exists_phrase_of_atom atom 3 1 rfl
        cases after with
        | done => exact ⟨alone, [], by rw [aloneTokens], .finished⟩
        | closeParen after => exact ⟨alone, _, by rw [aloneTokens], .closed after⟩
        | @operator depth tokens operator after =>
            simp only [List.length_cons] at shorter
            obtain ⟨sum, rest, split, ends⟩ := ih depth tokens (by omega) after
            obtain ⟨longer, longerTokens⟩ := exists_phrase_behind_operator atom operator sum
              (by cases operator <;> decide)
            refine ⟨longer, rest, ?_, ends⟩
            rw [longerTokens, split]
            simp
      cases alternates with
      | @number depth later value after =>
          simp only [List.length_cons] at short
          exact behindAtom (.number value) later (by omega) after
      | @openParen depth later after =>
          simp only [List.length_cons] at short
          obtain ⟨body, rest, split, ends⟩ := ih (depth + 1) later (by omega) after
          cases ends with
          | @closed outer behind after =>
              have shorter : behind.length ≤ length := by
                rw [split] at short
                simp only [List.length_append, List.length_cons] at short
                omega
              obtain ⟨sum, rest, joined, ends⟩ := behindAtom (.group body) behind shorter after
              refine ⟨sum, rest, ?_, ends⟩
              rw [← joined, split]
              simp [Phrase.tokens]

theorem exists_sentence_of_alternates {tokens : List Token}
    (alternates : Alternates false 0 tokens) : ∃ sentence : Phrase 1, tokens = sentence.tokens := by
  obtain ⟨sentence, rest, split, ends⟩ :=
    exists_sum_of_alternates tokens.length 0 tokens (Nat.le_refl _) alternates
  cases ends
  exact ⟨sentence, by rw [split, List.append_nil]⟩

theorem Alternates.behind_part {behind : Bool} {depth : Nat} {before after : List Token}
    (alternates : Alternates behind depth (before ++ after)) :
    ∃ inner, Alternates ((before.getLast?.map Token.endsValue).getD behind) inner after := by
  induction before generalizing behind depth with
  | nil => exact ⟨depth, alternates⟩
  | cons token before ih =>
      have next : ∃ inner, Alternates token.endsValue inner (before ++ after) := by
        cases alternates with
        | number value after => exact ⟨_, after⟩
        | openParen after => exact ⟨_, after⟩
        | operator operator after => exact ⟨_, after⟩
        | closeParen after => exact ⟨_, after⟩
      obtain ⟨inner, rest⟩ := next
      obtain ⟨innermost, last⟩ := ih rest
      refine ⟨innermost, ?_⟩
      cases before with
      | nil => exact last
      | cons other before =>
          rw [List.getLast?_cons_cons]
          rw [List.getLast?_eq_some_getLast (List.cons_ne_nil other before)] at last ⊢
          exact last

theorem wellPlaced_of_alternates {tokens : List Token} (alternates : Alternates false 0 tokens)
    (closes : Closes 0 tokens) : WellPlaced tokens := by
  refine ⟨?_, ?_, closes⟩
  · intro before operator after split
    subst split
    obtain ⟨inner, here⟩ := alternates.behind_part
    cases last : before.getLast? with
    | none =>
        rw [last] at here
        cases here
    | some ending =>
        rw [last] at here
        generalize ended : ((some ending).map Token.endsValue).getD false = behind at here
        cases here with
        | operator _ after =>
            refine ⟨⟨ending, rfl, ended⟩, ?_⟩
            cases after with
            | number value _ => exact ⟨_, rfl, rfl⟩
            | openParen _ => exact ⟨_, rfl, rfl⟩
  · intro before after split
    subst split
    obtain ⟨inner, here⟩ := alternates.behind_part
    generalize (before.getLast?.map Token.endsValue).getD false = behind at here
    cases here with
    | openParen inside => cases inside

theorem accepted_balances {evaluator : Evaluator} {text : List Char} {value : Float}
    (accepted : evaluator.evaluate text = .ok value) :
    ∃ tokens, Lexeme.readings text = tokens.map .ok ∧ Closes 0 tokens ∧
      (numbersOf tokens).length = (operatorsOf tokens).length + 1 := by
  rw [Plan.evaluate_settles_plan] at accepted
  obtain ⟨ran, pending, status⟩ := Plan.settle_eq_ok accepted
  obtain ⟨clean, balanced⟩ := (Plan.status_eq_ok_iff _ _).mp ⟨pending, status⟩
  have left := Plan.operands_of_completed ran status
  refine ⟨tokensOf (Lexeme.readings text), map_tokensOf_of_clean clean,
    (closes_iff_balanced _).mpr balanced, ?_⟩
  rw [← left, List.length_singleton, Nat.add_comm]

/-- What is accepted without a juxtaposition is a sentence, and has the value of its tree. -/
theorem accepted_is_sentence (evaluator : Evaluator) (text : List Char) (value : Float)
    (apart : (Lexeme.readings text).IsChain fun left right => juxtaposed left right = false)
    (accepted : evaluator.evaluate text = .ok value) :
    ∃ sentence : Phrase 1, Lexeme.readings text = sentence.tokens.map .ok ∧
      (sentence.tree evaluator.power).value = .ok value ∧ WellPlaced sentence.tokens := by
  obtain ⟨tokens, reads, closes, balance⟩ := accepted_balances accepted
  rw [reads] at apart
  have kept : Apart false tokens := apart_of_isChain apart (fun _ _ => rfl)
  have alternates := (numbers_le_operators 0 false tokens closes kept).2 balance
  obtain ⟨sentence, rfl⟩ := exists_sentence_of_alternates alternates
  refine ⟨sentence, reads, ?_, wellPlaced_of_alternates alternates closes⟩
  rw [← Plan.evaluate_eq_tree_value evaluator reads, accepted]

/-- A product in a sum, and the sum in a product. -/
theorem accepted_is_sentence_of_two_texts :
    let tight := "1+2 * 3".toList
    let grouped := "(1+2) * 3".toList
    let kept (text : List Char) :=
      (Lexeme.readings text).IsChain fun left right => juxtaposed left right = false
    let isSentence (text : List Char) (value : Float) :=
      ∃ sentence : Phrase 1, Lexeme.readings text = sentence.tokens.map .ok ∧
        (sentence.tree Evaluator.standard.power).value = .ok value ∧ WellPlaced sentence.tokens
    (kept tight ∧ Evaluator.standard.evaluate tight = .ok 7.0 ∧ isSentence tight 7.0) ∧
      (kept grouped ∧ Evaluator.standard.evaluate grouped = .ok 9.0 ∧ isSentence grouped 9.0) := by
  intro tight grouped kept isSentence
  have tightApart : kept tight := by decide +kernel
  have groupedApart : kept grouped := by decide +kernel
  have seven : Evaluator.standard.evaluate tight = .ok 7.0 := by decide +kernel
  have nine : Evaluator.standard.evaluate grouped = .ok 9.0 := by decide +kernel
  exact ⟨⟨tightApart, seven, accepted_is_sentence Evaluator.standard tight 7.0 tightApart seven⟩,
    groupedApart, nine, accepted_is_sentence Evaluator.standard grouped 9.0 groupedApart nine⟩

/-- Side by side, two values can make up for an operator that stands between none. -/
example : Evaluator.standard.evaluate "(2)(3)+".toList = .ok 5.0 := by decide +kernel

end Calculator
