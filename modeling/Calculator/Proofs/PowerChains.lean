import Calculator.Proofs.Sentences

/-!
Where the grouping of powers is of no account.

An incoming operator is compared with the operator that came before it in its own group: nested
groups have put their operators above it and taken them away again, and whatever else is pending
lies below. So the way powers are grouped is asked for only where two powers follow each other in
one group, whether the text is well formed or not.
-/

set_option autoImplicit false

namespace Calculator

/-- The operator that comes next in a group, if any comes. The groups that are opened on the way
are passed over; so many of them are open. -/
def nextInGroup : Nat → List Token → Option Operator
  | _, [] => none
  | nested, .number _ :: tokens => nextInGroup nested tokens
  | nested, .openParen :: tokens => nextInGroup (nested + 1) tokens
  | 0, .closeParen :: _ => none
  | nested + 1, .closeParen :: tokens => nextInGroup nested tokens
  | 0, .operator operator :: _ => some operator
  | nested + 1, .operator _ :: tokens => nextInGroup (nested + 1) tokens

/-- Whether some power is followed by a power in its own group. -/
def ChainsPowers (tokens : List Token) : Prop :=
  ∃ later, .operator .pow :: later <:+ tokens ∧ nextInGroup 0 later = some .pow

theorem nextInGroup_append {nested : Nat} {tokens : List Token} {operator : Operator}
    (next : nextInGroup nested tokens = some operator) (later : List Token) :
    nextInGroup nested (tokens ++ later) = some operator := by
  induction tokens generalizing nested with
  | nil => cases next
  | cons token tokens ih =>
      cases token with
      | number value => exact ih (by simpa only [nextInGroup] using next)
      | openParen => exact ih (by simpa only [nextInGroup] using next)
      | closeParen =>
          cases nested with
          | zero => cases next
          | succ nested => exact ih (by simpa only [nextInGroup] using next)
      | operator found =>
          cases nested with
          | zero => exact next
          | succ nested => exact ih (by simpa only [nextInGroup] using next)

theorem ChainsPowers.of_part {tokens longer : List Token} (chains : ChainsPowers tokens)
    (early : tokens <+: longer) : ChainsPowers longer := by
  obtain ⟨later, ⟨before, rfl⟩, next⟩ := chains
  obtain ⟨more, rfl⟩ := early
  exact ⟨later ++ more, ⟨before, by simp⟩, nextInGroup_append next more⟩

theorem not_chainsPowers_nil : ¬ChainsPowers [] := by
  rintro ⟨later, suffix, _⟩
  simp at suffix

theorem chainsPowers_cons_iff (token : Token) (tokens : List Token) :
    ChainsPowers (token :: tokens) ↔
      (token = .operator .pow ∧ nextInGroup 0 tokens = some .pow) ∨ ChainsPowers tokens := by
  constructor
  · rintro ⟨later, suffix, next⟩
    rcases List.suffix_cons_iff.mp suffix with whole | behind
    · cases whole
      exact Or.inl ⟨rfl, next⟩
    · exact Or.inr ⟨later, behind, next⟩
  · rintro (⟨rfl, next⟩ | ⟨later, suffix, next⟩)
    · exact ⟨tokens, List.suffix_refl _, next⟩
    · exact ⟨later, suffix.trans (List.suffix_cons token tokens), next⟩

instance decidableChainsPowers : (tokens : List Token) → Decidable (ChainsPowers tokens)
  | [] => isFalse not_chainsPowers_nil
  | token :: tokens =>
      have := decidableChainsPowers tokens
      decidable_of_iff _ (chainsPowers_cons_iff token tokens).symm

/-- The operator on top of each group that is open, if one waits there, the innermost group
first. -/
def groupTops : List Pending → List (Option Operator)
  | [] => [none]
  | .openParen :: pending => none :: groupTops pending
  | .operator operator :: pending => some operator :: (groupTops pending).tail

def PowersApart (pending : List Pending) (tokens : List Token) : Prop :=
  ∀ nested, (groupTops pending)[nested]? = some (some .pow) →
    nextInGroup nested tokens ≠ some .pow

theorem groupTops_operators_append (operators : List Operator) (pending : List Pending) :
    (groupTops (operators.map .operator ++ pending)).tail = (groupTops pending).tail := by
  induction operators with
  | nil => rfl
  | cons operator operators ih => exact ih

theorem groupTops_kept (ready : Operator → Bool) (pending : List Pending) :
    (groupTops (Plan.kept ready pending)).tail = (groupTops pending).tail := by
  rw [← groupTops_operators_append (Plan.released ready pending), Plan.released_append_kept]

namespace Plan

theorem release_pow_of_apart (power : Associativity) {pending : List Pending}
    (apart : (groupTops pending)[0]? ≠ some (some .pow)) :
    released (fun waiting => waiting.appliesBefore .pow power) pending = [] := by
  rcases pending with _ | ⟨top | _, pending⟩
  · rfl
  · have looser : top.precedence < Operator.pow.precedence := by
      cases top <;> first
        | decide
        | exact (apart rfl).elim
    simp [released, not_appliesBefore_of_precedence_lt power looser]
  · rfl

theorem ofToken_of_apart (power other : Associativity) {pending : List Pending} {token : Token}
    {tokens : List Token} (apart : PowersApart pending (token :: tokens)) :
    ofToken power pending token = ofToken other pending token := by
  cases token with
  | number value => rfl
  | openParen => rfl
  | closeParen => rfl
  | operator incoming =>
      rw [ofToken_operator, ofToken_operator]
      by_cases isPower : incoming = .pow
      · subst isPower
        -- what is on top binds looser than a power, so for either grouping it stays
        have different : (groupTops pending)[0]? ≠ some (some .pow) :=
          fun onTop => apart 0 onTop rfl
        have stays (grouping : Associativity) := release_pow_of_apart grouping different
        rw [stays power, stays other, kept_of_released_eq_nil (stays power),
          kept_of_released_eq_nil (stays other)]
      · rw [Operator.appliesBefore_congr isPower power other]

/-- Behind a token the groups have the tops that they had, but for its own group. -/
theorem apart_behind_token {power : Associativity} {pending next : List Pending} {token : Token}
    {tokens : List Token} (apart : PowersApart pending (token :: tokens))
    (single : token = .operator .pow → nextInGroup 0 tokens ≠ some .pow)
    (continues : (ofToken power pending token).status = .ok next) : PowersApart next tokens := by
  intro nested onTop
  cases token with
  | number value =>
      cases continues
      simpa only [nextInGroup] using apart nested onTop
  | openParen =>
      cases continues
      cases nested with
      | zero => cases onTop
      | succ nested => simpa only [nextInGroup] using apart nested onTop
  | closeParen =>
      have tops := groupTops_kept (fun _ => true) pending
      rw [ofToken] at continues
      rcases closeGroup_cases pending with ⟨_, closes⟩ | ⟨outer, group, closes⟩
      · rw [closes] at continues
        cases continues
      · rw [closes] at continues
        cases continues
        rw [group] at tops
        have below : (groupTops pending)[nested + 1]? = some (some .pow) := by
          rw [← List.getElem?_tail, ← tops]
          exact onTop
        simpa only [nextInGroup] using apart (nested + 1) below
  | operator incoming =>
      -- it is the top of its own group now, which is where `single` is asked
      have tops := groupTops_kept (fun waiting => waiting.appliesBefore incoming power) pending
      rw [ofToken_operator] at continues
      cases continues
      cases nested with
      | zero =>
          cases onTop
          exact single rfl
      | succ nested =>
          have below : (groupTops pending)[nested + 1]? = some (some .pow) := by
            rw [← List.getElem?_tail, ← tops, List.getElem?_tail]
            simpa [groupTops] using onTop
          simpa only [nextInGroup] using apart (nested + 1) below

theorem scan_of_apart (power other : Associativity) {pending : List Pending}
    {readings : List (Except CalculationError Token)}
    (apart : PowersApart pending (leadingTokens readings))
    (single : ¬ChainsPowers (leadingTokens readings)) :
    scan power pending readings = scan other pending readings := by
  induction readings generalizing pending with
  | nil => rfl
  | cons reading readings ih =>
      cases reading with
      | error error => rfl
      | ok token =>
          have same := ofToken_of_apart power other apart
          simp only [scan, ofReading]
          rw [← same]
          cases continues : (ofToken power pending token).status with
          | error fault => rw [andThen_of_error _ continues, andThen_of_error _ continues]
          | ok next =>
              rw [andThen_of_ok _ continues, andThen_of_ok _ continues]
              rw [leadingTokens, chainsPowers_cons_iff, not_or, not_and] at single
              have later := ih (apart_behind_token apart single.1 continues) single.2
              rw [later]

theorem ofReadings_of_apart (power other : Associativity)
    {readings : List (Except CalculationError Token)}
    (single : ¬ChainsPowers (leadingTokens readings)) :
    ofReadings power readings = ofReadings other readings := by
  have empty : PowersApart [] (leadingTokens readings) := by
    intro nested onTop
    cases nested with
    | zero => cases onTop
    | succ nested => simp [groupTops] at onTop
  rw [ofReadings, ofReadings, scan_of_apart power other empty single]

end Plan

namespace Evaluator

/-- Where no power follows a power in its own group, powers that group from the left and powers that
group from the right give the same value or the same error. -/
theorem grouping_is_immaterial (text : List Char)
    (single : ¬ChainsPowers (tokensOf (Lexeme.readings text))) :
    Evaluator.evaluate ⟨.left⟩ text = Evaluator.evaluate ⟨.right⟩ text := by
  have leading : ¬ChainsPowers (leadingTokens (Lexeme.readings text)) :=
    fun chains => single (chains.of_part (leadingTokens_are_first _))
  rw [Plan.evaluate_settles_plan, Plan.evaluate_settles_plan,
    Plan.ofReadings_of_apart .left .right leading]

/-- Powers in three groups inside of each other and two in one group with a difference between them;
and a power in a group that is never closed. -/
theorem grouping_is_immaterial_in_two_texts :
    let value : Float := (2.0 ^ (3.0 ^ 1.0) - 2.0 ^ 2.0) ^ (3.0 - 1.0)
    (¬ChainsPowers (tokensOf (Lexeme.readings "(2^(3^1)-2^2)^(3-1)".toList)) ∧
      Evaluator.evaluate ⟨.left⟩ "(2^(3^1)-2^2)^(3-1)".toList = .ok value ∧
      Evaluator.evaluate ⟨.left⟩ "(2^(3^1)-2^2)^(3-1)".toList =
        Evaluator.evaluate ⟨.right⟩ "(2^(3^1)-2^2)^(3-1)".toList) ∧
    (¬ChainsPowers (tokensOf (Lexeme.readings "2^(3^2*".toList)) ∧
      Evaluator.evaluate ⟨.left⟩ "2^(3^2*".toList =
        Evaluator.evaluate ⟨.right⟩ "2^(3^2*".toList) := by
  intro value
  have reads : Lexeme.readings "(2^(3^1)-2^2)^(3-1)".toList = [.ok .openParen,
      .ok (.number 2.0), .ok (.operator .pow), .ok .openParen, .ok (.number 3.0),
      .ok (.operator .pow), .ok (.number 1.0), .ok .closeParen, .ok (.operator .sub),
      .ok (.number 2.0), .ok (.operator .pow), .ok (.number 2.0), .ok .closeParen,
      .ok (.operator .pow), .ok .openParen, .ok (.number 3.0), .ok (.operator .sub),
      .ok (.number 1.0), .ok .closeParen] := by decide +kernel
  have nested : ¬ChainsPowers (tokensOf (Lexeme.readings "(2^(3^1)-2^2)^(3-1)".toList)) := by
    decide +kernel
  have unclosed : ¬ChainsPowers (tokensOf (Lexeme.readings "2^(3^2*".toList)) := by
    decide +kernel
  have computed : Evaluator.evaluate ⟨.left⟩ "(2^(3^1)-2^2)^(3-1)".toList = .ok value := by
    rw [Plan.evaluate_settles_plan, reads]
    rfl
  exact ⟨⟨nested, computed, grouping_is_immaterial _ nested⟩, unclosed,
    grouping_is_immaterial _ unclosed⟩

/-- A group between two powers does not part them. -/
example : ChainsPowers (tokensOf (Lexeme.readings "2^(1+2)^2".toList)) ∧
    Evaluator.evaluate ⟨.left⟩ "2^(1+2)^2".toList = .ok ((2.0 ^ (1.0 + 2.0)) ^ 2.0) ∧
    Evaluator.evaluate ⟨.right⟩ "2^(1+2)^2".toList = .ok (2.0 ^ ((1.0 + 2.0) ^ 2.0)) := by
  have reads : Lexeme.readings "2^(1+2)^2".toList = [.ok (.number 2.0), .ok (.operator .pow),
      .ok .openParen, .ok (.number 1.0), .ok (.operator .add), .ok (.number 2.0),
      .ok .closeParen, .ok (.operator .pow), .ok (.number 2.0)] := by decide +kernel
  refine ⟨by decide +kernel, ?_, ?_⟩ <;> rw [Plan.evaluate_settles_plan, reads] <;> rfl

end Evaluator

end Calculator
