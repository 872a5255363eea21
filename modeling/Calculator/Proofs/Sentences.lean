import Calculator.Proofs.Grammar
import Calculator.Proofs.PlanContents

/-!
Sentences of the grammar have the values of their trees.

While a phrase is read, a part of the postorder of its tree is in the program and the rest waits
on top of what was pending before. Where the phrase ends, exactly these operators are left to be
released by whatever binds less, so the program of a sentence is the postorder of its tree.
-/

set_option autoImplicit false

namespace Calculator

namespace Plan

open Postfix

def AtLeast (level : Nat) (operators : List Operator) : Prop :=
  ∀ operator ∈ operators, level ≤ operator.precedence

/-- Nothing on top is released by an operator of at least this level. -/
def Holds (power : Associativity) (level : Nat) (pending : List Pending) : Prop :=
  ∀ incoming : Operator, level ≤ incoming.precedence →
    released (fun waiting => waiting.appliesBefore incoming power) pending = []

/-- Whether an operator lets those go first that wait above it in its own chain. -/
def Yields (power : Associativity) (level : Nat) (late : List Operator) : Prop :=
  ∀ waiting ∈ late, ∀ incoming : Operator, incoming.precedence = level →
    waiting.appliesBefore incoming power = true

theorem release_late {ready : Operator → Bool} {late : List Operator} {base : List Pending}
    (go : ∀ operator ∈ late, ready operator = true) (stay : released ready base = []) :
    release ready (late.map .operator ++ base) = ⟨late.map .apply, .ok base⟩ := by
  induction late with
  | nil => simp [release, stay, kept_of_released_eq_nil stay]
  | cons operator late ih =>
      have top : ready operator = true := go operator (by simp)
      have below := ih fun waiting member => go waiting (by simp [member])
      simp only [release, Plan.mk.injEq, Except.ok.injEq] at below ⊢
      simp [released, kept, top, below]

theorem closeGroup_late (late : List Operator) (outer : List Pending) :
    closeGroup (late.map .operator ++ .openParen :: outer) = ⟨late.map .apply, .ok outer⟩ := by
  have gone : release (fun _ => true) (late.map .operator ++ .openParen :: outer) =
      ⟨late.map .apply, .ok (.openParen :: outer)⟩ := release_late (fun _ _ => rfl) rfl
  simp [closeGroup, gone, andThen]

theorem drain_late (late : List Operator) :
    drain (late.map .operator) = ⟨late.map .apply, .ok []⟩ := by
  have gone : release (fun _ => true) (late.map .operator ++ []) = ⟨late.map .apply, .ok []⟩ :=
    release_late (fun _ _ => rfl) rfl
  rw [List.append_nil] at gone
  simp [drain, gone, andThen]

theorem appliesBefore_of_precedence_lt {waiting incoming : Operator} (power : Associativity)
    (tighter : incoming.precedence < waiting.precedence) :
    waiting.appliesBefore incoming power = true := by
  cases waiting <;> cases incoming <;> simp_all [Operator.precedence, Operator.appliesBefore]

theorem not_appliesBefore_of_precedence_lt {waiting incoming : Operator} (power : Associativity)
    (looser : waiting.precedence < incoming.precedence) :
    waiting.appliesBefore incoming power = false := by
  cases waiting <;> cases incoming <;> simp_all [Operator.precedence, Operator.appliesBefore]

theorem appliesBefore_of_precedence_eq {waiting incoming : Operator} (power : Associativity)
    (same : waiting.precedence = incoming.precedence) :
    waiting.appliesBefore incoming power = !incoming.groupsRight power := by
  cases waiting <;> cases incoming <;> cases power <;> first
    | rfl
    | simp [Operator.precedence] at same

theorem Holds.tighten {power : Associativity} {level : Nat} {pending : List Pending}
    (holds : Holds power level pending) : Holds power (level + 1) pending := by
  intro incoming tight
  exact holds incoming (by omega)

theorem holds_openParen (power : Associativity) (level : Nat) (pending : List Pending) :
    Holds power level (.openParen :: pending) := by
  intro incoming _
  rfl

theorem holds_operator {power : Associativity} {level : Nat} {operator : Operator}
    (pending : List Pending)
    (waits : ∀ incoming : Operator, level ≤ incoming.precedence →
      operator.appliesBefore incoming power = false) :
    Holds power level (.operator operator :: pending) := by
  intro incoming tight
  simp [released, waits incoming tight]

theorem incoming_releases_late {power : Associativity} {level : Nat} {incoming : Operator}
    {late : List Operator} {base : List Pending} (binds : incoming.precedence = level)
    (yields : Yields power level late) (holds : Holds power level base) :
    ofToken power (late.map .operator ++ base) (.operator incoming) =
      ⟨late.map .apply, .ok (.operator incoming :: base)⟩ := by
  have gone := release_late (fun waiting member => yields waiting member incoming binds)
    (holds incoming (Nat.le_of_eq binds.symm))
  simp [ofToken, gone, andThen]

theorem AtLeast.loosen {level : Nat} {operators : List Operator}
    (tighter : AtLeast (level + 1) operators) : AtLeast level operators :=
  fun operator member => Nat.le_of_succ_le (tighter operator member)

theorem AtLeast.append_singleton {level : Nat} {operators : List Operator} {operator : Operator}
    (bound : AtLeast level operators) (binds : operator.precedence = level) :
    AtLeast level (operators ++ [operator]) := by
  intro waiting member
  rcases List.mem_append.mp member with inside | last
  · exact bound waiting inside
  · rw [List.mem_singleton.mp last]
    exact Nat.le_of_eq binds.symm

theorem AtLeast.yields {power : Associativity} {level : Nat} {late : List Operator}
    (tighter : AtLeast (level + 1) late) : Yields power level late := by
  intro waiting member incoming same
  have bound := tighter waiting member
  exact appliesBefore_of_precedence_lt power (by omega)

theorem groupsRight_congr {operator other : Operator} (power : Associativity)
    (same : operator.precedence = other.precedence) :
    operator.groupsRight power = other.groupsRight power := by
  cases operator <;> cases other <;> first
    | rfl
    | simp [Operator.precedence] at same

theorem holds_of_groupsRight {power : Associativity} {level : Nat} {operator : Operator}
    (base : List Pending) (binds : operator.precedence = level)
    (grouped : operator.groupsRight power = true) :
    Holds power level (.operator operator :: base) := by
  refine holds_operator base fun incoming tight => ?_
  rcases Nat.eq_or_lt_of_le (Nat.le_trans (Nat.le_of_eq binds) tight) with same | tighter
  · rw [appliesBefore_of_precedence_eq power same, ← groupsRight_congr power same, grouped]
    rfl
  · exact not_appliesBefore_of_precedence_lt power tighter

theorem Yields.append_singleton {power : Associativity} {level : Nat} {late : List Operator}
    {operator : Operator} (yields : Yields power level late)
    (binds : operator.precedence = level) (ungrouped : operator.groupsRight power = false) :
    Yields power level (late ++ [operator]) := by
  intro waiting member incoming same
  rcases List.mem_append.mp member with inside | last
  · exact yields waiting inside incoming same
  · have chained : operator.precedence = incoming.precedence := binds.trans same.symm
    rw [List.mem_singleton.mp last, appliesBefore_of_precedence_eq power chained,
      ← groupsRight_congr power chained, ungrouped]
    rfl

/-- An operator of a chain and the phrase behind it, read before the rest of the chain. -/
theorem scan_link {power : Associativity} {operator : Operator} {next : List Token}
    {pending base reached : List Pending} {late : List Operator} {early : List Instruction}
    (later : List Token)
    (released : ofToken power pending (.operator operator) =
      ⟨late.map .apply, .ok (.operator operator :: base)⟩)
    (scanned : scan power (.operator operator :: base) (next.map .ok) = ⟨early, .ok reached⟩) :
    scan power pending ((Token.operator operator :: (next ++ later)).map .ok) =
      ⟨late.map .apply ++ (early ++ (scan power reached (later.map .ok)).program),
        (scan power reached (later.map .ok)).status⟩ := by
  simp only [List.map_cons, List.map_append, scan, ofReading, released, andThen]
  rw [scan_append_of_ok _ scanned]

mutual

theorem phrase_plan (power : Associativity) {level : Nat} (phrase : Phrase level)
    (base : List Pending) (holds : Holds power level base) :
    ∃ (early : List Instruction) (late : List Operator),
      scan power base (phrase.tokens.map .ok) = ⟨early, .ok (late.map .operator ++ base)⟩ ∧
      early ++ late.map .apply = (phrase.tree power).postorder ∧ AtLeast level late := by
  match phrase with
  | .number value =>
      exact ⟨[.push value], [], rfl, rfl, by simp [AtLeast]⟩
  | .group body =>
      obtain ⟨early, late, scanned, post, _⟩ :=
        phrase_plan power body (.openParen :: base) (holds_openParen power 1 base)
      refine ⟨early ++ late.map .apply, [], ?_, ?_, by simp [AtLeast]⟩
      · simp only [Phrase.tokens, List.map_cons, List.map_append, scan, ofReading, ofToken]
        simp only [andThen]
        rw [scan_append_of_ok _ scanned]
        simp [scan, ofReading, ofToken, closeGroup_late, andThen]
      · simpa [Phrase.tree] using post
  | .chain first links =>
      obtain ⟨early, late, scanned, post, tighter⟩ := phrase_plan power first base holds.tighten
      obtain ⟨more, left, chained, folded, bound⟩ :=
        links_plan power links (first.tree power) early late base holds tighter.yields post
          tighter.loosen
      refine ⟨early ++ more, left, ?_, ?_, bound⟩
      · simp only [Phrase.tokens, List.map_append]
        rw [scan_append_of_ok _ scanned, chained]
      · simpa [Phrase.tree] using folded

/-- The links of a chain, read behind a first tree of which `early` is in the program and `late`
is waiting. -/
theorem links_plan (power : Associativity) {level : Nat} (links : Links level) (first : Tree)
    (early : List Instruction) (late : List Operator) (base : List Pending)
    (holds : Holds power level base) (yields : Yields power level late)
    (post : early ++ late.map .apply = first.postorder) (bound : AtLeast level late) :
    ∃ (more : List Instruction) (left : List Operator),
      scan power (late.map .operator ++ base) (links.tokens.map .ok) =
        ⟨more, .ok (left.map .operator ++ base)⟩ ∧
      early ++ more ++ left.map .apply = (links.fold power first).postorder ∧
      AtLeast level left := by
  match links with
  | .done =>
      exact ⟨[], late, rfl, by simpa [Links.fold] using post, bound⟩
  | .link operator joins next links =>
      have binds := Operator.mem_joining_iff.mp joins
      obtain ⟨nextEarly, nextLate, scanned, nextPost, tighter⟩ :=
        phrase_plan power next (.operator operator :: base)
          (holds_operator base fun _ tight =>
            not_appliesBefore_of_precedence_lt power (by omega))
      have front := scan_link links.tokens (incoming_releases_late binds yields holds) scanned
      simp only [Links.tokens, Links.fold]
      cases grouped : operator.groupsRight power with
      | true =>
          -- The chain goes on inside of the right side, on top of this operator.
          obtain ⟨more, left, chained, folded, leftBound⟩ :=
            links_plan power links (next.tree power) nextEarly nextLate
              (.operator operator :: base) (holds_of_groupsRight base binds grouped)
              tighter.yields nextPost tighter.loosen
          refine ⟨late.map .apply ++ (nextEarly ++ more), left ++ [operator], ?_, ?_,
            leftBound.append_singleton binds⟩
          · rw [front, chained]
            simp
          · simp only [if_true, Tree.postorder]
            rw [← folded, ← post]
            simp
      | false =>
          -- The tree so far becomes the left side, and this operator waits with the late ones.
          have chainPost : early ++ late.map .apply ++ nextEarly ++
              (nextLate ++ [operator]).map .apply =
                (Tree.node operator first (next.tree power)).postorder := by
            simp only [Tree.postorder, ← post, ← nextPost]
            simp
          obtain ⟨more, left, chained, folded, leftBound⟩ :=
            links_plan power links (.node operator first (next.tree power))
              (early ++ late.map .apply ++ nextEarly) (nextLate ++ [operator]) base holds
              (tighter.yields.append_singleton binds grouped) chainPost
              (tighter.loosen.append_singleton binds)
          refine ⟨late.map .apply ++ (nextEarly ++ more), left, ?_, ?_, leftBound⟩
          · have waits : (nextLate ++ [operator]).map Pending.operator ++ base =
                nextLate.map .operator ++ .operator operator :: base := by
              simp
            rw [front, ← waits, chained]
          · simp only [Bool.false_eq_true, if_false]
            rw [← folded]
            simp

end

theorem ofReadings_sentence (power : Associativity) (sentence : Phrase 1) :
    ofReadings power (sentence.tokens.map .ok) = ⟨(sentence.tree power).postorder, .ok []⟩ := by
  obtain ⟨early, late, scanned, post, _⟩ := phrase_plan power sentence [] (fun _ _ => rfl)
  rw [List.append_nil] at scanned
  rw [ofReadings, scanned]
  simp only [andThen, drain_late]
  rw [post]

theorem settle_postorder (tree : Tree) (pending : List Pending) :
    settle ⟨tree.postorder, .ok pending⟩ = tree.value := by
  have ran := tree.run_postorder [] []
  rw [List.append_nil] at ran
  rw [settle]
  simp only [ran]
  cases tree.value <;> rfl

theorem evaluate_eq_tree_value (evaluator : Evaluator) {text : List Char} {sentence : Phrase 1}
    (reads : Lexeme.readings text = sentence.tokens.map .ok) :
    evaluator.evaluate text = (sentence.tree evaluator.power).value := by
  rw [evaluate_settles_plan, reads, ofReadings_sentence, settle_postorder]

end Plan

/-- An infix text has the value of its tree where the tree does not divide by zero, and is that
error where it does. -/
theorem evaluate_sentence (evaluator : Evaluator) (text : List Char) (sentence : Phrase 1)
    (reads : Lexeme.readings text = sentence.tokens.map .ok) :
    evaluator.evaluate text = (sentence.tree evaluator.power).value ∧
      ((¬(sentence.tree evaluator.power).DividesByZero ∧
          ∃ value, evaluator.evaluate text = .ok value) ∨
        ((sentence.tree evaluator.power).DividesByZero ∧
          evaluator.evaluate text = .error .divisionByZero)) := by
  have same := Plan.evaluate_eq_tree_value evaluator reads
  refine ⟨same, ?_⟩
  rw [same]
  exact (sentence.tree evaluator.power).value_cases

/-- A chain of powers that is grouped from the right, with a group at its end, under a division. -/
theorem evaluate_sentence_of_powers :
    let difference : Phrase 1 :=
      .chain (.chain (.chain (.number 3.0) .done) .done)
        (.link .sub (by decide) (.chain (.chain (.number 1.0) .done) .done) .done)
    let powers : Phrase 3 :=
      .chain (.number 2.0)
        (.link .pow (by decide) (.number 3.0) (.link .pow (by decide) (.group difference) .done))
    let sentence : Phrase 1 :=
      .chain (.chain powers (.link .div (by decide) (.chain (.number 4.0) .done) .done)) .done
    let text := "2^3^(3-1)\t/ 4".toList
    Lexeme.readings text = sentence.tokens.map .ok ∧
      Evaluator.evaluate ⟨.right⟩ text = (sentence.tree .right).value ∧
      ((¬(sentence.tree .right).DividesByZero ∧
          ∃ value, Evaluator.evaluate ⟨.right⟩ text = .ok value) ∨
        ((sentence.tree .right).DividesByZero ∧
          Evaluator.evaluate ⟨.right⟩ text = .error .divisionByZero)) := by
  intro difference powers sentence text
  have reads : Lexeme.readings text = sentence.tokens.map .ok := by decide +kernel
  exact ⟨reads, evaluate_sentence ⟨.right⟩ text sentence reads⟩

end Calculator
