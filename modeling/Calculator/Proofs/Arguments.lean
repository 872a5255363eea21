import Calculator.Proofs.OneShot

/-!
Which calls mean the same.

Arguments are read from the left, so what the earlier ones have come to is all that the later ones
find. A flag for more logging changes nothing of it but how much is logged, wherever it stands. An
expression may stand anywhere among the flags, and behind `--` any text is one.
-/

set_option autoImplicit false

namespace Calculator

namespace Options

/-- The ways to ask for more logging: by name, or by its letter as often as wanted. -/
inductive AsksForLog : List Char → Prop where
  | name : AsksForLog "--verbose".toList
  | letters (more : Nat) : AsksForLog ('-' :: List.replicate (more + 1) 'v')

def rightFlag : List Char := "--right-assoc-pow".toList

/-- Flags that can be given together, in any order: more logging any number of times, and the other
grouping of powers once at most. -/
structure OnlyFlags (arguments : List (List Char)) : Prop where
  known : ∀ argument ∈ arguments, AsksForLog argument ∨ argument = rightFlag
  once : arguments.count rightFlag ≤ 1

def powerOf (arguments : List (List Char)) : Associativity :=
  if rightFlag ∈ arguments then .right else .left

theorem read_cons (options : Options) (argument : List Char) (rest : List (List Char)) :
    options.read (argument :: rest) =
      if argument = ['-', '-'] then rest.foldlM takeExpression options
      else (options.take argument).bind fun taken => taken.read rest := by
  rw [read]
  cases options.take argument <;> rfl

/-- Up to a `--`, arguments are read one after the other. -/
theorem read_append {front : List (List Char)} (noEnd : ['-', '-'] ∉ front) (options : Options)
    (back : List (List Char)) :
    options.read (front ++ back) = (options.read front).bind fun reached => reached.read back := by
  induction front generalizing options with
  | nil => rfl
  | cons argument front ih =>
      rw [List.mem_cons, not_or] at noEnd
      rw [List.cons_append, read_cons, if_neg (Ne.symm noEnd.1), read_cons,
        if_neg (Ne.symm noEnd.1)]
      cases options.take argument with
      | ok taken => exact ih noEnd.2 taken
      | error interruption => rfl

/-- What the outputs depend on: all but how much is logged. -/
def request (options : Options) : Option (List Char) × Associativity :=
  (options.expression, options.power)

/-- Options with one request come to one request, or to one interruption. -/
def IgnoresLog (step : Options → Except Interruption Options) : Prop :=
  ∀ one other : Options, one.request = other.request →
    (step one).map request = (step other).map request

theorem ended_alike {one other : Except Interruption Options}
    (same : one.map request = other.map request) :
    (∃ interruption, one = .error interruption ∧ other = .error interruption) ∨
      ∃ options others, one = .ok options ∧ other = .ok others ∧
        options.request = others.request := by
  cases one with
  | error interruption =>
      cases other with
      | error another =>
          cases same
          exact .inl ⟨interruption, rfl, rfl⟩
      | ok others => cases same
  | ok options =>
      cases other with
      | error another => cases same
      | ok others => exact .inr ⟨options, others, rfl, rfl, Except.ok.inj same⟩

theorem ignoresLog_ok : IgnoresLog .ok := by
  intro one other same
  simp only [Except.map, same]

theorem IgnoresLog.bind {first second : Options → Except Interruption Options}
    (ignores : IgnoresLog first) (later : IgnoresLog second) :
    IgnoresLog fun options => (first options).bind second := by
  intro one other same
  obtain ⟨interruption, here, there⟩ | ⟨reached, others, here, there, alike⟩ :=
    ended_alike (ignores one other same)
  · simp only [here, there]
  · simp only [here, there]
    exact later reached others alike

theorem ignoresLog_foldlM {α : Type} {step : Options → α → Except Interruption Options}
    (ignores : ∀ item, IgnoresLog fun options => step options item) (items : List α) :
    IgnoresLog fun options => items.foldlM step options := by
  induction items with
  | nil => exact ignoresLog_ok
  | cons item items ih => exact (ignores item).bind ih

theorem ignoresLog_act (flag : Flag) : IgnoresLog fun options => options.act flag := by
  rintro ⟨expression, power, one⟩ ⟨_, _, other⟩ same
  cases same
  cases flag with
  | rightAssociativePower => cases power <;> rfl
  | verbose => rfl
  | help => rfl
  | version => rfl

theorem ignoresLog_takeExpression (argument : List Char) :
    IgnoresLog fun options => options.takeExpression argument := by
  rintro ⟨expression, power, one⟩ ⟨_, _, other⟩ same
  cases same
  cases expression <;> rfl

theorem ignoresLog_actOnLetter (letter : Char) :
    IgnoresLog fun options => options.actOnLetter letter := by
  unfold actOnLetter
  cases Flag.ofLetter? letter with
  | none => exact fun _ _ _ => rfl
  | some flag => exact ignoresLog_act flag

theorem ignoresLog_take (argument : List Char) :
    IgnoresLog fun options => options.take argument := by
  unfold take
  split
  · split
    · split
      · exact fun _ _ _ => rfl
      · exact ignoresLog_act _
    · exact ignoresLog_takeExpression _
  · intro one other same
    have expression : one.expression = other.expression := congrArg Prod.fst same
    simp only [expression]
    split
    · exact ignoresLog_takeExpression _ one other same
    · exact ignoresLog_foldlM ignoresLog_actOnLetter _ one other same
  · exact ignoresLog_takeExpression _

theorem ignoresLog_read (arguments : List (List Char)) :
    IgnoresLog fun options => options.read arguments := by
  induction arguments with
  | nil => exact ignoresLog_ok
  | cons argument arguments ih =>
      simp only [read_cons]
      split
      · exact ignoresLog_foldlM ignoresLog_takeExpression arguments
      · exact (ignoresLog_take argument).bind ih

theorem foldlM_actOnLetter_verbose (options : Options) (count : Nat) :
    ∃ verbosity, (List.replicate count 'v').foldlM actOnLetter options =
      .ok { options with verbosity := verbosity } := by
  induction count generalizing options with
  | zero => exact ⟨options.verbosity, rfl⟩
  | succ count ih => exact ih { options with verbosity := min 255 (options.verbosity + 1) }

theorem take_of_asksForLog {argument : List Char} (asks : AsksForLog argument)
    (options : Options) :
    ∃ verbosity, options.take argument = .ok { options with verbosity := verbosity } := by
  cases asks with
  | name => exact ⟨_, rfl⟩
  | letters more =>
      have known : (List.replicate (more + 1) 'v').any
          (fun letter => (Flag.ofLetter? letter).isNone) = false := by
        simp [Flag.ofLetter?]
      have taken (letters : List Char) : options.take ('-' :: 'v' :: letters) =
          if options.expression.isNone ∧
              ('v' :: letters).any fun letter => (Flag.ofLetter? letter).isNone
            then options.takeExpression ('-' :: 'v' :: letters)
            else ('v' :: letters).foldlM actOnLetter options := rfl
      rw [List.replicate_succ, taken, ← List.replicate_succ, known,
        if_neg fun both => Bool.false_ne_true both.2]
      exact foldlM_actOnLetter_verbose options (more + 1)

theorem AsksForLog.ne_others {argument : List Char} (asks : AsksForLog argument) :
    argument ≠ ['-', '-'] ∧ argument ≠ rightFlag := by
  cases asks with
  | name => decide
  | letters more =>
      rw [List.replicate_succ]
      constructor <;> intro same <;> cases same

theorem read_of_asksForLog {arguments : List (List Char)}
    (quiet : ∀ argument ∈ arguments, AsksForLog argument) (options : Options) :
    ∃ verbosity, options.read arguments = .ok { options with verbosity := verbosity } := by
  induction arguments generalizing options with
  | nil => exact ⟨options.verbosity, rfl⟩
  | cons argument arguments ih =>
      obtain ⟨here, later⟩ := List.forall_mem_cons.mp quiet
      obtain ⟨verbosity, taken⟩ := take_of_asksForLog here options
      rw [read, if_neg here.ne_others.1, taken]
      exact ih later { options with verbosity := verbosity }

theorem OnlyFlags.noEnd {arguments : List (List Char)} (flags : OnlyFlags arguments) :
    ['-', '-'] ∉ arguments := by
  intro member
  rcases flags.known _ member with asks | right
  · exact asks.ne_others.1 rfl
  · cases right

/-- Flags leave the expression and set the grouping, if that has not been done yet. -/
theorem read_of_onlyFlags {arguments : List (List Char)} (flags : OnlyFlags arguments)
    (options : Options) (unset : rightFlag ∈ arguments → options.power = .left) :
    ∃ verbosity, options.read arguments = .ok ⟨options.expression,
      if rightFlag ∈ arguments then .right else options.power, verbosity⟩ := by
  obtain ⟨known, once⟩ := flags
  induction arguments generalizing options with
  | nil => exact ⟨options.verbosity, rfl⟩
  | cons argument arguments ih =>
      obtain ⟨here, later⟩ := List.forall_mem_cons.mp known
      rcases here with asks | rfl
      · obtain ⟨notEnd, other⟩ := asks.ne_others
        rw [List.count_cons_of_ne other] at once
        rw [List.mem_cons, or_iff_right (Ne.symm other)] at unset
        obtain ⟨louder, taken⟩ := take_of_asksForLog asks options
        rw [read, if_neg notEnd, taken]
        simp only [List.mem_cons, or_iff_right (Ne.symm other)]
        exact ih { options with verbosity := louder } unset later once
      · rw [List.count_cons_self] at once
        have absent : arguments.count rightFlag = 0 := by omega
        have taken : options.take rightFlag = .ok { options with power := .right } := by
          have acts : options.take rightFlag = options.act .rightAssociativePower := rfl
          rw [acts, act, unset List.mem_cons_self]
          rfl
        -- The grouping is set now, and nothing behind sets it again.
        have rest := ih { options with power := .right }
          (fun member => (List.count_eq_zero.mp absent member).elim) later (by omega)
        rw [ite_self] at rest
        rw [read, if_neg (by decide), taken, if_pos List.mem_cons_self]
        exact rest

theorem OnlyFlags.of_append {front back : List (List Char)} (flags : OnlyFlags (front ++ back)) :
    OnlyFlags front ∧ OnlyFlags back ∧ (rightFlag ∈ back → rightFlag ∉ front) := by
  obtain ⟨known, once⟩ := flags
  obtain ⟨before, after⟩ := List.forall_mem_append.mp known
  rw [List.count_append] at once
  refine ⟨⟨before, by omega⟩, ⟨after, by omega⟩, ?_⟩
  intro behind inFront
  have oneBehind := List.count_pos_iff.mpr behind
  have oneInFront := List.count_pos_iff.mpr inFront
  omega

theorem read_behind_end {arguments : List (List Char)} (flags : OnlyFlags arguments)
    (text : List Char) :
    ∃ verbosity, initial.read (arguments ++ [['-', '-'], text]) =
      .ok ⟨some text, powerOf arguments, verbosity⟩ := by
  obtain ⟨verbosity, reached⟩ := read_of_onlyFlags flags initial fun _ => rfl
  refine ⟨verbosity, ?_⟩
  rw [read_append flags.noEnd, reached]
  rfl

theorem read_among {before after : List (List Char)} (flags : OnlyFlags (before ++ after))
    {text : List Char} (plain : text.head? ≠ some '-') :
    ∃ verbosity, initial.read (before ++ text :: after) =
      .ok ⟨some text, powerOf (before ++ after), verbosity⟩ := by
  obtain ⟨front, back, apart⟩ := flags.of_append
  have notEnd : text ≠ ['-', '-'] := by
    rintro rfl
    exact plain rfl
  have taken (options : Options) : options.take text = options.takeExpression text := by
    unfold take
    split
    · exact (plain rfl).elim
    · exact (plain rfl).elim
    · rfl
  obtain ⟨early, reached⟩ := read_of_onlyFlags front initial fun _ => rfl
  obtain ⟨verbosity, ended⟩ := read_of_onlyFlags back
    ⟨some text, if rightFlag ∈ before then .right else .left, early⟩
    fun behind => if_neg (apart behind)
  refine ⟨verbosity, ?_⟩
  rw [read_append front.noEnd, reached]
  simp only [Except.bind]
  rw [read, if_neg notEnd, taken]
  simp only [takeExpression, initial]
  rw [ended]
  simp only [powerOf, List.mem_append]
  by_cases behind : rightFlag ∈ after <;> simp [behind]

end Options

namespace Outcome

open Options

theorem ofExpression_of_ok {evaluator : Evaluator} {text : List Char} {value : Float}
    (computed : evaluator.evaluate text = .ok value) :
    ofExpression evaluator text = ⟨0, Utf8.encode (Binary64.text value ++ ['\n']), []⟩ := by
  rw [ofExpression, computed]
  rfl

theorem ofExpression_of_error {evaluator : Evaluator} {text : List Char}
    {error : CalculationError} (failed : evaluator.evaluate text = .error error) :
    ofExpression evaluator text =
      ⟨1, [], Utf8.encode ("Error: ".toList ++ error.message ++ ['\n'])⟩ := by
  rw [ofExpression, failed]
  rfl

theorem ofCall_congr {arguments others : List (List Char)}
    (same : (initial.read arguments).map request = (initial.read others).map request)
    (input : List UInt8) : ofCall arguments input = ofCall others input := by
  obtain ⟨interruption, here, there⟩ | ⟨⟨expression, power, _⟩, ⟨_, _, _⟩, here, there, alike⟩ :=
    ended_alike same
  · simp only [ofCall, here, there]
  · cases alike
    simp only [ofCall, here, there]
    rfl

/-- A call with flags and, behind `--`, one text evaluates this text as it is, with the grouping
that the flags ask for: its value goes to the output, or its error to the other one. Without the
`--` the text may stand anywhere among the flags, if it does not start like one. -/
theorem one_expression_is_evaluated {flags : List (List Char)} (accepted : OnlyFlags flags)
    (text : List Char) (input : List UInt8) :
    let evaluator : Evaluator := ⟨powerOf flags⟩
    let outcome := ofCall (flags ++ [['-', '-'], text]) input
    (∀ value, evaluator.evaluate text = .ok value →
      outcome = ⟨0, Utf8.encode (Binary64.text value ++ ['\n']), []⟩) ∧
    (∀ error, evaluator.evaluate text = .error error →
      outcome = ⟨1, [], Utf8.encode ("Error: ".toList ++ error.message ++ ['\n'])⟩) ∧
    (text.head? ≠ some '-' → ∀ before after, flags = before ++ after →
      ofCall (before ++ text :: after) input = outcome) := by
  intro evaluator outcome
  obtain ⟨_, given⟩ := read_behind_end accepted text
  have whole : outcome = ofExpression evaluator text := ofCall_of_expression given input
  refine ⟨?_, ?_, ?_⟩
  · intro value computed
    rw [whole, ofExpression_of_ok computed]
  · intro error failed
    rw [whole, ofExpression_of_error failed]
  · rintro plain before after rfl
    obtain ⟨_, among⟩ := read_among accepted plain
    rw [whole]
    exact ofCall_of_expression among input

/-- A chain of powers and a difference among flags in three ways, and a text that looks like a
flag. -/
theorem one_expression_is_evaluated_of_three :
    let flags := ["-vv".toList, "--right-assoc-pow".toList, "--verbose".toList]
    let chain := " 2^3^2".toList
    let power : Float := 2.0 ^ (3.0 ^ 2.0)
    let difference := " 8-3-1".toList
    OnlyFlags flags ∧
    ofCall (flags ++ ["--".toList, chain]) [] =
      ⟨0, Utf8.encode (Binary64.text power ++ ['\n']), []⟩ ∧
    ofCall (flags ++ ["--".toList, difference]) [] = ⟨0, Utf8.encode "4.0\n".toList, []⟩ ∧
    difference.head? ≠ some '-' ∧
    ofCall (["-vv".toList] ++ difference :: ["--right-assoc-pow".toList, "--verbose".toList]) [] =
      ⟨0, Utf8.encode "4.0\n".toList, []⟩ ∧
    ofCall (flags ++ ["--".toList, "-h".toList]) [] =
      ⟨1, [], Utf8.encode "Error: Invalid character in expression: h\n".toList⟩ := by
  intro flags chain power difference
  have accepted : OnlyFlags flags := by
    refine ⟨?_, by decide⟩
    intro flag member
    simp only [flags, List.mem_cons, List.not_mem_nil, or_false] at member
    rcases member with rfl | rfl | rfl
    · exact Or.inl (.letters 1)
    · exact Or.inr rfl
    · exact Or.inl .name
  have right : powerOf flags = .right := by decide
  have plain : difference.head? ≠ some '-' := by decide
  obtain ⟨raises, _, _⟩ := one_expression_is_evaluated accepted chain []
  obtain ⟨subtracts, _, among⟩ := one_expression_is_evaluated accepted difference []
  obtain ⟨_, fails, _⟩ := one_expression_is_evaluated accepted "-h".toList []
  rw [right] at raises subtracts fails
  have reads : Lexeme.readings chain = [.ok (.number 2.0), .ok (.operator .pow),
      .ok (.number 3.0), .ok (.operator .pow), .ok (.number 2.0)] := by decide +kernel
  have raised : Evaluator.evaluate ⟨.right⟩ chain = .ok power := by
    rw [Plan.evaluate_settles_plan, reads]
    rfl
  have shown : Binary64.text 4.0 = "4.0".toList := by decide +kernel
  have subtracted := subtracts 4.0 (by decide +kernel)
  rw [shown] at subtracted
  refine ⟨accepted, raises power raised, subtracted, plain, ?_,
    fails (.invalidCharacter 'h' 1) (by decide +kernel)⟩
  exact (among plain ["-vv".toList] ["--right-assoc-pow".toList, "--verbose".toList] rfl).trans
    subtracted

/-- Flags for more logging change nothing, wherever they stand in front of a `--`: not what is
evaluated, and not whether there is a console, a help text, the version or an error. -/
theorem verbosity_does_not_interfere {before inserted : List (List Char)}
    (noEnd : ['-', '-'] ∉ before) (quiet : ∀ argument ∈ inserted, AsksForLog argument)
    (after : List (List Char)) (input : List UInt8) :
    ofCall (before ++ inserted ++ after) input = ofCall (before ++ after) input := by
  have noEndInserted : ['-', '-'] ∉ inserted := fun member => (quiet _ member).ne_others.1 rfl
  apply ofCall_congr
  rw [List.append_assoc, read_append noEnd, read_append noEnd]
  cases initial.read before with
  | error interruption => rfl
  | ok reached =>
      obtain ⟨verbosity, louder⟩ := read_of_asksForLog quiet reached
      simp only [Except.bind]
      rw [read_append noEndInserted, louder]
      exact ignoresLog_read after _ reached rfl

/-- Behind an expression that looks like a flag, and in front of a `--` that makes a flag the
expression. -/
theorem verbosity_does_not_interfere_with_two_calls :
    let inserted := ["-v".toList, "--verbose".toList]
    (∀ argument ∈ inserted, AsksForLog argument) ∧
    ofCall (["-5".toList] ++ inserted ++ ["-V".toList]) [] =
      ⟨0, Utf8.encode "infixa 0.1.0\n".toList, []⟩ ∧
    ofCall ([] ++ inserted ++ ["--".toList, "-v".toList]) [] =
      ⟨1, [], Utf8.encode "Error: Invalid character in expression: v\n".toList⟩ := by
  intro inserted
  have quiet : ∀ argument ∈ inserted, AsksForLog argument := by
    intro argument member
    simp only [inserted, List.mem_cons, List.not_mem_nil, or_false] at member
    rcases member with rfl | rfl
    · exact .letters 0
    · exact .name
  have noEnd : ['-', '-'] ∉ ["-5".toList] := by decide
  refine ⟨quiet, ?_, ?_⟩
  · exact (verbosity_does_not_interfere noEnd quiet ["-V".toList] []).trans (by decide)
  · exact (verbosity_does_not_interfere List.not_mem_nil quiet ["--".toList, "-v".toList] []).trans
      (by decide +kernel)

end Outcome

end Calculator
