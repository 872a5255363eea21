import Calculator.Proofs.Resumption

/-!
Runs on a sink that fills up.

A sink with a limit holds the first bytes of what a sink without one holds. As long as there is
room, a run cannot tell the two apart. The write that finds no room ends the run, and a line is
read only behind a whole prompt: so no line is lost whose prompt does not stand on the sink.
-/

set_option autoImplicit false

namespace Calculator

namespace Sink

theorem size_append (written : Array UInt8) (bytes : List UInt8) :
    (written ++ bytes).size = written.size + bytes.length := by
  rw [← Array.length_toList, Array.toList_appendList, List.length_append, Array.length_toList]

theorem prefix_append (written : Array UInt8) (bytes : List UInt8) :
    written.toList <+: (written ++ bytes).toList := by
  rw [Array.toList_appendList]
  exact List.prefix_append _ _

structure HoldsFirst (limit : Nat) (written : Array UInt8) (sink : Sink) : Prop where
  limited : sink.limit = some limit
  held : sink.written.toList = written.toList.take limit

theorem HoldsFirst.write_cases {limit : Nat} {written : Array UInt8} {sink : Sink}
    (holds : HoldsFirst limit written sink) {bytes : List UInt8} (filled : bytes ≠ []) :
    ∃ after, HoldsFirst limit (written ++ bytes) after ∧
      after.written.toList =
        sink.written.toList ++ bytes.take (limit - written.size) ∧
      ((written.size + bytes.length ≤ limit ∧ sink.write bytes = .ok after) ∨
        (limit < written.size + bytes.length ∧ sink.write bytes = .error after)) := by
  obtain ⟨held, _⟩ := sink
  obtain ⟨rfl, same⟩ := holds
  simp only at same
  have size : held.size = min limit written.size := by
    rw [← Array.length_toList, same, List.length_take, Array.length_toList]
  have room : limit - held.size = limit - written.size := by omega
  have positive := List.length_pos_iff.mpr filled
  refine ⟨⟨held ++ bytes.take (limit - written.size), some limit⟩, ⟨rfl, ?_⟩, ?_, ?_⟩
  · rw [Array.toList_appendList, Array.toList_appendList, same, List.take_append,
      Array.length_toList]
  · rw [Array.toList_appendList]
  · simp only [write, accepted, room, List.length_take]
    by_cases fits : written.size + bytes.length ≤ limit
    · left
      refine ⟨fits, ?_⟩
      rw [if_neg (by omega)]
    · right
      refine ⟨by omega, ?_⟩
      rw [if_pos (by omega)]

theorem HoldsFirst.extend {limit : Nat} {written final : Array UInt8} {sink : Sink}
    (holds : HoldsFirst limit written sink) (full : limit ≤ written.size)
    (grows : written.toList <+: final.toList) : HoldsFirst limit final sink := by
  obtain ⟨more, whole⟩ := grows
  refine ⟨holds.limited, ?_⟩
  rw [← Array.length_toList] at full
  rw [holds.held, ← whole, List.take_append_of_le_length full]

end Sink

namespace Console

/-- Of the lines that a run with room for all consumes, `read` are those that a run consumes with
room for no more than it `said`: the lines whose prompt it said as a whole. -/
structure Prompted (evaluator : Evaluator) (opening : List UInt8)
    (heard read : List (List UInt8)) (said : List UInt8) : Prop where
  begins : read <+: heard
  prompt_said : ∀ earlier line later, heard = earlier ++ line :: later →
    (earlier ++ [line] <+: read ↔
      opening ++ earlier.flatMap (exchange evaluator) ++ Utf8.encode prompt <+: said)

variable {evaluator : Evaluator}

theorem prompted_nothing {opening said : List UInt8} (heard : List (List UInt8))
    (short : said.length < opening.length + (Utf8.encode prompt).length) :
    Prompted evaluator opening heard [] said := by
  refine ⟨List.nil_prefix, fun earlier line later _ => ?_⟩
  constructor
  · intro impossible
    simp at impossible
  · intro whole
    have bound := whole.length_le
    simp only [List.length_append] at bound
    omega

theorem prompted_once {line : List UInt8} (later : List (List UInt8)) (rest : List UInt8)
    (short : rest.length < (exchange evaluator line).length) :
    Prompted evaluator [] (line :: later) [line] (Utf8.encode prompt ++ rest) := by
  refine ⟨by simp, fun earlier other behind split => ?_⟩
  rcases earlier with _ | ⟨first, earlier⟩
  · cases split
    simp
  · cases split
    constructor
    · intro longer
      have bound := longer.length_le
      simp at bound
    · intro longer
      have bound := longer.length_le
      simp only [List.flatMap_cons, List.length_append, List.length_nil] at bound
      omega

theorem Prompted.cons {heard read : List (List UInt8)} {said : List UInt8}
    (prompted : Prompted evaluator [] heard read said) (line : List UInt8) :
    Prompted evaluator [] (line :: heard) (line :: read) (exchange evaluator line ++ said) := by
  refine ⟨(List.prefix_cons_inj line).mpr prompted.begins, fun earlier other later split => ?_⟩
  rcases earlier with _ | ⟨first, earlier⟩
  · cases split
    simp [exchange]
  · cases split
    have rest := prompted.prompt_said earlier other later rfl
    simp only [List.nil_append] at rest
    simp only [List.cons_append, List.nil_append, List.flatMap_cons, List.append_assoc,
      List.prefix_cons_inj, List.prefix_append_right_inj, rest]

theorem Prompted.behind {heard read : List (List UInt8)} {said : List UInt8}
    (prompted : Prompted evaluator [] heard read said) (opening : List UInt8) :
    Prompted evaluator opening heard read (opening ++ said) := by
  refine ⟨prompted.begins, fun earlier line later split => ?_⟩
  rw [prompted.prompt_said earlier line later split]
  simp only [List.append_assoc, List.nil_append, List.prefix_append_right_inj]

/-- A run on a sink with a limit that held the bytes `before`, compared with one without a limit.
Either both end alike, or the sink is full and the lines are read whose prompts it took. -/
structure CutShort (evaluator : Evaluator) (limit : Nat) (opening : List UInt8)
    (waiting : List (List UInt8)) (before : List UInt8) (free bound : Ending) : Prop where
  holds : Sink.HoldsFirst limit free.console.sink.written bound.console.sink
  within : free.console.sink.written.size ≤ limit →
    bound.result = free.result ∧ bound.console.unread = free.console.unread
  beyond : limit < free.console.sink.written.size →
    bound.result = .error .fullSink ∧
      ∃ heard read said, waiting = heard ++ free.console.unread ∧
        waiting = read ++ bound.console.unread ∧
        bound.console.sink.written.toList = before ++ said ∧
        Prompted evaluator opening heard read said

theorem cutShort_of_end {limit : Nat} {opening before : List UInt8}
    {waiting unread : List (List UInt8)} {written : Array UInt8} {sink : Sink}
    (result : Except StreamError Unit) (holds : Sink.HoldsFirst limit written sink)
    (fits : written.size ≤ limit) :
    CutShort evaluator limit opening waiting before ⟨result, evaluator, unread, written, none⟩
      ⟨result, evaluator, unread, sink⟩ := by
  refine ⟨holds, fun _ => ⟨rfl, rfl⟩, fun beyond => ?_⟩
  have contradiction : limit < written.size := beyond
  omega

theorem cutShort_of_full {limit : Nat} {opening before said : List UInt8}
    {waiting left unread : List (List UInt8)} {written final : Array UInt8}
    {sink : Sink} (result : Except StreamError Unit) (heard read : List (List UInt8))
    (holds : Sink.HoldsFirst limit written sink) (full : limit < written.size)
    (grows : written.toList <+: final.toList)
    (consumed : waiting = heard ++ unread) (stopped : waiting = read ++ left)
    (wrote : sink.written.toList = before ++ said)
    (prompted : Prompted evaluator opening heard read said) :
    CutShort evaluator limit opening waiting before ⟨result, evaluator, unread, final, none⟩
      ⟨.error .fullSink, evaluator, left, sink⟩ := by
  refine ⟨holds.extend (Nat.le_of_lt full) grows, fun within => ?_, fun _ => ?_⟩
  · have longer := grows.length_le
    have contradiction : final.size ≤ limit := within
    rw [Array.length_toList, Array.length_toList] at longer
    omega
  · exact ⟨rfl, heard, read, said, consumed, stopped, wrote, prompted⟩

theorem lineOf_ne_nil (text : List Char) : lineOf text ≠ [] := by
  simp [lineOf, Utf8.encode]

theorem prompt_ne_nil : Utf8.encode prompt ≠ [] := by
  decide

/-- However a run with room goes on, it starts with a prompt and consumes some of the lines. -/
theorem converse_prompts (evaluator : Evaluator) (waiting : List (List UInt8))
    (written : Array UInt8) :
    ∃ result heard unread final, waiting = heard ++ unread ∧
      (written ++ Utf8.encode prompt).toList <+: final.toList ∧
      converse evaluator ⟨written, none⟩ waiting = ⟨result, evaluator, unread, final, none⟩ := by
  obtain ⟨course, _, rfl, behaves⟩ := converse_takes_course evaluator waiting
  have begins : Utf8.encode prompt <+:
      course.answered.flatMap (exchange evaluator) ++ Utf8.encode prompt ++ course.closing := by
    cases course.answered with
    | nil => simp
    | cons line answered => simp [exchange]
  refine ⟨_, course.answered ++ course.stop.toList, _, _, rfl, ?_, behaves written⟩
  rw [Array.toList_appendList, Array.toList_appendList]
  exact (List.prefix_append_right_inj _).mpr begins

/-- One run is refused a write, behind which the other prompts for the lines of `unread`. -/
theorem cutShort_of_refused {limit : Nat} {opening before said : List UInt8}
    {waiting read left unread : List (List UInt8)} {written reached : Array UInt8} {sink : Sink}
    (front : List (List UInt8)) (holds : Sink.HoldsFirst limit reached sink)
    (full : limit < reached.size)
    (begun : reached.toList <+: (written ++ Utf8.encode prompt).toList)
    (waits : waiting = front ++ unread) (stopped : waiting = read ++ left)
    (wrote : sink.written.toList = before ++ said)
    (prompted : ∀ heard, Prompted evaluator opening (front ++ heard) read said) :
    CutShort evaluator limit opening waiting before (converse evaluator ⟨written, none⟩ unread)
      ⟨.error .fullSink, evaluator, left, sink⟩ := by
  obtain ⟨result, heard, later, final, consumed, grows, behaves⟩ :=
    converse_prompts evaluator unread written
  rw [behaves]
  apply cutShort_of_full result (front ++ heard) read holds full (begun.trans grows) _ stopped wrote
    (prompted heard)
  rw [waits, consumed, List.append_assoc]

theorem cutShort_at_prompt {limit : Nat} (waiting : List (List UInt8)) {written : Array UInt8}
    {sink after : Sink} (holds : Sink.HoldsFirst limit (written ++ Utf8.encode prompt) after)
    (full : limit < written.size + (Utf8.encode prompt).length)
    (wrote : after.written.toList = sink.written.toList ++
      (Utf8.encode prompt).take (limit - written.size))
    (refuses : sink.write (Utf8.encode prompt) = .error after) :
    CutShort evaluator limit [] waiting sink.written.toList
      (converse evaluator ⟨written, none⟩ waiting) (converse evaluator sink waiting) := by
  have bound : converse evaluator sink waiting = ⟨.error .fullSink, evaluator, waiting, after⟩ := by
    cases waiting <;> simp only [converse, refuses, close]
  have filled := List.length_pos_iff.mpr prompt_ne_nil
  have passed : limit < (written ++ Utf8.encode prompt).size := by
    rw [Sink.size_append]
    exact full
  have short : ((Utf8.encode prompt).take (limit - written.size)).length <
      (Utf8.encode prompt).length := by
    rw [List.length_take]
    omega
  rw [bound]
  exact cutShort_of_refused [] holds passed List.prefix_rfl rfl rfl wrote
    fun heard => prompted_nothing heard (by simpa using short)

theorem CutShort.cons {limit : Nat} {waiting : List (List UInt8)} {before : List UInt8}
    {free bound : Ending} {line : List UInt8}
    (cut : CutShort evaluator limit [] waiting (before ++ exchange evaluator line) free bound) :
    CutShort evaluator limit [] (line :: waiting) before free bound := by
  refine ⟨cut.holds, cut.within, fun beyond => ?_⟩
  obtain ⟨result, heard, read, said, consumed, stopped, wrote, prompted⟩ := cut.beyond beyond
  refine ⟨result, line :: heard, line :: read, exchange evaluator line ++ said, ?_, ?_, ?_,
    prompted.cons line⟩
  · rw [consumed, List.cons_append]
  · rw [List.cons_append, ← stopped]
  · rw [wrote, List.append_assoc]

theorem cutShort_of_close {limit : Nat} {waiting unread : List (List UInt8)}
    {before bytes : List UInt8} {written : Array UInt8} {shown : Sink}
    (heard : List (List UInt8))
    (holds : Sink.HoldsFirst limit (written ++ Utf8.encode prompt) shown)
    (wrote : shown.written.toList = before ++ Utf8.encode prompt) (filled : bytes ≠ [])
    (consumed : waiting = heard ++ unread)
    (prompted : ∀ room < bytes.length,
      Prompted evaluator [] heard heard (Utf8.encode prompt ++ bytes.take room)) :
    CutShort evaluator limit [] waiting before
      ⟨.ok (), evaluator, unread, written ++ Utf8.encode prompt ++ bytes, none⟩
      (close evaluator unread (shown.write bytes)) := by
  rcases holds.write_cases filled with ⟨after, holdsAll, said, ⟨room, accepts⟩ | ⟨full, refuses⟩⟩
  · rw [accepts]
    apply cutShort_of_end _ holdsAll
    rw [Sink.size_append]
    exact room
  · have positive := List.length_pos_iff.mpr filled
    have short : limit - (written ++ Utf8.encode prompt).size < bytes.length := by
      omega
    rw [refuses]
    refine cutShort_of_full _ heard heard holdsAll ?_ List.prefix_rfl consumed consumed ?_
      (prompted _ short)
    · rw [Sink.size_append]
      exact full
    · rw [said, wrote, List.append_assoc]

theorem cutShort_of_answer {limit : Nat} {line : List UInt8} {text : List Char}
    (unread : List (List UInt8)) {written : Array UInt8} {sink shown : Sink}
    (replied : reply evaluator line = .answer text)
    (holds : Sink.HoldsFirst limit (written ++ Utf8.encode prompt) shown)
    (wrote : shown.written.toList = sink.written.toList ++ Utf8.encode prompt)
    (accepts : sink.write (Utf8.encode prompt) = .ok shown)
    (next : ∀ {written : Array UInt8} {after : Sink}, Sink.HoldsFirst limit written after →
      CutShort evaluator limit [] unread after.written.toList
        (converse evaluator ⟨written, none⟩ unread) (converse evaluator after unread)) :
    CutShort evaluator limit [] (line :: unread) sink.written.toList
      (converse evaluator ⟨written, none⟩ (line :: unread))
      (converse evaluator sink (line :: unread)) := by
  have whole : exchange evaluator line = Utf8.encode prompt ++ lineOf text := by
    simp only [exchange_eq_turn, turn, replied]
  have free : converse evaluator ⟨written, none⟩ (line :: unread) =
      converse evaluator ⟨written ++ Utf8.encode prompt ++ lineOf text, none⟩ unread := by
    rw [converse_line, whole, Sink.append_written]
    simp only [turn, replied, Option.elim]
  rw [free]
  rcases holds.write_cases (lineOf_ne_nil text) with
    ⟨after, holdsAnswer, said, ⟨fits, acceptsAnswer⟩ | ⟨full, refuses⟩⟩
  · have bound : converse evaluator sink (line :: unread) = converse evaluator after unread := by
      simp only [converse, accepts, turn, replied, acceptsAnswer]
    rw [List.take_of_length_le (by omega), wrote, List.append_assoc, ← whole] at said
    rw [bound]
    apply CutShort.cons
    rw [← said]
    exact next holdsAnswer
  · have bound : converse evaluator sink (line :: unread) =
        ⟨.error .fullSink, evaluator, unread, after⟩ := by
      simp only [converse, accepts, turn, replied, refuses, close]
    have filled := List.length_pos_iff.mpr (lineOf_ne_nil text)
    have passed : limit < (written ++ Utf8.encode prompt ++ lineOf text).size := by
      rw [Sink.size_append]
      exact full
    rw [wrote, List.append_assoc] at said
    rw [bound]
    apply cutShort_of_refused [line] holdsAnswer passed _ rfl rfl said
    · intro heard
      apply prompted_once
      rw [whole, List.length_append, List.length_take]
      omega
    · exact Sink.prefix_append _ _

/-- The induction is on the lines that wait. The limit can strike at the prompt for the first of
them or behind it. -/
theorem converse_cut_short {limit : Nat} (waiting : List (List UInt8)) {written : Array UInt8}
    {sink : Sink} (holds : Sink.HoldsFirst limit written sink) :
    CutShort evaluator limit [] waiting sink.written.toList
      (converse evaluator ⟨written, none⟩ waiting) (converse evaluator sink waiting) := by
  induction waiting generalizing written sink with
  | nil =>
      rcases holds.write_cases prompt_ne_nil with
        ⟨shown, holdsPrompt, said, ⟨room, accepts⟩ | ⟨full, refuses⟩⟩
      · rw [List.take_of_length_le (by omega)] at said
        have bound : converse evaluator sink [] =
            close evaluator [] (shown.write (lineOf [])) := by
          simp only [converse, accepts]
        rw [converse_nothing, bound]
        refine cutShort_of_close [] holdsPrompt said (lineOf_ne_nil []) rfl fun _ _ => ?_
        exact ⟨List.prefix_rfl, fun earlier line later impossible => by simp at impossible⟩
      · exact cutShort_at_prompt [] holdsPrompt full said refuses
  | cons line unread ih =>
      rcases holds.write_cases prompt_ne_nil with
        ⟨shown, holdsPrompt, said, ⟨room, accepts⟩ | ⟨full, refuses⟩⟩
      · rw [List.take_of_length_le (by omega)] at said
        cases replied : reply evaluator line with
        | answer text => exact cutShort_of_answer unread replied holdsPrompt said accepts ih
        | unreadable =>
            have bound : converse evaluator sink (line :: unread) =
                ⟨.error .unreadableInput, evaluator, unread, shown⟩ := by
              simp only [converse, accepts, turn, replied, Sink.write_nothing]
            rw [converse_line, bound]
            simp only [turn, exchange_eq_turn, replied, Option.elim, List.append_nil]
            apply cutShort_of_end _ holdsPrompt
            rw [Sink.size_append]
            exact room
        | farewell =>
            have bound : converse evaluator sink (line :: unread) =
                close evaluator unread (shown.write (lineOf farewell)) := by
              simp only [converse, accepts, turn, replied]
              cases shown.write (lineOf farewell) <;> rfl
            rw [converse_line, bound]
            simp only [turn, exchange_eq_turn, replied, Option.elim, ← Sink.append_written]
            refine cutShort_of_close [line] holdsPrompt said (lineOf_ne_nil _) rfl
              fun taken short => prompted_once [] _ ?_
            simp only [exchange_eq_turn, turn, replied, List.length_append, List.length_take]
            omega
      · exact cutShort_at_prompt (line :: unread) holdsPrompt full said refuses

theorem greeting_ne_nil : greeting ≠ [] := by
  simp [greeting, lineOf_ne_nil]

theorem CutShort.behind {limit : Nat} {waiting : List (List UInt8)} {before : List UInt8}
    {free bound : Ending} (opening : List UInt8)
    (cut : CutShort evaluator limit [] waiting (before ++ opening) free bound) :
    CutShort evaluator limit opening waiting before free bound := by
  refine ⟨cut.holds, cut.within, fun beyond => ?_⟩
  obtain ⟨result, heard, read, said, consumed, stopped, wrote, prompted⟩ := cut.beyond beyond
  refine ⟨result, heard, read, opening ++ said, consumed, stopped, ?_, prompted.behind opening⟩
  rw [wrote, List.append_assoc]

theorem run_cut_short (evaluator : Evaluator) {limit : Nat} (unread : List (List UInt8))
    {written : Array UInt8} {sink : Sink} (holds : Sink.HoldsFirst limit written sink) :
    CutShort evaluator limit greeting unread sink.written.toList
      (run ⟨evaluator, unread, written, none⟩) (run ⟨evaluator, unread, sink⟩) := by
  rw [run_unlimited]
  rcases holds.write_cases greeting_ne_nil with
    ⟨greeted, holdsGreeting, said, ⟨room, accepts⟩ | ⟨full, refuses⟩⟩
  · have bound : run ⟨evaluator, unread, sink⟩ = converse evaluator greeted unread := by
      simp only [run, accepts]
    rw [List.take_of_length_le (by omega)] at said
    rw [bound]
    apply CutShort.behind
    rw [← said]
    exact converse_cut_short unread holdsGreeting
  · have bound : run ⟨evaluator, unread, sink⟩ =
        ⟨.error .fullSink, evaluator, unread, greeted⟩ := by
      simp only [run, refuses, close]
    have filled := List.length_pos_iff.mpr greeting_ne_nil
    have passed : limit < (written ++ greeting).size := by
      rw [Sink.size_append]
      exact full
    rw [bound]
    apply cutShort_of_refused [] holdsGreeting passed _ rfl rfl said
    · intro heard
      apply prompted_nothing
      rw [List.length_take]
      omega
    · exact Sink.prefix_append _ _

theorem run_of_full (evaluator : Evaluator) {limit : Nat} {written : Array UInt8} {sink : Sink}
    (holds : Sink.HoldsFirst limit written sink) (full : limit < written.size)
    (unread : List (List UInt8)) :
    ∃ after, run ⟨evaluator, unread, sink⟩ = ⟨.error .fullSink, evaluator, unread, after⟩ ∧
      Sink.HoldsFirst limit (written ++ greeting) after := by
  rcases holds.write_cases greeting_ne_nil with ⟨after, holdsGreeting, _, ⟨room, _⟩ | ⟨_, refuses⟩⟩
  · omega
  · refine ⟨after, ?_, holdsGreeting⟩
    simp only [run, refuses, close]

/-- Two consoles that differ in the limit of their sinks. As long as the limit has not been passed
they have read the same lines. -/
structure Beside (evaluator : Evaluator) (limit : Nat) (free bound : Console) : Prop where
  free_evaluator : free.evaluator = evaluator
  bound_evaluator : bound.evaluator = evaluator
  unlimited : free.sink.limit = none
  holds : Sink.HoldsFirst limit free.sink.written bound.sink
  same_unread : free.sink.written.size ≤ limit → bound.unread = free.unread

/-- The next run of two consoles that differ in the limit of their sinks: it ends alike where it
ends within the limit. The first that would pass the limit fails, and has read the lines whose
prompts fitted; every later one fails, and reads nothing. -/
structure CutAt (evaluator : Evaluator) (limit : Nat) (free bound : Console) : Prop where
  within : free.run.console.sink.written.size ≤ limit → bound.run.result = free.run.result
  beyond : limit < free.run.console.sink.written.size → bound.run.result = .error .fullSink
  first : free.sink.written.size ≤ limit → limit < free.run.console.sink.written.size →
    ∃ heard read said, bound.unread = heard ++ free.run.console.unread ∧
      bound.unread = read ++ bound.run.console.unread ∧
      bound.run.console.sink.written.toList = bound.sink.written.toList ++ said ∧
      Prompted evaluator greeting heard read said
  later : limit < free.sink.written.size →
    bound.run.result = .error .fullSink ∧ bound.run.console.unread = bound.unread

theorem converse_leaves (sink : Sink) (waiting : List (List UInt8)) :
    (converse evaluator sink waiting).console.evaluator = evaluator ∧
      (converse evaluator sink waiting).console.unread <:+ waiting := by
  induction waiting generalizing sink with
  | nil =>
      simp only [converse]
      cases sink.write (Utf8.encode prompt) with
      | error full => exact ⟨rfl, List.suffix_rfl⟩
      | ok prompted =>
          simp only
          cases prompted.write (lineOf []) <;> exact ⟨rfl, List.suffix_rfl⟩
  | cons line unread ih =>
      have further : unread <:+ line :: unread := List.suffix_cons line unread
      simp only [converse]
      cases sink.write (Utf8.encode prompt) with
      | error full => exact ⟨rfl, List.suffix_rfl⟩
      | ok prompted =>
          simp only
          cases prompted.write (turn evaluator line).said with
          | error full => exact ⟨rfl, further⟩
          | ok answered =>
              cases (turn evaluator line).result with
              | none => exact ⟨(ih answered).1, (ih answered).2.trans further⟩
              | some result => exact ⟨rfl, further⟩

theorem run_leaves (console : Console) :
    console.run.console.evaluator = console.evaluator ∧
      console.run.console.unread <:+ console.unread := by
  simp only [run]
  cases console.sink.write greeting with
  | error full => exact ⟨rfl, List.suffix_rfl⟩
  | ok greeted => exact converse_leaves greeted console.unread

theorem run_beside_of_full (evaluator : Evaluator) {limit : Nat} {written : Array UInt8}
    {sink : Sink} (holds : Sink.HoldsFirst limit written sink) (full : limit < written.size)
    (unread left : List (List UInt8)) :
    CutAt evaluator limit ⟨evaluator, unread, written, none⟩ ⟨evaluator, left, sink⟩ ∧
      Beside evaluator limit (run ⟨evaluator, unread, written, none⟩).console
        (run ⟨evaluator, left, sink⟩).console := by
  obtain ⟨result, heard, later, final, consumed, grows, behaves⟩ :=
    converse_prompts evaluator unread (written ++ greeting)
  obtain ⟨after, refused, held⟩ := run_of_full evaluator holds full left
  rw [← run_unlimited] at behaves
  have passed : limit < (written ++ greeting).size := by
    rw [Sink.size_append]
    omega
  have begun : (written ++ greeting).toList <+: final.toList :=
    (Sink.prefix_append _ _).trans grows
  have outside : ¬final.size ≤ limit := by
    have longer := begun.length_le
    rw [Array.length_toList, Array.length_toList] at longer
    omega
  constructor
  · refine ⟨fun within => ?_, fun _ => ?_, fun room => ?_, fun _ => ?_⟩
    · rw [behaves] at within
      exact (outside within).elim
    · rw [refused]
    · exact (Nat.not_le_of_lt full room).elim
    · rw [refused]
      exact ⟨rfl, rfl⟩
  · rw [behaves, refused]
    exact ⟨rfl, rfl, rfl, held.extend (Nat.le_of_lt passed) begun,
      fun within => (outside within).elim⟩

theorem run_beside {limit : Nat} {free bound : Console}
    (beside : Beside evaluator limit free bound) :
    CutAt evaluator limit free bound ∧
      Beside evaluator limit free.run.console bound.run.console := by
  obtain ⟨freeOwn, unread, written, _⟩ := free
  obtain ⟨boundOwn, left, sink⟩ := bound
  obtain ⟨freeSame, boundSame, rfl, holds, same⟩ := beside
  simp only at freeSame boundSame holds same
  rw [freeSame, boundSame]
  by_cases full : limit < written.size
  · exact run_beside_of_full evaluator holds full unread left
  · have started : left = unread := same (Nat.le_of_not_lt full)
    have cut := run_cut_short evaluator left holds
    have unlimited : (run ⟨evaluator, left, written, none⟩).console.sink.limit = none := by
      obtain ⟨_, _, _, _, _, _, behaves⟩ := converse_prompts evaluator left (written ++ greeting)
      rw [run_unlimited, behaves]
    rw [← started]
    constructor
    · exact ⟨fun within => (cut.within within).1, fun beyond => (cut.beyond beyond).1,
        fun _ beyond => (cut.beyond beyond).2, fun passed => (full passed).elim⟩
    · exact ⟨(run_leaves _).1, (run_leaves _).1, unlimited, cut.holds,
        fun within => (cut.within within).2⟩

theorem runs_behind (count : Nat) (console : Console) :
    runs (count + 1) console =
      ((runs count console).1 ++ [(runs count console).2.run.result],
        (runs count console).2.run.console) := by
  induction count generalizing console with
  | zero => rfl
  | succ count ih => rw [runs, ih, runs]; rfl

theorem results_of_runs (count : Nat) (console : Console) :
    (runs count console).1 =
      (List.range count).map fun index => (runs index console).2.run.result := by
  induction count with
  | zero => rfl
  | succ count ih => rw [runs_behind, ih, List.range_succ, List.map_append]; rfl

theorem runs_leave (count : Nat) (console : Console) :
    (runs count console).2.unread <:+ console.unread := by
  induction count with
  | zero => exact List.suffix_rfl
  | succ count ih =>
      rw [runs_behind]
      exact (run_leaves _).2.trans ih

theorem runs_beside {limit : Nat} {free bound : Console}
    (beside : Beside evaluator limit free bound) (count : Nat) :
    Beside evaluator limit (runs count free).2 (runs count bound).2 := by
  induction count with
  | zero => exact beside
  | succ count ih =>
      rw [runs_behind, runs_behind]
      exact (run_beside ih).2

/-- Any number of runs on a sink with a limit, against as many on a sink without one. What the next
run finds unread are the lines of the last bytes of the input. -/
theorem runs_on_full_sink (evaluator : Evaluator) (input : List UInt8) (limit count : Nat) :
    let free (index : Nat) := (runs index (ofInput evaluator input Sink.unlimited)).2
    let bound (index : Nat) := (runs index (ofInput evaluator input ⟨#[], some limit⟩)).2
    (bound count).sink.written.toList = (free count).sink.written.toList.take limit ∧
      (runs count (ofInput evaluator input Sink.unlimited)).1 =
        (List.range count).map (fun index => (free index).run.result) ∧
      (runs count (ofInput evaluator input ⟨#[], some limit⟩)).1 =
        (List.range count).map (fun index => (bound index).run.result) ∧
      ∀ index, free (index + 1) = (free index).run.console ∧
        bound (index + 1) = (bound index).run.console ∧
        (bound index).unread.flatten <:+ input ∧
        AreLines (bound index).unread.flatten (bound index).unread ∧
        CutAt evaluator limit (free index) (bound index) := by
  intro free bound
  have start : Beside evaluator limit (ofInput evaluator input Sink.unlimited)
      (ofInput evaluator input ⟨#[], some limit⟩) :=
    ⟨rfl, rfl, rfl, ⟨rfl, by simp [Sink.unlimited, ofInput]⟩, fun _ => rfl⟩
  refine ⟨(runs_beside start count).holds.held, results_of_runs _ _, results_of_runs _ _,
    fun index => ⟨?_, ?_, ?_⟩⟩
  · simp only [free, runs_behind]
  · simp only [bound, runs_behind]
  · obtain ⟨last, cut⟩ := (areLines_lines input).of_suffix
      (runs_leave index (ofInput evaluator input ⟨#[], some limit⟩))
    exact ⟨last, cut, (run_beside (runs_beside start index)).1⟩

end Console

end Calculator
