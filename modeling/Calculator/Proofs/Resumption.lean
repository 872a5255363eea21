import Calculator.Proofs.Transcript

/-!
Runs one after the other.

A run answers lines up to one that stops it, and the next run begins behind that line. So the runs
share the input out among them: each takes a segment of whole lines, does with it what a run on a
console of its own would do, and leaves the rest as it was.
-/

set_option autoImplicit false

namespace Calculator.Console

/-- A line stops a run if it is not text, or is text that asks to leave. -/
def Stops (line : List UInt8) : Prop :=
  ¬Utf8.IsText line ∨ ∃ text, line = Utf8.encode text ∧ AsksToLeave text

/-- What a run does with its lines: it answers some, may be stopped by one, and leaves the rest. -/
structure Course where
  answered : List (List UInt8)
  stop : Option (List UInt8)
  unread : List (List UInt8)

namespace Course

def lines (course : Course) : List (List UInt8) :=
  course.answered ++ course.stop.toList ++ course.unread

def segment (course : Course) : List UInt8 := (course.answered ++ course.stop.toList).flatten

def result (course : Course) : Except StreamError Unit :=
  match course.stop with
  | none => .ok ()
  | some line => if Utf8.IsText line then .ok () else .error .unreadableInput

/-- What stands behind the last prompt. A line that is not text gets no answer. -/
def closing (course : Course) : List UInt8 :=
  match course.stop with
  | none => Utf8.encode ['\n']
  | some line => if Utf8.IsText line then Utf8.encode (farewell ++ ['\n']) else []

def said (evaluator : Evaluator) (course : Course) : List UInt8 :=
  Utf8.encode (banner ++ ['\n'] ++ hint ++ ['\n']) ++
    course.answered.flatMap (exchange evaluator) ++ Utf8.encode prompt ++ course.closing

/-- A run takes this course: it stops at the first line that stops it, and takes all the lines if
there is no such line. -/
structure Taken (course : Course) : Prop where
  answers : ∀ line ∈ course.answered, ¬Stops line
  stops : ∀ line ∈ course.stop, Stops line
  exhausts : course.stop = none → course.unread = []

/-- The course of a run over some bytes. Its segment ends behind a line feed or with the bytes. -/
structure Over (course : Course) (left : List UInt8) : Prop extends course.Taken where
  cut : AreLines left course.lines
  ends : course.segment.getLast? = some 10 ∨ course.segment = left

theorem flatten_lines (course : Course) :
    course.lines.flatten = course.segment ++ course.unread.flatten :=
  List.flatten_append

theorem Taken.over {course : Course} {left : List UInt8} (taken : course.Taken)
    (cut : AreLines left course.lines) : course.Over left := by
  have whole : left = course.segment ++ course.unread.flatten := by
    rw [cut.whole, flatten_lines]
  refine ⟨taken, cut, ?_⟩
  cases stop : course.stop with
  | none => exact Or.inr (by simp [whole, taken.exhausts stop])
  | some line =>
      have final : course.segment = course.answered.flatten ++ line := by
        simp [segment, stop]
      have inOrder : course.lines = course.answered ++ line :: course.unread := by
        simp [lines, stop]
      rw [inOrder] at cut
      rcases cut.ends with feed | last
      · left
        rw [final, List.getLast?_append, feed]
        rfl
      · right
        simp [whole, last]

end Course

/-- Runs over some bytes, each over what the one before it has left, and what the last leaves. -/
inductive Session (evaluator : Evaluator) : List UInt8 → List Course → List UInt8 → Prop where
  | nothing (left : List UInt8) : Session evaluator left [] left
  | run {left rest : List UInt8} {course : Course} {courses : List Course}
      (covers : course.Over left)
      (alone : (ofInput evaluator left Sink.unlimited).run =
        ⟨course.result, evaluator, course.unread, (course.said evaluator).toArray, none⟩)
      (next : Session evaluator course.unread.flatten courses rest) :
      Session evaluator left (course :: courses) rest

variable (evaluator : Evaluator)

theorem line_cases (line : List UInt8) :
    (¬Stops line ∧ (turn evaluator line).result = none) ∨
      (Stops line ∧ ∀ unread,
        (turn evaluator line).result = some (Course.result ⟨[], some line, unread⟩) ∧
        exchange evaluator line =
          Utf8.encode prompt ++ Course.closing ⟨[], some line, unread⟩) := by
  simp only [Stops, turn, exchange, reply, Course.result, Course.closing, Utf8.isText_iff,
    ← Utf8.decode?_eq_some_iff]
  cases read : Utf8.decode? line with
  | none =>
      right
      simp
  | some text =>
      by_cases leaves : AsksToLeave text
      · have exits := (isExit_strip_iff text).mpr leaves
        right
        simp [exits, leaves]
      · have stays := mt (isExit_strip_iff text).mp leaves
        left
        simp [stays, leaves]

theorem converse_takes_course (waiting : List (List UInt8)) :
    ∃ course : Course, course.Taken ∧ course.lines = waiting ∧
      ∀ written : Array UInt8, converse evaluator ⟨written, none⟩ waiting =
        ⟨course.result, evaluator, course.unread,
          written ++ (course.answered.flatMap (exchange evaluator) ++ Utf8.encode prompt ++
            course.closing), none⟩ := by
  induction waiting with
  | nil =>
      refine ⟨⟨[], none, []⟩, ⟨by simp, by simp, fun _ => rfl⟩, rfl, fun written => ?_⟩
      rw [converse_nothing, Sink.append_written]
      rfl
  | cons line waiting ih =>
      rcases line_cases evaluator line with ⟨goesOn, continues⟩ | ⟨stops, ends⟩
      · obtain ⟨course, taken, rfl, behaves⟩ := ih
        refine ⟨⟨line :: course.answered, course.stop, course.unread⟩,
          ⟨?_, taken.stops, taken.exhausts⟩, rfl, fun written => ?_⟩
        · exact List.forall_mem_cons.mpr ⟨goesOn, taken.answers⟩
        · rw [converse_line, continues]
          simp only [behaves, Sink.append_written, List.flatMap_cons, List.append_assoc]
          rfl
      · obtain ⟨ended, wrote⟩ := ends waiting
        refine ⟨⟨[], some line, waiting⟩, ⟨by simp, by simpa using stops, by simp⟩, rfl,
          fun written => ?_⟩
        rw [converse_line, ended, wrote]
        rfl

theorem run_takes_course (left : List UInt8) :
    ∃ course : Course, course.Over left ∧
      ∀ written : Array UInt8, run ⟨evaluator, lines left, written, none⟩ =
        ⟨course.result, evaluator, course.unread, written ++ course.said evaluator, none⟩ := by
  obtain ⟨course, taken, inOrder, behaves⟩ := converse_takes_course evaluator (lines left)
  refine ⟨course, taken.over (lines_eq_iff.mp inOrder.symm), fun written => ?_⟩
  rw [run_unlimited, behaves, Sink.append_written]
  simp only [Course.said, greeting, lineOf, Utf8.encode_append, List.append_assoc]

theorem Session.segments {left rest : List UInt8} {courses : List Course}
    (session : Session evaluator left courses rest) :
    left = courses.flatMap Course.segment ++ rest := by
  induction session with
  | nothing left => simp
  | @run left rest course courses covers alone next ih =>
      calc left = course.lines.flatten := covers.cut.whole
        _ = course.segment ++ course.unread.flatten := course.flatten_lines
        _ = course.segment ++ (courses.flatMap Course.segment ++ rest) := by rw [← ih]
        _ = (course :: courses).flatMap Course.segment ++ rest := by
            rw [List.flatMap_cons, List.append_assoc]

theorem runs_are_session (count : Nat) (left : List UInt8) (written : Array UInt8) :
    ∃ courses rest, courses.length = count ∧ Session evaluator left courses rest ∧
      runs count ⟨evaluator, lines left, written, none⟩ =
        (courses.map Course.result, ⟨evaluator, lines rest,
          written ++ courses.flatMap (Course.said evaluator), none⟩) := by
  induction count generalizing left written with
  | zero =>
      refine ⟨[], left, rfl, .nothing left, ?_⟩
      rfl
  | succ count ih =>
      obtain ⟨course, covers, behaves⟩ := run_takes_course evaluator left
      have again : lines course.unread.flatten = course.unread :=
        lines_eq_iff.mpr covers.cut.behind
      obtain ⟨courses, rest, counted, session, later⟩ :=
        ih course.unread.flatten (written ++ course.said evaluator)
      rw [again, Sink.append_written] at later
      refine ⟨course :: courses, rest, by simp [counted], .run covers ?_ session, ?_⟩
      · have empty : (#[] : Array UInt8) ++ course.said evaluator =
            (course.said evaluator).toArray := by
          apply Array.toList_inj.mp
          rw [Array.toList_appendList]
          rfl
        rw [← empty]
        exact behaves #[]
      · simp only [runs, behaves, later]
        rfl

/-- Any number of runs consume the input segment by segment. -/
theorem runs_share_input (input : List UInt8) (count : Nat) :
    ∃ (courses : List Course) (last : Console), courses.length = count ∧
      runs count (ofInput evaluator input Sink.unlimited) = (courses.map Course.result, last) ∧
      Session evaluator input courses last.unread.flatten ∧
      input = courses.flatMap Course.segment ++ last.unread.flatten ∧
      last.sink.written.toList = courses.flatMap (Course.said evaluator) := by
  obtain ⟨courses, rest, counted, session, behaves⟩ := runs_are_session evaluator count input #[]
  refine ⟨courses, _, counted, behaves, ?_⟩
  simp only [← (areLines_lines rest).whole]
  refine ⟨session, session.segments, ?_⟩
  rw [Array.toList_appendList, List.nil_append]

end Calculator.Console
