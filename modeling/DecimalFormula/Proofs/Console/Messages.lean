import DecimalFormula.Console.Program

/-!
# Answers and messages

Of the events of a run some are messages, which tell what the program is doing, and the others are
its answers: what it writes to standard output and the errors it reports. Every step of an engine
leaves messages and nothing else, and how many of them are shown makes no difference to the answers
(`Run.answers_shownAt`).
-/

namespace DecimalFormula.Console

/-! ## Messages -/

/-- Whether an event only tells what the program is doing. -/
def Event.isMessage : Event → Bool
  | status .. | finished _ => true
  | print _ | report _ => false

def answersOf (events : List Event) : List Event := events.filter fun event ↦ !event.isMessage

def Run.answers (r : Run) : List Event := answersOf r.events

variable {events events' : List Event} {event : Event}

@[simp] theorem answersOf_append :
    answersOf (events ++ events') = answersOf events ++ answersOf events' :=
  List.filter_append ..

@[simp] theorem answersOf_cons_finished (s : Status) :
    answersOf (.finished s :: events) = answersOf events := rfl

@[simp] theorem answersOf_cons_print (text : String) :
    answersOf (.print text :: events) = .print text :: answersOf events := rfl

@[simp] theorem answersOf_cons_report (error : Error) :
    answersOf (.report error :: events) = .report error :: answersOf events := rfl

theorem mem_answersOf : event ∈ answersOf events ↔ event ∈ events ∧ event.isMessage = false := by
  rw [answersOf, List.mem_filter, Bool.not_eq_true']

/-! ## Steps of an engine -/

theorem answersOf_parseEvents (e : Engine) (formula : String) :
    answersOf (parseEvents e formula) = [] := by
  rw [parseEvents]
  cases e.lex formula with
  | error error => rfl
  | ok tokens =>
    dsimp only
    cases e.parseTokens formula tokens <;> rfl

theorem answersOf_evaluateEvents (bindings : Bindings) (tree : Tree)
    (outcome : Except Error Decimal) :
    answersOf (evaluateEvents bindings tree outcome) = [] := by
  cases outcome <;> rfl

theorem answersOf_evalFormulaEvents (e : Engine) (bindings : Bindings) (formula : String) :
    answersOf (evalFormulaEvents e bindings formula) = [] := by
  rw [evalFormulaEvents, answersOf_append, answersOf_parseEvents]
  cases e.parse formula with
  | error error => rfl
  | ok tree => exact answersOf_evaluateEvents bindings tree (e.evaluate bindings tree)

/-! ## Runs -/

namespace Run

theorem answers_after (r : Run) : (Run.after events r).answers = answersOf events ++ r.answers := by
  rw [answers, after, answersOf_append]
  rfl

/-- All answers are shown, whatever messages are asked for. -/
theorem answers_shownAt (verbosity : Nat) (r : Run) :
    (r.shownAt verbosity).answers = r.answers := by
  rw [answers, answers, shownAt, answersOf, answersOf, List.filter_filter]
  refine List.filter_congr fun event _ ↦ ?_
  cases event <;> simp [Event.isMessage, Event.isShown]

theorem output_eq (r : Run) : r.output = String.join (r.answers.map Event.output) := by
  rw [output, answers]
  induction r.events with
  | nil => rfl
  | cons event events ih =>
    rw [List.map_cons, String.join_cons, ih]
    cases event with
    | print => rw [answersOf_cons_print, List.map_cons, String.join_cons]
    | report => rw [answersOf_cons_report, List.map_cons, String.join_cons]
    | status => exact String.empty_append
    | finished => exact String.empty_append

end Run

end DecimalFormula.Console
