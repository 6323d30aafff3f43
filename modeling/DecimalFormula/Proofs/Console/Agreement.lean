import DecimalFormula.Proofs.Console.Lines
import DecimalFormula.Proofs.Console.Messages
import DecimalFormula.Proofs.Engine.Files

/-!
# Agreement of the ways to evaluate a formula

A formula is evaluated as an argument, as the contents of a file and as a line of a session, under
definitions that are given as options or as lines. All three write the same: the value of the
formula on standard output, or the report of one error on standard error (`ways_agree`). Around it
stand messages and, in a session, the prompts.

Each way answers with one event that depends on the outcome of the formula alone (`answerOf`). What
is written to the two outputs is read off the answers of a run, whatever messages are between them.
-/

namespace DecimalFormula.Console

open CommandLine

/-! ## Answers to a formula -/

/-- The event that tells what came of a formula: a line on standard output for a value, a report on
standard error for an error. -/
def answerOf : Except Error Decimal → Event
  | .ok value => .line value.render
  | .error err => .report err

def endingOf : Except Error Decimal → Ending
  | .ok _ => .success
  | .error _ => .failure

/-- A run that answers a formula and nothing else. -/
structure Run.Gives (r : Run) (outcome : Except Error Decimal) : Prop where
  answers : r.answers = [answerOf outcome]
  ending : r.ending = endingOf outcome

variable {e : Engine} {definitions : List Definition} {formula : String}
  {outcome : Except Error Decimal} {r : Run} {events : List Event}

theorem Run.Gives.after (h : r.Gives outcome) (hevents : answersOf events = []) :
    (Run.after events r).Gives outcome := by
  refine ⟨?_, h.ending⟩
  rw [answers_after, hevents, h.answers, List.nil_append]

theorem Run.Gives.shownAt (h : r.Gives outcome) (verbosity : Nat) :
    (r.shownAt verbosity).Gives outcome :=
  ⟨by rw [answers_shownAt, h.answers], h.ending⟩

theorem gives_failed (err : Error) : (Run.failed err).Gives (.error err) := ⟨rfl, rfl⟩

theorem gives_finishEval {tree : Tree} (h : e.parse formula = .ok tree) :
    (finishEval e ⟨definitions, false, false⟩ formula tree).Gives
      (e.evalFormula (bindingsOf definitions) formula) := by
  rw [Engine.evalFormula, h]
  dsimp only [finishEval, Except.bind]
  cases houtcome : e.evaluate (bindingsOf definitions) tree with
  | ok value =>
    refine ⟨?_, rfl⟩
    simp only [Run.answers, answersOf_append, answersOf_cons_finished, List.cons_append]
    rw [answersOf_evaluateEvents]
    rfl
  | error err =>
    refine (gives_failed _).after ?_
    simp only [answersOf_append, answersOf_cons_finished, List.cons_append]
    rw [answersOf_evaluateEvents]
    rfl

theorem gives_runEval (e : Engine) (formula : String) (definitions : List Definition) :
    (runEval e formula ⟨definitions, false, false⟩).Gives
      (e.evalFormula (bindingsOf definitions) formula) := by
  refine Run.Gives.after ?_ (answersOf_parseEvents e formula)
  cases hparse : e.parse formula with
  | ok tree => exact gives_finishEval hparse
  | error err =>
    rw [Engine.evalFormula, hparse]
    exact gives_failed err

/-! ## Files -/

theorem gives_runFile {bytes : List UInt8} (path : String)
    (hbytes : Engine.formulaOfBytes bytes = .ok formula) :
    (runFile e path (.ok bytes) ⟨definitions, false, false⟩).Gives
      (e.evalFormula (bindingsOf definitions) formula) := by
  have hcontents : (Except.ok bytes).bind Engine.formulaOfBytes = .ok formula := hbytes
  rw [runFile, hcontents]
  refine Run.Gives.after ?_ (answersOf_parseEvents e formula)
  have hparsed : e.parseFile (.ok bytes) = (e.parse formula).map (.mk formula) := by
    rw [Engine.parseFile, hcontents]
    rfl
  rw [hparsed]
  cases hparse : e.parse formula with
  | ok tree => exact gives_finishEval hparse
  | error err =>
    rw [Engine.evalFormula, hparse]
    exact gives_failed err

/-- Line ends behind a formula in a file do not count. -/
theorem formulaOfBytes_encode (h : Loop.IsFormula formula) {ends : List Char}
    (hends : ∀ c ∈ ends, Engine.isLineEnd c = true) :
    Engine.formulaOfBytes (Text.Utf8.encode (formula.toList ++ ends)) = .ok formula := by
  have hformula : Engine.WithoutLineEnds formula formula := by
    refine ⟨⟨[], (List.append_nil _).symm, List.forall_mem_nil _⟩, fun c hc ↦ ?_⟩
    have hspace := h.isSpace_of_getLast? hc
    refine ⟨?_, ?_⟩ <;> rintro rfl <;> exact absurd hspace (by decide)
  have hmore := hformula.append fun c hc ↦ Engine.isLineEnd_iff.mp (hends c hc)
  have hbytes := Engine.formulaOfBytes_of_withoutLineEnds hmore
  rwa [String.toList_ofList] at hbytes

/-! ## Sessions -/

def boundBy (b : Bindings) (definitions : List Definition) : Bindings :=
  definitions.foldl (fun b d ↦ b.insert d.name d.value) b

theorem bindingsOf_eq (definitions : List Definition) :
    bindingsOf definitions = boundBy .empty definitions := by
  rw [bindingsOf, NameMap.ofList, List.foldl_map, boundBy]

namespace Loop

theorem events_values_cons {line : String} (h : Request.ofLine line ≠ .exit) (b : Bindings)
    (lines : List String) :
    Loop.values.events e b (line :: lines) =
      .print Loop.values.prompt :: ((Request.ofLine line).events e b ++
        Loop.values.events e ((Request.ofLine line).bindings b) lines) := by
  rw [events, step, if_neg h]
  rfl

/-- In a session the lines that define names leave their bindings to the formula behind them. -/
theorem answersOf_events (e : Engine) (hformula : IsFormula formula) {ds : List Definition}
    (hds : ∀ d ∈ ds, d.IsPlain) (b : Bindings) :
    answersOf (Loop.values.events e b (ds.map setLine ++ [formula])) =
      (List.replicate (ds.length + 1) Loop.values.prompt).map .print ++
        answerOf (e.evalFormula (boundBy b (ds.map Definition.bare)) formula) ::
          [Loop.values.prompt].map .print := by
  -- The bindings have to vary: each line that defines a name hands other ones to the next line.
  induction ds generalizing b with
  | nil =>
    have hanswer : answersOf ((Request.formula formula).events e b) =
        [answerOf (e.evalFormula b formula)] := by
      rw [Request.events, answersOf_append, answersOf_evalFormulaEvents, List.nil_append]
      cases e.evalFormula b formula <;> rfl
    have hrequest : Request.ofLine formula ≠ .exit := by simp [hformula.ofLine_eq]
    rw [List.map_nil, List.nil_append, events_values_cons hrequest, hformula.ofLine_eq,
      answersOf_cons_print, answersOf_append, hanswer]
    rfl
  | cons d ds ih =>
    obtain ⟨hd, hds⟩ := List.forall_mem_cons.mp hds
    have hrequest : Request.ofLine (setLine d) ≠ .exit := by simp [ofLine_setLine hd]
    rw [List.map_cons, List.cons_append, events_values_cons hrequest, ofLine_setLine hd,
      answersOf_cons_print, answersOf_append, Request.bindings, ih hds]
    rfl

end Loop

/-! ## Transcripts -/

def errorText (colour : Bool) (time : String) (events : List Event) : String :=
  String.join (events.map (Event.errorOutput colour time))

/-- The events of a run that only tell what it is doing. -/
def Run.messages (r : Run) : List Event := r.events.filter Event.isMessage

/-- A transcript shows what came of a formula. It is that of a run whose answers are what came of
the formula and, in front of it and behind it, given texts on standard output. So standard output
holds a value, or nothing where the formula has none, between these texts; standard error holds the
report of an error, or nothing where there is a value, between the messages of the run. -/
structure Transcript.Shows (t : Transcript) (r : Run) (colour : Bool) (time : String)
    (outcome : Except Error Decimal) (front behind : List String) : Prop where
  answers : r.answers = front.map .print ++ answerOf outcome :: behind.map .print
  output : t.output = String.join front ++ ((answerOf outcome).output ++ String.join behind)
  errorOutput : ∃ before after, r.messages = before ++ after ∧
    t.errorOutput = errorText colour time before ++
      ((answerOf outcome).errorOutput colour time ++ errorText colour time after)

theorem errorText_filter {colour : Bool} {time : String}
    (h : ∀ event ∈ answersOf events, event.errorOutput colour time = "") :
    errorText colour time events = errorText colour time (events.filter Event.isMessage) := by
  induction events with
  | nil => rfl
  | cons event events ih =>
    have hrest := ih fun event' hevent' ↦ h event' <| by
      rw [mem_answersOf] at hevent' ⊢
      exact ⟨List.mem_cons_of_mem _ hevent'.1, hevent'.2⟩
    rw [errorText, List.map_cons, String.join_cons, ← errorText, hrest]
    cases hmessage : event.isMessage with
    | true =>
      rw [List.filter_cons_of_pos hmessage, errorText, errorText, List.map_cons, String.join_cons]
    | false =>
      rw [List.filter_cons_of_neg (by simp [hmessage]),
        h event (mem_answersOf.mpr ⟨List.mem_cons_self, hmessage⟩), String.empty_append]

theorem isMessage_answerOf (outcome : Except Error Decimal) :
    (answerOf outcome).isMessage = false := by
  cases outcome <;> rfl

theorem shows_of_answers {front behind : List String}
    (h : r.answers = front.map .print ++ answerOf outcome :: behind.map .print) (colour : Bool)
    (time : String) : Transcript.Shows ⟨r.output, r.errorOutput colour time, r.ending⟩ r colour time
      outcome front behind := by
  have houtput (texts : List String) :
      String.join ((texts.map Event.print).map Event.output) = String.join texts := by
    rw [List.map_map]
    exact congrArg String.join (List.map_id' texts)
  have hmessages {events : List Event} {texts : List String}
      (hevents : answersOf events = texts.map .print) :
      errorText colour time events = errorText colour time (events.filter Event.isMessage) := by
    refine errorText_filter fun event hevent ↦ ?_
    rw [hevents] at hevent
    obtain ⟨text, -, rfl⟩ := List.mem_map.mp hevent
    rfl
  refine ⟨h, ?_, ?_⟩
  · rw [Run.output_eq, h, List.map_append, String.join_append, List.map_cons, String.join_cons,
      houtput, houtput]
  · -- The answers are a part of the events, so a split of the answers splits the events as well.
    obtain ⟨front', rest, hevents, hfront, hrest⟩ := List.filter_eq_append_iff.mp h
    obtain ⟨between, after, rfl, hbetween, -, hbehind⟩ := List.filter_eq_cons_iff.mp hrest
    have hbefore : answersOf (front' ++ between) = front.map .print := by
      rw [answersOf_append, answersOf, hfront, answersOf, List.filter_eq_nil_iff.mpr hbetween,
        List.append_nil]
    refine ⟨(front' ++ between).filter Event.isMessage, after.filter Event.isMessage, ?_, ?_⟩
    · have hanswer : ¬ (answerOf outcome).isMessage = true := by
        rw [isMessage_answerOf]
        exact Bool.false_ne_true
      rw [Run.messages, hevents, ← List.append_assoc, List.filter_append,
        List.filter_cons_of_neg hanswer]
    · rw [← hmessages hbefore, ← hmessages hbehind, Run.errorOutput, hevents, errorText, errorText,
        ← List.append_assoc, List.map_append, String.join_append, List.map_cons, String.join_cons]

theorem Run.Gives.shows (h : r.Gives outcome) (colour : Bool) (time : String) :
    Transcript.Shows ⟨r.output, r.errorOutput colour time, r.ending⟩ r colour time outcome [] [] :=
  shows_of_answers h.answers colour time

/-! ## The three ways -/

variable {args : List String} {ds : List Definition} {limit verbosity : Nat}

theorem shows_of_eval (folder : Folder) (input : String) (colour : Bool) (time : String)
    (hargs : CommandLine.read args =
      .ok ⟨verbosity, limit, .eval formula ⟨definitions, false, false⟩⟩) :
    let t := transcript args folder input colour time
    let r := runInvocation folder.read input
      ⟨verbosity, limit, .eval formula ⟨definitions, false, false⟩⟩
    let outcome := Engine.evalFormula ⟨.standard, limit⟩ (bindingsOf definitions) formula
    t.Shows r colour time outcome [] [] ∧ t.ending = endingOf outcome := by
  intro t r outcome
  have hgives : r.Gives outcome :=
    (gives_runEval ⟨.standard, limit⟩ formula definitions).shownAt verbosity
  simp only [t, transcript, hargs]
  exact ⟨hgives.shows colour time, hgives.ending⟩

theorem shows_of_file (hformula : Loop.IsFormula formula) {folder : Folder} {path : String}
    {ends : List Char} (input : String) (colour : Bool) (time : String)
    (hargs : CommandLine.read args =
      .ok ⟨verbosity, limit, .file path ⟨definitions, false, false⟩⟩)
    (hfile : folder.read path = .ok (Text.Utf8.encode (formula.toList ++ ends)))
    (hends : ∀ c ∈ ends, Engine.isLineEnd c = true) :
    let t := transcript args folder input colour time
    let r := runInvocation folder.read input
      ⟨verbosity, limit, .file path ⟨definitions, false, false⟩⟩
    let outcome := Engine.evalFormula ⟨.standard, limit⟩ (bindingsOf definitions) formula
    t.Shows r colour time outcome [] [] ∧ t.ending = endingOf outcome := by
  intro t r outcome
  have hfresh : (runFile ⟨.standard, limit⟩ path (folder.read path)
      ⟨definitions, false, false⟩).Gives outcome := by
    rw [hfile]
    exact gives_runFile path (formulaOfBytes_encode hformula hends)
  have hgives : r.Gives outcome := hfresh.shownAt verbosity
  simp only [t, transcript, hargs]
  exact ⟨hgives.shows colour time, hgives.ending⟩

theorem shows_of_session (hformula : Loop.IsFormula formula) (hds : ∀ d ∈ ds, d.IsPlain)
    (folder : Folder) {input : String} (colour : Bool) (time : String)
    (hargs : CommandLine.read args = .ok ⟨verbosity, limit, .values⟩)
    (hinput : Loop.linesOf input = ds.map Loop.setLine ++ [formula]) :
    let t := transcript args folder input colour time
    let r := runInvocation folder.read input ⟨verbosity, limit, .values⟩
    let definitions := ds.map Definition.bare
    let outcome := Engine.evalFormula ⟨.standard, limit⟩ (bindingsOf definitions) formula
    t.Shows r colour time outcome (List.replicate (ds.length + 1) Loop.values.prompt)
      [Loop.values.prompt] ∧ t.ending = .success := by
  intro t r definitions outcome
  have hfresh := Loop.answersOf_events ⟨.standard, limit⟩ hformula hds .empty
  rw [← bindingsOf_eq, ← hinput] at hfresh
  have hanswers : r.answers = _ := (Run.answers_shownAt verbosity
    (Loop.values.run ⟨.standard, limit⟩ input)).trans hfresh
  simp only [t, transcript, hargs]
  exact ⟨shows_of_answers hanswers colour time, rfl⟩

/-- No line end is a part of a line that defines a name or of a formula. -/
theorem linesOf_inputOf_session (hformula : Loop.IsFormula formula) (hds : ∀ d ∈ ds, d.IsPlain) :
    Loop.linesOf (Loop.inputOf (ds.map Loop.setLine ++ [formula])) =
      ds.map Loop.setLine ++ [formula] := by
  refine Loop.linesOf_inputOf fun line hline ↦ ?_
  rcases List.mem_append.mp hline with hline | hline
  · obtain ⟨d, hd, rfl⟩ := List.mem_map.mp hline
    exact ⟨Loop.feed_setLine (hds d hd), Loop.getLast?_setLine (hds d hd)⟩
  · rw [List.mem_singleton.mp hline]
    refine ⟨hformula.feed, fun hreturn ↦ ?_⟩
    exact absurd (hformula.isSpace_of_getLast? hreturn) (by decide)

/-- **Three ways.** Under definitions that every way of writing them leaves alone, a formula comes
to one outcome, whether it is an argument, the contents of a file with any line ends behind it, or
a line of a session behind the lines that define the names. The two commands answer nothing but the
outcome and end as it says; the session answers it between its prompts. Below the limit of numbers
there are arguments for each way, and an input for the session. -/
theorem ways_agree {formula : String} (hformula : Loop.IsFormula formula) {ds : List Definition}
    (hds : ∀ d ∈ ds, d.IsPlain) (limit : Nat) :
    let definitions := ds.map Definition.bare
    let eval := Command.eval formula ⟨definitions, false, false⟩
    let file path := Command.file path ⟨definitions, false, false⟩
    let outcome := Engine.evalFormula ⟨.standard, limit⟩ (bindingsOf definitions) formula
    let lines := ds.map Loop.setLine ++ [formula]
    (∀ d ∈ ds, Definition.read d.text = .ok d.bare) ∧
    (limit < numberLimit →
      CommandLine.read (argumentsOf .eval limit (ds.map Definition.text) formula) =
        .ok ⟨0, limit, eval⟩ ∧
      (∀ path ≠ "", CommandLine.read (argumentsOf .file limit (ds.map Definition.text) path) =
        .ok ⟨0, limit, file path⟩) ∧
      CommandLine.read (sessionArguments limit) = .ok ⟨0, limit, .values⟩) ∧
    Loop.linesOf (Loop.inputOf lines) = lines ∧
    ∀ (args : List String) (folder : Folder) (input : String) (colour : Bool) (time : String)
      (verbosity : Nat),
      let t := transcript args folder input colour time
      let run command := runInvocation folder.read input ⟨verbosity, limit, command⟩
      (CommandLine.read args = .ok ⟨verbosity, limit, eval⟩ →
        t.Shows (run eval) colour time outcome [] [] ∧ t.ending = endingOf outcome) ∧
      (∀ path ends, CommandLine.read args = .ok ⟨verbosity, limit, file path⟩ →
        folder.read path = .ok (Text.Utf8.encode (formula.toList ++ ends)) →
        (∀ c ∈ ends, Engine.isLineEnd c = true) →
        t.Shows (run (file path)) colour time outcome [] [] ∧ t.ending = endingOf outcome) ∧
      (CommandLine.read args = .ok ⟨verbosity, limit, .values⟩ → Loop.linesOf input = lines →
        t.Shows (run .values) colour time outcome
          (List.replicate (ds.length + 1) Loop.values.prompt) [Loop.values.prompt] ∧
        t.ending = .success) := by
  intro definitions eval file outcome lines
  have hread : List.Forall₂ (fun text d ↦ Definition.read text = .ok d)
      (ds.map Definition.text) definitions := by
    rw [List.forall₂_map_left_iff, List.forall₂_map_right_iff, List.forall₂_same]
    exact fun d hd ↦ (hds d hd).read_text
  refine ⟨fun d hd ↦ (hds d hd).read_text, fun hlimit ↦ ⟨?_, ?_, ?_⟩,
    linesOf_inputOf_session hformula hds,
    fun args folder input colour time verbosity ↦ ⟨?_, ?_, ?_⟩⟩
  · exact read_argumentsOf rfl hlimit hread hformula.ne_empty
  · exact fun path hpath ↦ read_argumentsOf rfl hlimit hread hpath
  · exact read_sessionArguments hlimit
  · exact shows_of_eval folder input colour time
  · exact fun path ends ↦ shows_of_file hformula input colour time
  · exact shows_of_session hformula hds folder colour time

/-- A quotient that has a value under one definition and none under another, with a line end behind
it in the file. -/
theorem ways_agree_quotient :
    let formula := "6/\x7bx\x7d"
    let folder : Folder := [("quotient", Text.Utf8.encode (formula.toList ++ ['\r', '\n']))]
    let AllShow (value : String) (outcome : Except Error Decimal) : Prop :=
      let d : Definition := ⟨"\x7bx\x7d", value⟩
      let settings : Settings := ⟨[d.bare], false, false⟩
      let input := Loop.inputOf [Loop.setLine d, formula]
      let run input command := runInvocation folder.read input ⟨0, Parser.defaultLimit, command⟩
      let eval := transcript ["eval", "-d", d.text, formula] folder "" false "0.00s"
      let file := transcript ["file", "-d", d.text, "quotient"] folder "" false "0.00s"
      let session := transcript ["repl"] folder input false "0.00s"
      (eval.Shows (run "" (.eval formula settings)) false "0.00s" outcome [] [] ∧
        eval.ending = endingOf outcome) ∧
      (file.Shows (run "" (.file "quotient" settings)) false "0.00s" outcome [] [] ∧
        file.ending = endingOf outcome) ∧
      session.Shows (run input .values) false "0.00s" outcome ["=> ", "=> "] ["=> "] ∧
        session.ending = .success
    Loop.IsFormula formula ∧ AllShow "2" (.ok ⟨false, 3, 0, by decide, by decide⟩) ∧
      AllShow "0"
        (.error (.evaluation (some formula) ⟨.operation .divisionByZero, ⟨1, 2⟩, []⟩)) := by
  intro formula folder AllShow
  have hformula : Loop.IsFormula formula :=
    ⟨by decide +kernel, by decide +kernel, by decide +kernel, by decide +kernel⟩
  have hends : ∀ c ∈ ['\r', '\n'], Engine.isLineEnd c = true := List.all_eq_true.mp rfl
  have hfile : folder.read "quotient" =
      .ok (Text.Utf8.encode (formula.toList ++ ['\r', '\n'])) := by
    decide +kernel
  -- Both cases apply the theorem to the same three command lines.
  have hshow {value : String} {outcome : Except Error Decimal} :
      let d : Definition := ⟨"\x7bx\x7d", value⟩
      let settings : Settings := ⟨[d.bare], false, false⟩
      d.IsPlain →
      Engine.evalFormula ⟨.standard, Parser.defaultLimit⟩ (bindingsOf [d.bare]) formula = outcome →
      CommandLine.read ["eval", "-d", d.text, formula] =
        .ok ⟨0, Parser.defaultLimit, .eval formula settings⟩ →
      CommandLine.read ["file", "-d", d.text, "quotient"] =
        .ok ⟨0, Parser.defaultLimit, .file "quotient" settings⟩ → AllShow value outcome := by
    intro d settings hd houtcome heval hfileArgs
    subst houtcome
    have hds : ∀ d' ∈ [d], d'.IsPlain := List.forall_mem_singleton.mpr hd
    obtain ⟨-, -, hlines, hways⟩ := ways_agree hformula hds Parser.defaultLimit
    have hrepl : CommandLine.read ["repl"] = .ok ⟨0, Parser.defaultLimit, .values⟩ := by
      decide +kernel
    exact ⟨(hways _ folder "" false "0.00s" 0).1 heval,
      (hways _ folder "" false "0.00s" 0).2.1 "quotient" _ hfileArgs hfile hends,
      (hways _ folder _ false "0.00s" 0).2.2 hrepl hlines⟩
  have hname : Text.IsWord "\x7bx\x7d".toList := by decide +kernel
  have hequals : '=' ∉ "\x7bx\x7d".toList := by decide +kernel
  have hbare : Definition.bareName "\x7bx\x7d".toList ≠ [] := by decide +kernel
  have hplain {value : String} (hvalue : Text.IsWord value.toList)
      (hnumber : (Decimal.readValue? value).isSome = true) :
      Definition.IsPlain ⟨"\x7bx\x7d", value⟩ :=
    ⟨hname.space, hequals, hbare, hvalue.space, hnumber⟩
  refine ⟨hformula, hshow (hplain (by decide +kernel) (by decide +kernel)) ?_ ?_ ?_,
    hshow (hplain (by decide +kernel) (by decide +kernel)) ?_ ?_ ?_⟩ <;> decide +kernel

end DecimalFormula.Console
