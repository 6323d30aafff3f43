import DecimalFormula.Proofs.Parsing.Headroom

/-!
# A parser that is used step by step

A parser may be asked for its current token, to pass it, to pass a token of some kind or to parse a
formula from there, in any order and also after failures. Whatever was asked of it, it stands at a
token of its list, not behind the first end of input, and has entered no more levels than the limit
permits; and each step only moves it forward (`Parser.stays_sound`).

A run that fails leaves the levels it was in entered, so the headroom of the next run is smaller. A
run never leaves a level that was entered before it: if it succeeds, every level has given back what
it took (`Parsing.level_follows`), and if it stops, what is left of its headroom is at most what it
started with (`Outcome.LeavesAtMost`).
-/

namespace DecimalFormula

variable {registry : Registry} {limit headroom n m fuel : Nat} {c c' : TokenCursor}
  {formula : TokenCursor → Outcome Tree} {tokens : List Token}

/-! ## Headroom that is left -/

namespace Outcome

variable {α β : Type} {outcome : Outcome α}

/-- A run that stops has at most so much headroom left. -/
def LeavesAtMost (n : Nat) : Outcome α → Prop
  | done .. => True
  | stop _ _ left => left ≤ n

namespace LeavesAtMost

theorem mono (h : outcome.LeavesAtMost n) (hle : n ≤ m) : outcome.LeavesAtMost m := by
  cases outcome with
  | done => trivial
  | stop e c left => exact Nat.le_trans h hle

theorem andThen {next : α → TokenCursor → Outcome β} (h : outcome.LeavesAtMost n)
    (hnext : ∀ x c, (next x c).LeavesAtMost n) : (outcome.andThen next).LeavesAtMost n := by
  cases outcome with
  | done x c => exact hnext x c
  | stop => exact h

end LeavesAtMost

end Outcome

theorem TokenCursor.advance_of_isEnd (h : c.current.isEnd = true) : c.advance = c := by
  rw [advance]
  split
  · rfl
  · exact if_pos h

/-- Whether the cause is what a registry says about a call. -/
def ParseCause.isAboutCall : ParseCause → Bool
  | unknownFunction _ | wrongArgumentCount .. => true
  | _ => false

namespace Parser

open Outcome

theorem isAboutCall_mismatch (c : TokenCursor) (expected : List TokenKind) :
    (mismatch c expected).isAboutCall = false := by
  rw [mismatch]
  split <;> rfl

theorem Fault.cause_ne_incompleteParse {passed : List Token} {e : ParseError}
    (h : Fault registry limit passed c headroom e) (t : Token) : e.cause ≠ .incompleteParse t := by
  cases h with
  | mismatch =>
    dsimp only
    rw [Parser.mismatch]
    split <;> exact fun h ↦ by cases h
  | _ => exact fun h ↦ by cases h

theorem expect_leavesAtMost (kind : TokenKind) (c : TokenCursor) :
    (expect kind headroom c).LeavesAtMost headroom := by
  rw [expect]
  split
  · trivial
  · exact Nat.le_refl _

theorem moreArguments_leavesAtMost (hformula : ∀ c, (formula c).LeavesAtMost n) (fuel : Nat)
    (c : TokenCursor) : (moreArguments formula fuel c).LeavesAtMost n := by
  induction fuel generalizing c with
  | zero => trivial
  | succ fuel ih =>
    rw [moreArguments]
    split
    · exact (hformula _).andThen fun _ c ↦ (ih c).andThen fun _ _ ↦ trivial
    · trivial

theorem arguments_leavesAtMost (hformula : ∀ c, (formula c).LeavesAtMost n) (c : TokenCursor) :
    (arguments formula c).LeavesAtMost n := by
  rw [arguments]
  split
  · trivial
  · refine (hformula c).andThen fun _ c ↦ ?_
    exact (moreArguments_leavesAtMost hformula _ c).andThen fun _ _ ↦ trivial

theorem finishCall_leavesAtMost (registry : Registry) (name : Token) (args : List Tree)
    (c : TokenCursor) : (finishCall registry headroom name args c).LeavesAtMost headroom := by
  rw [finishCall]
  split
  · split
    · exact Nat.le_refl _
    · split
      · trivial
      · exact Nat.le_refl _
  · exact Nat.le_refl _

theorem primary_leavesAtMost (registry : Registry)
    (hformula : ∀ c, (formula c).LeavesAtMost headroom) (c : TokenCursor) :
    (primary registry headroom formula c).LeavesAtMost headroom := by
  rw [primary]
  split
  · trivial
  · trivial
  · refine (expect_leavesAtMost _ _).andThen fun _ c' ↦ ?_
    refine (arguments_leavesAtMost hformula c').andThen fun args c'' ↦ ?_
    exact finishCall_leavesAtMost registry _ args c''
  · exact (hformula _).andThen fun _ c' ↦ (expect_leavesAtMost _ c').andThen fun _ _ ↦ trivial
  · exact Nat.le_refl _

/-- By induction on the headroom, of which every level takes one unit. -/
theorem parseLevel_leavesAtMost (registry : Registry) (limit headroom : Nat) (level : Level)
    (c : TokenCursor) : (parseLevel registry limit headroom level c).LeavesAtMost headroom := by
  induction headroom generalizing level c with
  | zero =>
    rw [parseLevel]
    exact Nat.le_refl _
  | succ headroom ih =>
    refine LeavesAtMost.mono (n := headroom) ?_ (Nat.le_succ _)
    by_cases hlevel : level = .primary
    · subst hlevel
      rw [parseLevel_primary]
      exact primary_leavesAtMost registry (ih .disjunction) c
    rw [parseLevel_succ hlevel]
    split
    · exact (ih _ _).andThen fun _ _ ↦ trivial
    · refine (ih _ _).andThen fun _ c' ↦ ?_
      split
      · trivial
      · exact (ih _ _).andThen fun _ _ ↦ trivial

/-! ## Whole formulas -/

/-- What comes of a run that is to take all the tokens. -/
inductive Ends (registry : Registry) (limit headroom : Nat) (c : TokenCursor) : Outcome Tree → Prop
  /-- A formula was read up to an end of input. -/
  | done {ts x d} : c.Passes ts d → d.current.isEnd = true →
    Reads registry headroom .disjunction ts x → Ends registry limit headroom c (.done x d)
  /-- A formula was read, and something else follows it. -/
  | incomplete {ts x d} : c.Passes ts d → d.current.isEnd = false →
    Reads registry headroom .disjunction ts x → Ends registry limit headroom c
      (.stop ⟨.incompleteParse d.current, d.current.span, d.index⟩ d headroom)
  /-- There was a fault. -/
  | fault {ts e d left} : c.Passes ts d → Fault registry limit ts d left e → left ≤ headroom →
    Ends registry limit headroom c (.stop e d left)

theorem wholeFormula_ends (hc : c.Closed) :
    Ends registry limit headroom c (wholeFormula registry limit headroom c) := by
  have hmeets : (parseLevel registry limit headroom .disjunction c).Meets registry limit c _ :=
    parseLevel_meets .disjunction hc (by simp)
  have hleaves := parseLevel_leavesAtMost registry limit headroom .disjunction c
  rw [wholeFormula]
  cases hrun : parseLevel registry limit headroom .disjunction c with
  | done x d =>
    rw [hrun] at hmeets
    obtain ⟨ts, hpass, hreads⟩ := hmeets
    rw [andThen_done]
    split
    · next hend => exact .done hpass hend hreads
    · next hend => exact .incomplete hpass (Bool.not_eq_true _ ▸ hend) hreads
  | stop e d left =>
    rw [hrun] at hmeets hleaves
    obtain ⟨ts, hpass, hfault⟩ := hmeets
    exact .fault hpass hfault hleaves

/-! ## Steps -/

/-- What may be asked of a parser. -/
inductive Step
  /-- To tell the current token. -/
  | current
  /-- To pass the current token. -/
  | advance
  /-- To pass a token of some kind. -/
  | expect (kind : TokenKind)
  /-- To parse a formula. -/
  | parse
deriving DecidableEq, Repr

/-- What a parser answers. -/
inductive Answer
  | token (token : Token)
  | tree (tree : Tree)
  | error (error : ParseError)
deriving DecidableEq, Repr

/-- The answer to a step that may fail. -/
def Answer.ofExcept {α : Type} (answer : α → Answer) : Except ParseError α → Answer
  | .ok value => answer value
  | .error e => error e

/-- The answer to a step, and the parser behind it. -/
def perform (p : Parser) : Step → Answer × Parser
  | .current => (.token p.current, p)
  | .advance => (.token p.advance.1, p.advance.2)
  | .expect kind => (.ofExcept .token (p.expectKind kind).1, (p.expectKind kind).2)
  | .parse => (.ofExcept .tree p.parse.1, p.parse.2)

/-- The parser behind some steps. -/
def afterSteps (p : Parser) (steps : List Step) : Parser :=
  steps.foldl (fun p step ↦ (p.perform step).2) p

/-- The error is raised where the parser stands. It points at the token there, unless it is about a
call, whose name the parser has passed. -/
def RaisedAt (passed : List Token) (p : Parser) (e : ParseError) : Prop :=
  e.index = p.index ∧
    match e.cause with
    | .wrongArgumentCount function _ _ => ∃ name ∈ passed, name.kind = .function ∧
        name.text = function ∧ e.span = name.span.merge p.current.span
    | .unknownFunction function => ∃ name ∈ passed, name.kind = .function ∧
        name.text = function ∧ e.span = name.span
    | _ => e.span = p.current.span

theorem raisedAt_here (p : Parser) (passed : List Token) {cause : ParseCause}
    (h : cause.isAboutCall = false) : RaisedAt passed p ⟨cause, p.current.span, p.index⟩ := by
  refine ⟨rfl, ?_⟩
  cases cause with
  | wrongArgumentCount | unknownFunction => cases h
  | _ => rfl

theorem raisedAt_of_fault {p : Parser} {passed : List Token} {left : Nat} {e : ParseError}
    (h : Fault registry limit passed p.cursor left e) : RaisedAt passed p e := by
  cases h with
  | tooDeep => exact raisedAt_here p passed rfl
  | mismatch => exact raisedAt_here p passed (isAboutCall_mismatch _ _)
  | unknownFunction hname hkind => exact ⟨rfl, _, hname, hkind, rfl, rfl⟩
  | wrongArgumentCount hname hkind => exact ⟨rfl, _, hname, hkind, rfl, rfl⟩

/-- From one state of a parser to a later one it passes some tokens, and enters levels without
leaving any that were entered before. -/
structure Progress (p : Parser) (ts : List Token) (p' : Parser) : Prop where
  /-- The tokens are passed. -/
  passes : p.cursor.Passes ts p'.cursor
  /-- The limit stays the same. -/
  limit_eq : p'.limit = p.limit
  /-- No level is left that was entered before. -/
  depth_le : p.depth ≤ p'.depth
  /-- The levels that are entered are within the limit. -/
  depth_le_limit : p'.depth ≤ p.limit

namespace Progress

variable {p p' p'' : Parser} {ts us : List Token}

theorem refl (h : p.depth ≤ p.limit) : Progress p [] p := ⟨.refl _, rfl, Int.le_refl _, h⟩

theorem trans (h : Progress p ts p') (h' : Progress p' us p'') : Progress p (ts ++ us) p'' where
  passes := h.passes.trans h'.passes
  limit_eq := h'.limit_eq.trans h.limit_eq
  depth_le := Int.le_trans h.depth_le h'.depth_le
  depth_le_limit := h.limit_eq ▸ h'.depth_le_limit

theorem index_le (h : Progress p ts p') : p.index ≤ p'.index := by
  rw [index, index, h.passes.index_eq]
  exact Nat.le_add_right _ _

end Progress

variable {p : Parser}

theorem exists_passes_advance (hc : c.Closed) : ∃ ts, c.Passes ts c.advance := by
  by_cases hkind : c.kind = .endOfInput
  · rw [c.advance_of_isEnd (Token.isEnd_iff.mpr hkind)]
    exact ⟨[], .refl c⟩
  · exact ⟨_, hc.passes_advance hkind⟩

theorem expectKind_of_eq {kind : TokenKind} (h : p.cursor.kind = kind) :
    p.expectKind kind = (.ok p.current, { p with cursor := p.cursor.advance }) := by
  change (if p.cursor.kind = kind then _ else _ : Parsing Token).runOn p = _
  rw [if_pos h]
  rfl

theorem expectKind_of_ne {kind : TokenKind} (h : p.cursor.kind ≠ kind) :
    p.expectKind kind = (.error ⟨mismatch p.cursor [kind], p.current.span, p.index⟩, p) := by
  change (if p.cursor.kind = kind then _ else _ : Parsing Token).runOn p = _
  rw [if_neg h]
  rfl

theorem parse_progress (hc : p.cursor.Closed) (hdepth : p.depth ≤ p.limit) :
    ∃ ts, Progress p ts p.parse.2 ∧
      (∀ e, p.parse.1 = .error e → RaisedAt ts p.parse.2 e) ∧
      (∀ tree, p.parse.1 = .ok tree → p.parse.2.depth = p.depth ∧ p.parse.2.current.isEnd = true) ∧
      ∀ t span i, p.parse.1 = .error ⟨.incompleteParse t, span, i⟩ → p.parse.2.depth = p.depth := by
  rw [parse_eq hdepth]
  have hsame : (p.limit - p.headroom : Int) = p.depth := by
    rw [headroom]
    omega
  have hwithin : (p.limit - p.headroom : Int) ≤ p.limit := Int.le_trans (Int.le_of_eq hsame) hdepth
  have hends : Ends p.registry p.limit p.headroom p.cursor _ := wholeFormula_ends hc
  generalize wholeFormula p.registry p.limit p.headroom p.cursor = outcome at hends ⊢
  -- A formula that is finished leaves every level it has entered. Only a fault may stay in some,
  -- and then the depth is what the headroom at the fault says.
  cases hends with
  | @done ts x d hpass hend hreads =>
    refine ⟨ts, ⟨hpass, rfl, Int.le_of_eq hsame.symm, hwithin⟩, ?_, ?_, ?_⟩
    · rintro e ⟨⟩
    · exact fun _ _ ↦ ⟨hsame, hend⟩
    · rintro t span i ⟨⟩
  | @incomplete ts x d hpass hend hreads =>
    refine ⟨ts, ⟨hpass, rfl, Int.le_of_eq hsame.symm, hwithin⟩, ?_, ?_, ?_⟩
    · rintro e ⟨⟩
      exact raisedAt_here (withHeadroom p.registry p.limit p.headroom d) ts rfl
    · rintro tree ⟨⟩
    · exact fun _ _ _ _ ↦ hsame
  | @fault ts e d left hpass hfault hleft =>
    refine ⟨ts, ⟨hpass, rfl, ?_, ?_⟩, ?_, ?_, ?_⟩
    · dsimp only [settle, withHeadroom]
      omega
    · dsimp only [settle, withHeadroom]
      omega
    · rintro e ⟨⟩
      exact raisedAt_of_fault (p := withHeadroom p.registry p.limit left d) hfault
    · rintro tree ⟨⟩
    · rintro t span i ⟨⟩
      exact absurd rfl (hfault.cause_ne_incompleteParse t)

/-- **One step.** It passes some tokens, and if it fails, the error is raised where it ends. -/
theorem perform_progress (hc : p.cursor.Closed) (hdepth : p.depth ≤ p.limit) (step : Step) :
    ∃ ts, Progress p ts (p.perform step).2 ∧
      ∀ e, (p.perform step).1 = .error e → RaisedAt ts (p.perform step).2 e := by
  cases step with
  | current =>
    refine ⟨[], .refl hdepth, ?_⟩
    rintro e ⟨⟩
  | advance =>
    obtain ⟨ts, hpass⟩ := exists_passes_advance hc
    refine ⟨ts, ⟨hpass, rfl, Int.le_refl _, hdepth⟩, ?_⟩
    rintro e ⟨⟩
  | expect kind =>
    rw [perform]
    by_cases hkind : p.cursor.kind = kind
    · rw [expectKind_of_eq hkind]
      obtain ⟨ts, hpass⟩ := exists_passes_advance hc
      refine ⟨ts, ⟨hpass, rfl, Int.le_refl _, hdepth⟩, ?_⟩
      rintro e ⟨⟩
    · rw [expectKind_of_ne hkind]
      refine ⟨[], .refl hdepth, ?_⟩
      rintro e ⟨⟩
      exact raisedAt_here p [] (isAboutCall_mismatch _ _)
  | parse =>
    obtain ⟨ts, hprogress, herror, -, -⟩ := parse_progress hc hdepth
    refine ⟨ts, hprogress, fun e he ↦ herror e ?_⟩
    rw [perform] at he
    cases hanswer : p.parse.1 with
    | ok tree =>
      rw [hanswer] at he
      cases he
    | error e' =>
      rw [hanswer] at he
      cases he
      rfl

/-- **Any steps** pass some tokens from the start on. -/
theorem afterSteps_progress (hc : p.cursor.Closed) (hdepth : p.depth ≤ p.limit)
    (steps : List Step) : ∃ ts, Progress p ts (p.afterSteps steps) := by
  -- What one step preserves is that the cursor is at a token of the list and the depth within the
  -- limit.
  induction steps generalizing p with
  | nil => exact ⟨[], .refl hdepth⟩
  | cons step steps ih =>
    obtain ⟨ts, hstep, -⟩ := perform_progress hc hdepth step
    have hdepth' : (p.perform step).2.depth ≤ (p.perform step).2.limit := by
      rw [hstep.limit_eq]
      exact hstep.depth_le_limit
    obtain ⟨us, hrest⟩ := ih (hstep.passes.closed hc) hdepth'
    exact ⟨ts ++ us, hstep.trans hrest⟩

/-! ## Parsers in use -/

theorem index_start (tokens : List Token) : (TokenCursor.start tokens).index = 0 := by
  rw [TokenCursor.start]
  split <;> rfl

theorem Progress.closed_eq {ts : List Token} (h : Progress (ofTokens registry limit tokens) ts p) :
    TokenCursor.closed tokens = ts ++ p.cursor.tokens ∧ p.index = ts.length := by
  constructor
  · rw [← h.passes.tokens_eq, ofTokens, TokenCursor.tokens_start]
  · rw [index, h.passes.index_eq, ofTokens, index_start, Nat.zero_add]

/-- **A parser stays sound**, whatever is asked of it and whatever fails. It stands at a token of
its list, none of those in front of which ends the input. The levels it has entered and not left
are never fewer than none and never more than the limit. The next step never moves it back and never
leaves a level that was entered before. If the next step is

* to pass a token of some kind, and fails, the parser stays as it is;
* to parse a formula, and succeeds, all levels that were entered are left again and the parser
  stands at the first end of input; they are also left if a formula is followed by something else.

All errors are raised where the parser stands then. -/
theorem stays_sound (registry : Registry) (limit : Nat) (tokens : List Token) (steps : List Step) :
    let ts := TokenCursor.closed tokens
    let p := (ofTokens registry limit tokens).afterSteps steps
    ts[p.index]? = some p.current ∧ (∀ t ∈ ts.take p.index, t.isEnd = false) ∧
    0 ≤ p.depth ∧ p.depth ≤ limit ∧
    (∀ step, p.index ≤ (p.perform step).2.index ∧ p.depth ≤ (p.perform step).2.depth) ∧
    (∀ kind e, (p.expectKind kind).1 = .error e → (p.expectKind kind).2 = p) ∧
    (∀ tree, p.parse.1 = .ok tree → p.parse.2.depth = p.depth ∧ p.parse.2.current.isEnd = true) ∧
    (∀ t span i, p.parse.1 = .error ⟨.incompleteParse t, span, i⟩ → p.parse.2.depth = p.depth) ∧
    ∀ step e, (p.perform step).1 = .error e →
      RaisedAt ((ts.take (p.perform step).2.index).drop p.index) (p.perform step).2 e := by
  intro ts p
  have hclosed := TokenCursor.closed_start tokens
  obtain ⟨us, hp⟩ := afterSteps_progress (p := ofTokens registry limit tokens) hclosed
    (Int.natCast_nonneg _) steps
  have hc : p.cursor.Closed := hp.passes.closed hclosed
  have hdepth : p.depth ≤ p.limit := by
    rw [hp.limit_eq]
    exact hp.depth_le_limit
  obtain ⟨htokens, hindex⟩ : ts = us ++ p.cursor.tokens ∧ p.index = us.length := hp.closed_eq
  obtain ⟨-, -, -, hok, hincomplete⟩ := parse_progress hc hdepth
  refine ⟨?_, ?_, hp.depth_le, hp.depth_le_limit, fun step ↦ ?_, fun kind e he ↦ ?_, hok,
    hincomplete, fun step e he ↦ ?_⟩
  · rw [htokens, hindex, List.getElem?_append_right (Nat.le_refl _), Nat.sub_self]
    rfl
  · rw [htokens, hindex, List.take_left]
    exact hp.passes.inner
  · obtain ⟨us', hstep, -⟩ := perform_progress hc hdepth step
    exact ⟨hstep.index_le, hstep.depth_le⟩
  · by_cases hkind : p.cursor.kind = kind
    · rw [expectKind_of_eq hkind] at he
      cases he
    · rw [expectKind_of_ne hkind]
  · obtain ⟨us', hstep, herror⟩ := perform_progress hc hdepth step
    -- The tokens between the two indices are those that the step has passed.
    have hbetween : (ts.take (p.perform step).2.index).drop p.index = us' := by
      rw [htokens, hindex, index, hstep.passes.index_eq, hstep.passes.tokens_eq,
        ← List.append_assoc, show p.cursor.index = us.length from hindex, ← List.length_append,
        List.take_left, List.drop_left]
    rw [hbetween]
    exact herror e he

/-- Two numbers in a row: the first one is a formula, and no level stays entered. -/
theorem stays_sound_two_numbers :
    let one : Token := ⟨.number, "1", ⟨0, 1⟩⟩
    let two : Token := ⟨.number, "2", ⟨2, 3⟩⟩
    let p := (ofTokens .standard 8 [one, two]).afterSteps [.expect .comma, .current]
    (p.expectKind .plus).1 = .error ⟨.unexpectedToken one [.plus], ⟨0, 1⟩, 0⟩ ∧
      (p.expectKind .plus).2 = p ∧
    p.parse.1 = .error ⟨.incompleteParse two, ⟨2, 3⟩, 1⟩ ∧
      p.parse.2.depth = p.depth ∧ RaisedAt [one] p.parse.2 ⟨.incompleteParse two, ⟨2, 3⟩, 1⟩ := by
  intro one two
  have hsound := stays_sound .standard 8 [one, two] [.expect .comma, .current]
  generalize hp : (ofTokens .standard 8 [one, two]).afterSteps [.expect .comma, .current] = p at *
  obtain ⟨-, -, -, -, -, hexpect, -, hincomplete, hraised⟩ := hsound
  have hplus : (p.expectKind .plus).1 = .error ⟨.unexpectedToken one [.plus], ⟨0, 1⟩, 0⟩ := by
    rw [← hp]
    decide +kernel
  have hparse : p.parse.1 = .error ⟨.incompleteParse two, ⟨2, 3⟩, 1⟩ := by
    rw [← hp]
    decide +kernel
  have hpassed : ((TokenCursor.closed [one, two]).take p.parse.2.index).drop p.index = [one] := by
    rw [← hp]
    decide +kernel
  refine ⟨hplus, hexpect _ _ hplus, hparse, hincomplete _ _ _ hparse, ?_⟩
  rw [← hpassed]
  exact hraised .parse _ (congrArg (Answer.ofExcept .tree) hparse)

end Parser

end DecimalFormula
