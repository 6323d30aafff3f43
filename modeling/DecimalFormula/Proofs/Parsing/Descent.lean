import DecimalFormula.Parser

/-!
# Headroom

A parser counts the levels it has entered, up in `Parsing.enter` and down in `Parsing.leave`. What
a run does is easier to tell from what is left to the limit: from a cursor, and with so many levels
that may still be entered, it passes some tokens and succeeds, or it stops somewhere with so many
levels left (`Outcome`). Here every step of the parser is described in this way, by a function of
the cursor and the headroom.

## Balance

An outcome that is `done` says nothing about the depth. That the depth is then what it was before is
the content of `Parsing.Follows`, and it is proved from the one thing that is true of the counter: a
level that has been entered is left with a depth one higher than it was entered with, if what stands
in it leaves the depth as it was (`Parsing.Follows.level`). By induction on the headroom this holds
of all levels (`Parsing.level_follows`), with any fuel that is not less than the headroom.
-/

namespace DecimalFormula

/-! ## Outcomes -/

/-- What comes of parsing a part of a formula. -/
inductive Outcome (α : Type)
  /-- The part was read up to the cursor. -/
  | done (value : α) (cursor : TokenCursor)
  /-- Reading stopped at the cursor, with so much headroom left. -/
  | stop (error : ParseError) (cursor : TokenCursor) (headroom : Nat)

namespace Outcome

variable {α β : Type}

/-- Goes on behind a part that was read. -/
def andThen (outcome : Outcome α) (next : α → TokenCursor → Outcome β) : Outcome β :=
  match outcome with
  | done value cursor => next value cursor
  | stop error cursor headroom => stop error cursor headroom

@[simp] theorem andThen_done (value : α) (cursor : TokenCursor)
    (next : α → TokenCursor → Outcome β) : (done value cursor).andThen next = next value cursor :=
  rfl

end Outcome

/-! ## Steps with some headroom -/

namespace Parser

/-- Stops at the cursor. -/
def fail {α : Type} (cause : ParseCause) (span : Span) (headroom : Nat) (cursor : TokenCursor) :
    Outcome α :=
  .stop ⟨cause, span, cursor.index⟩ cursor headroom

/-- Stops at a token that cannot stand there. -/
def unexpected {α : Type} (expected : List TokenKind) (headroom : Nat) (cursor : TokenCursor) :
    Outcome α :=
  fail (mismatch cursor expected) cursor.current.span headroom cursor

/-- Passes a token of some kind. -/
def expect (kind : TokenKind) (headroom : Nat) (cursor : TokenCursor) : Outcome Token :=
  if cursor.kind = kind then .done cursor.current cursor.advance
  else unexpected [kind] headroom cursor

/-- More arguments, each behind a comma. -/
def moreArguments (argument : TokenCursor → Outcome Tree) :
    (fuel : Nat) → TokenCursor → Outcome (List Tree)
  | 0, cursor => .done [] cursor
  | fuel + 1, cursor =>
    if cursor.kind = .comma then
      (argument cursor.advance).andThen fun first cursor ↦
        (moreArguments argument fuel cursor).andThen fun rest cursor ↦
          .done (first :: rest) cursor
    else .done [] cursor

/-- The arguments of a call, up to what should be its closing parenthesis. -/
def arguments (argument : TokenCursor → Outcome Tree) (cursor : TokenCursor) :
    Outcome (List Tree) :=
  if cursor.kind = .rightParen then .done [] cursor
  else
    (argument cursor).andThen fun first cursor ↦
      (moreArguments argument cursor.tokens.length cursor).andThen fun rest cursor ↦
        .done (first :: rest) cursor

/-- The end of a call. -/
def finishCall (registry : Registry) (headroom : Nat) (name : Token) (args : List Tree)
    (cursor : TokenCursor) : Outcome Tree :=
  if cursor.kind = .rightParen then
    let span := name.span.merge cursor.current.span
    match registry.arity? name.text with
    | none => fail (.unknownFunction name.text) name.span headroom cursor
    | some arity =>
      if arity.accepts args.length then .done (.call name.text name args span) cursor.advance
      else fail (.wrongArgumentCount name.text arity args.length) span headroom cursor
  else unexpected [.comma, .rightParen] headroom cursor

/-- A number, an identifier, a call or a formula in parentheses. -/
def primary (registry : Registry) (headroom : Nat) (formula : TokenCursor → Outcome Tree)
    (cursor : TokenCursor) : Outcome Tree :=
  match cursor.kind with
  | .number => .done (.leaf .number cursor.current) cursor.advance
  | .identifier => .done (.leaf .identifier cursor.current) cursor.advance
  | .function =>
    (expect .leftParen headroom cursor.advance).andThen fun _ behind ↦
      (arguments formula behind).andThen fun args close ↦
        finishCall registry headroom cursor.current args close
  | .leftParen =>
    (formula cursor.advance).andThen fun inner close ↦
      (expect .rightParen headroom close).andThen fun _ behind ↦ .done inner behind
  | _ => unexpected Level.operandKinds headroom cursor

/-- A part of a formula at a level of the grammar. -/
def parseLevel (registry : Registry) (limit : Nat) :
    (headroom : Nat) → Level → TokenCursor → Outcome Tree
  | 0, _, cursor => fail (.tooDeep limit) cursor.current.span 0 cursor
  | headroom + 1, .primary, cursor =>
    primary registry headroom (parseLevel registry limit headroom .disjunction) cursor
  | headroom + 1, level, cursor =>
    match level.sign? cursor.kind with
    | some operator =>
      (parseLevel registry limit headroom level cursor.advance).andThen fun operand behind ↦
        .done (.mkUnary operator cursor.current operand) behind
    | none =>
      (parseLevel registry limit headroom level.tighter cursor).andThen fun left between ↦
        match level.operator? between.kind with
        | none => .done left between
        | some operator =>
          (parseLevel registry limit headroom level.right between.advance).andThen
            fun right behind ↦ .done (.mkBinary operator between.current left right) behind

/-- A formula that takes all the tokens. -/
def wholeFormula (registry : Registry) (limit headroom : Nat) (cursor : TokenCursor) :
    Outcome Tree :=
  (parseLevel registry limit headroom .disjunction cursor).andThen fun tree behind ↦
    if behind.current.isEnd then .done tree behind
    else fail (.incompleteParse behind.current) behind.current.span headroom behind

variable {registry : Registry} {limit headroom : Nat}

/-- Below the primaries all levels are parsed alike. -/
theorem parseLevel_succ {level : Level} {c : TokenCursor} (hlevel : level ≠ .primary) :
    parseLevel registry limit (headroom + 1) level c =
      match level.sign? c.kind with
      | some o =>
        (parseLevel registry limit headroom level c.advance).andThen fun x c' ↦
          .done (.mkUnary o c.current x) c'
      | none =>
        (parseLevel registry limit headroom level.tighter c).andThen fun x c' ↦
          match level.operator? c'.kind with
          | none => .done x c'
          | some o =>
            (parseLevel registry limit headroom level.right c'.advance).andThen fun y c'' ↦
              .done (.mkBinary o c'.current x y) c'' := by
  cases level <;> first | rfl | exact absurd rfl hlevel

theorem parseLevel_primary {c : TokenCursor} : parseLevel registry limit (headroom + 1) .primary c =
    primary registry headroom (parseLevel registry limit headroom .disjunction) c := by
  rw [parseLevel]

theorem parseLevel_of_sign {level : Level} {c : TokenCursor} {o : UnaryOp}
    (hlevel : level ≠ .primary) (ho : level.sign? c.kind = some o) :
    parseLevel registry limit (headroom + 1) level c =
      (parseLevel registry limit headroom level c.advance).andThen fun x c' ↦
        .done (.mkUnary o c.current x) c' := by
  rw [parseLevel_succ hlevel, ho]

theorem parseLevel_of_operand {level : Level} {c : TokenCursor} (hlevel : level ≠ .primary)
    (ho : level.sign? c.kind = none) :
    parseLevel registry limit (headroom + 1) level c =
      (parseLevel registry limit headroom level.tighter c).andThen fun x c' ↦
        match level.operator? c'.kind with
        | none => .done x c'
        | some o =>
          (parseLevel registry limit headroom level.right c'.advance).andThen fun y c'' ↦
            .done (.mkBinary o c'.current x y) c'' := by
  rw [parseLevel_succ hlevel, ho]

/-! ## Parsers with some headroom -/

/-- The parser that stands at a cursor and may enter so many more levels. -/
def withHeadroom (registry : Registry) (limit headroom : Nat) (cursor : TokenCursor) : Parser :=
  ⟨registry, limit, cursor, limit - headroom⟩

theorem eq_withHeadroom {p : Parser} (hdepth : p.depth ≤ p.limit) :
    p = withHeadroom p.registry p.limit p.headroom p.cursor := by
  obtain ⟨registry, limit, cursor, depth⟩ := p
  have hheadroom : ((limit - depth).toNat : Int) = limit - depth :=
    Int.toNat_of_nonneg (Int.sub_nonneg_of_le hdepth)
  rw [withHeadroom, headroom, hheadroom, Int.sub_sub_self]

theorem ofTokens_eq_withHeadroom (tokens : List Token) :
    ofTokens registry limit tokens = withHeadroom registry limit limit (.start tokens) := by
  rw [ofTokens, withHeadroom, Int.sub_self]

@[simp] theorem headroom_withHeadroom (c : TokenCursor) :
    (withHeadroom registry limit headroom c).headroom = headroom := by
  rw [Parser.headroom, withHeadroom, Int.sub_sub_self, Int.toNat_natCast]

end Parser

/-- What a parser answers that had so much headroom at first, and what it is then. -/
def Outcome.settle {α : Type} (registry : Registry) (limit headroom : Nat) :
    Outcome α → Except ParseError α × Parser
  | done value cursor => (.ok value, .withHeadroom registry limit headroom cursor)
  | stop error cursor left => (.error error, .withHeadroom registry limit left cursor)

/-! ## Runs -/

namespace Parsing

open Outcome DecimalFormula.Parser

variable {α β : Type} {registry : Registry} {limit headroom fuel : Nat} {c : TokenCursor}
  {p : Parser}

theorem runOn_get_bind (next : Parser → Parsing α) (p : Parser) :
    (get >>= next).runOn p = (next p).runOn p :=
  rfl

theorem runOn_current_bind (next : Token → Parsing α) (p : Parser) :
    (current >>= next).runOn p = (next p.current).runOn p :=
  rfl

theorem runOn_advance_bind (next : Token → Parsing α) (p : Parser) :
    (advance >>= next).runOn p = (next p.current).runOn p.advance.2 :=
  rfl

theorem runOn_bind (step : Parsing α) (next : α → Parsing β) (p : Parser) :
    (step >>= next).runOn p = match step.runOn p with
      | (.ok x, q) => (next x).runOn q
      | (.error e, q) => (.error e, q) := by
  -- The two monads unfold to this, where the answer of the step is still inspected by `bindCont`.
  change (match step.runOn p with | (answer, q) => (ExceptT.bindCont next answer).run q) = _
  obtain ⟨_ | _, q⟩ := step.runOn p <;> rfl

/-- With some headroom a step does what the function says, wherever it starts. In particular, the
depth is the same behind it if it succeeds. -/
def Follows (registry : Registry) (limit headroom : Nat) (step : Parsing α)
    (run : TokenCursor → Outcome α) : Prop :=
  ∀ c, step.runOn (withHeadroom registry limit headroom c) =
    (run c).settle registry limit headroom

/-- **Sequences.** Whatever the first step starts with, what follows it goes on with the headroom
that the outcome is settled for. -/
theorem runOn_bind_settle {step : Parsing α} {next : α → Parsing β} {outcome : Outcome α}
    {rest : α → TokenCursor → Outcome β} (h : step.runOn p = outcome.settle registry limit headroom)
    (hnext : ∀ x, Follows registry limit headroom (next x) (rest x)) :
    (step >>= next).runOn p = (outcome.andThen rest).settle registry limit headroom := by
  rw [runOn_bind, h]
  cases outcome with
  | done x d => exact hnext x d
  | stop => rfl

theorem expect_follows (kind : TokenKind) :
    Follows registry limit headroom (expect kind) (Parser.expect kind headroom) := by
  intro c
  -- The kind is read from the state, which is a parser that stands at `c`.
  change (if c.kind = kind then advance else unexpected [kind] : Parsing Token).runOn _ = _
  rw [Parser.expect]
  split <;> rfl

variable {argument : Parsing Tree} {run : TokenCursor → Outcome Tree}

theorem moreArguments_follows (h : Follows registry limit headroom argument run) (fuel : Nat) :
    Follows registry limit headroom (moreArguments argument fuel)
      (Parser.moreArguments run fuel) := by
  induction fuel with
  | zero => exact fun c ↦ rfl
  | succ fuel ih =>
    intro c
    rw [moreArguments, runOn_current_bind, Parser.moreArguments]
    change (if c.kind = .comma then _ else _ : Parsing (List Tree)).runOn _ = _
    split
    · rw [runOn_advance_bind]
      exact runOn_bind_settle (h c.advance) fun _ c' ↦ runOn_bind_settle (ih c') fun _ _ ↦ rfl
    · rfl

theorem arguments_follows (h : Follows registry limit headroom argument run) :
    Follows registry limit headroom (arguments argument) (Parser.arguments run) := by
  intro c
  rw [arguments, runOn_current_bind, Parser.arguments]
  change (if c.kind = .rightParen then _ else _ : Parsing (List Tree)).runOn _ = _
  split
  · rfl
  · exact runOn_bind_settle (h c) fun _ c' ↦
      runOn_bind_settle (moreArguments_follows h c'.tokens.length c') fun _ _ ↦ rfl

theorem finishCall_follows (name : Token) (args : List Tree) :
    Follows registry limit headroom (finishCall name args)
      (Parser.finishCall registry headroom name args) := by
  intro c
  rw [finishCall, runOn_current_bind, Parser.finishCall]
  change (if c.kind = .rightParen then _ else _ : Parsing Tree).runOn _ = _
  split
  · change (match registry.arity? name.text with | none => _ | some arity => _ :
      Parsing Tree).runOn _ = _
    cases registry.arity? name.text with
    | none => rfl
    | some arity =>
      dsimp only
      split <;> rfl
  · rfl

theorem primary_follows (h : Follows registry limit headroom argument run) :
    Follows registry limit headroom (primary argument) (Parser.primary registry headroom run) := by
  intro c
  rw [primary, runOn_current_bind, Parser.primary]
  change (match c.kind with
    | .number => _ | .identifier => _ | .function => _ | .leftParen => _ | _ => _ :
      Parsing Tree).runOn _ = _
  cases c.kind with
  | function =>
    refine (runOn_advance_bind _ _).trans ?_
    exact runOn_bind_settle (expect_follows .leftParen c.advance) fun _ c₁ ↦
      runOn_bind_settle (arguments_follows h c₁) fun args ↦ finishCall_follows c.current args
  | leftParen =>
    refine (runOn_advance_bind _ _).trans ?_
    exact runOn_bind_settle (h c.advance) fun _ c' ↦
      runOn_bind_settle (expect_follows .rightParen c') fun _ _ ↦ rfl
  | _ => rfl

theorem production_of_ne {part : Level → Parsing Tree} {level : Level} (h : level ≠ .primary) :
    production part level = operation part level := by
  cases level <;> first | rfl | exact absurd rfl h

/-- A level takes one unit of headroom, and what stands in it has the others. -/
theorem production_follows {part : Level → Parsing Tree}
    (h : ∀ level, Follows registry limit headroom (part level)
      (parseLevel registry limit headroom level)) (level : Level) :
    Follows registry limit headroom (production part level)
      (parseLevel registry limit (headroom + 1) level) := by
  intro c
  by_cases hlevel : level = .primary
  · subst hlevel
    exact primary_follows (h .disjunction) c
  rw [production_of_ne hlevel, operation, runOn_current_bind, parseLevel_succ hlevel]
  change (match level.sign? c.kind with | some operator => _ | none => _ : Parsing Tree).runOn _ = _
  cases level.sign? c.kind with
  | some operator =>
    refine (runOn_advance_bind _ _).trans ?_
    exact runOn_bind_settle (h level c.advance) fun _ _ ↦ rfl
  | none =>
    refine runOn_bind_settle (h level.tighter c) fun left c' ↦ (runOn_current_bind _ _).trans ?_
    change (match level.operator? c'.kind with | none => _ | some operator => _ :
      Parsing Tree).runOn _ = _
    cases level.operator? c'.kind with
    | none => rfl
    | some operator =>
      refine (runOn_advance_bind _ _).trans ?_
      exact runOn_bind_settle (h level.right c'.advance) fun _ _ ↦ rfl

/-! ## Balance -/

theorem runOn_enter (p : Parser) : enter.runOn p =
    if p.limit ≤ p.depth then tooDeep.runOn p else (.ok (), { p with depth := p.depth + 1 }) := by
  change (if p.limit ≤ p.depth then tooDeep else set { p with depth := p.depth + 1 } :
    Parsing Unit).runOn p = _
  split <;> rfl

theorem enter_withHeadroom (c : TokenCursor) :
    enter.runOn (withHeadroom registry limit (headroom + 1) c) =
      (.ok (), withHeadroom registry limit headroom c) := by
  rw [runOn_enter, if_neg (by simp only [withHeadroom]; omega)]
  simp only [withHeadroom, Prod.mk.injEq, Parser.mk.injEq, true_and]
  omega

theorem leave_withHeadroom (c : TokenCursor) :
    leave.runOn (withHeadroom registry limit headroom c) =
      (.ok (), withHeadroom registry limit (headroom + 1) c) := by
  have hdepth : (limit - headroom - 1 : Int) = limit - (headroom + 1 : Nat) := by omega
  rw [withHeadroom, withHeadroom, ← hdepth]
  rfl

/-- **Balance of a level.** The entry takes one unit of headroom. If the step gives back what it was
given, leaving the level gives back that unit. -/
theorem Follows.within {step : Parsing Tree} (h : Follows registry limit headroom step run) :
    Follows registry limit (headroom + 1) step.within run := by
  intro c
  rw [Parsing.within, runOn_bind, enter_withHeadroom]
  dsimp only
  rw [runOn_bind, h c]
  cases run c with
  | done tree d =>
    dsimp only [settle]
    rw [runOn_bind, leave_withHeadroom]
    rfl
  | stop => rfl

/-- **Balance of the levels**, by induction on the headroom. More fuel than headroom makes no
difference. -/
theorem level_follows (hfuel : headroom ≤ fuel) (kind : Level) :
    Follows registry limit headroom (level fuel kind)
      (parseLevel registry limit headroom kind) := by
  induction headroom generalizing fuel kind with
  | zero =>
    intro c
    -- The limit is reached, so whatever the fuel, nothing more is entered.
    have hdeep : tooDeep.runOn (withHeadroom registry limit 0 c) =
        (parseLevel registry limit 0 kind c).settle registry limit 0 := rfl
    cases fuel with
    | zero => exact hdeep
    | succ fuel =>
      rw [level, Parsing.within, runOn_bind, runOn_enter,
        if_pos (by simp [withHeadroom]), ← hdeep]
      rfl
  | succ headroom ih =>
    cases fuel with
    | zero => exact absurd hfuel (Nat.not_succ_le_zero _)
    | succ fuel =>
      exact (production_follows (fun level ↦ ih (Nat.le_of_succ_le_succ hfuel) level) kind).within

/-- Fuel beyond the headroom makes no difference, so that the fuel of a formula is all it needs. -/
theorem level_fuel (hfuel : headroom ≤ fuel) (kind : Level) (c : TokenCursor) :
    (level fuel kind).runOn (withHeadroom registry limit headroom c) =
      (level headroom kind).runOn (withHeadroom registry limit headroom c) := by
  rw [level_follows hfuel, level_follows (Nat.le_refl _)]

/-- A level that is read is left with the depth it was entered with. -/
theorem depth_eq_of_level_eq_ok {tree : Tree} {q : Parser} {kind : Level}
    (h : (level headroom kind).runOn (withHeadroom registry limit headroom c) = (.ok tree, q)) :
    q.depth = (withHeadroom registry limit headroom c).depth := by
  rw [level_follows (Nat.le_refl _)] at h
  cases hrun : parseLevel registry limit headroom kind c with
  | done x d =>
    rw [hrun] at h
    cases h
    rfl
  | stop e d left =>
    rw [hrun] at h
    cases h

theorem formula_follows : Follows registry limit headroom formula
    (wholeFormula registry limit headroom) := by
  intro c
  rw [Parsing.formula, runOn_get_bind, headroom_withHeadroom, wholeFormula]
  refine runOn_bind_settle (level_follows (Nat.le_refl _) .disjunction c) fun tree d ↦ ?_
  change (if d.current.isEnd then _ else _ : Parsing Tree).runOn _ = _
  split <;> rfl

end Parsing

/-! ## What a parser does -/

namespace Parser

variable {p : Parser}

theorem parse_eq (hdepth : p.depth ≤ p.limit) : p.parse =
    (wholeFormula p.registry p.limit p.headroom p.cursor).settle p.registry p.limit p.headroom :=
  calc p.parse = (withHeadroom p.registry p.limit p.headroom p.cursor).parse :=
        congrArg parse (eq_withHeadroom hdepth)
    _ = _ := Parsing.formula_follows p.cursor

theorem parse_ofTokens (registry : Registry) (limit : Nat) (tokens : List Token) :
    (ofTokens registry limit tokens).parse =
      (wholeFormula registry limit limit (.start tokens)).settle registry limit limit := by
  rw [ofTokens_eq_withHeadroom]
  exact Parsing.formula_follows _

end Parser

end DecimalFormula
