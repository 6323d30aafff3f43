import DecimalFormula.Proofs.Parsing.Completeness

/-!
# How much headroom a run needs

Headroom decides whether a run may go on and nothing else: no step looks at it but the entry of a
level. So every run of the parser has a threshold (`Outcome.Threshold`). With less headroom it stops
for want of it; with as much or more it comes to one and the same outcome, be that a failure.

## The rules

Thresholds are put together as runs are. A step that enters no level needs nothing, a sequence needs
what the more demanding of its parts needs, and the entry of a level needs one more than what it
leads to. These rules bound the threshold of every run, by eight levels for each token ahead
(`Parser.parseLevel_hasThreshold`), and count it exactly where it is known what the run meets.
-/

namespace DecimalFormula

/-! ## Thresholds -/

namespace Outcome

variable {α β : Type}

/-- An outcome but for the headroom that is left. -/
def withoutHeadroom : Outcome α → Outcome α
  | done value cursor => done value cursor
  | stop error cursor _ => stop error cursor 0

/-- Whether a run under a limit stopped for want of headroom. -/
def IsTooDeep (limit : Nat) : Outcome α → Prop
  | done .. => False
  | stop error _ _ => error.cause = .tooDeep limit

theorem isTooDeep_withoutHeadroom {limit : Nat} {outcome : Outcome α} :
    outcome.withoutHeadroom.IsTooDeep limit ↔ outcome.IsTooDeep limit := by
  cases outcome <;> exact Iff.rfl

theorem IsTooDeep.andThen {limit : Nat} {outcome : Outcome α} {next : α → TokenCursor → Outcome β}
    (h : outcome.IsTooDeep limit) : (outcome.andThen next).IsTooDeep limit := by
  cases outcome with
  | done => exact h.elim
  | stop => exact h

/-- Under every limit, a run with less headroom than the threshold stops for want of it. One with as
much or more comes to the given outcome, which is another. -/
structure Threshold (run : Nat → Nat → Outcome α) (n : Nat) (outcome : Outcome α) : Prop where
  /-- With less headroom there is too little. -/
  below : ∀ limit headroom, headroom < n → (run limit headroom).IsTooDeep limit
  /-- With as much the outcome is settled. -/
  above : ∀ limit headroom, n ≤ headroom → (run limit headroom).withoutHeadroom = outcome
  /-- That outcome does not ask for more. -/
  not_isTooDeep : ∀ limit, ¬ outcome.IsTooDeep limit

/-- Some threshold of a run is at most `bound`. -/
def HasThreshold (run : Nat → Nat → Outcome α) (bound : Nat) : Prop :=
  ∃ n outcome, n ≤ bound ∧ Threshold run n outcome

variable {run run' : Nat → Nat → Outcome α} {next : Nat → Nat → α → TokenCursor → Outcome β}
  {n m bound limit headroom : Nat} {x : α} {e : ParseError} {c : TokenCursor} {outcome : Outcome β}

namespace Threshold

theorem eq_done (h : Threshold run n (done x c)) (hn : n ≤ headroom) :
    run limit headroom = done x c := by
  have habove := h.above limit headroom hn
  cases hrun : run limit headroom with
  | done => rwa [hrun] at habove
  | stop => rw [hrun] at habove; cases habove

theorem exists_eq_stop (h : Threshold run n (stop e c 0)) (limit : Nat) (hn : n ≤ headroom) :
    ∃ left, run limit headroom = stop e c left := by
  have habove := h.above limit headroom hn
  cases hrun : run limit headroom with
  | done => rw [hrun] at habove; cases habove
  | stop e' c' left => rw [hrun] at habove; cases habove; exact ⟨left, rfl⟩

theorem lt_of_isTooDeep {outcome : Outcome α} (h : Threshold run n outcome)
    (hdeep : (run limit headroom).IsTooDeep limit) : headroom < n := by
  by_contra hlt
  rw [← isTooDeep_withoutHeadroom, h.above limit headroom (Nat.not_lt.mp hlt)] at hdeep
  exact h.not_isTooDeep limit hdeep

/-! ### The rules -/

theorem ofDone (x : α) (c : TokenCursor) : Threshold (fun _ _ ↦ done x c) 0 (done x c) :=
  ⟨fun _ _ h ↦ absurd h (Nat.not_lt_zero _), fun _ _ _ ↦ rfl, fun _ ↦ id⟩

theorem ofFail {cause : ParseCause} (span : Span) (c : TokenCursor)
    (hcause : ∀ limit, cause ≠ .tooDeep limit) :
    Threshold (fun _ headroom ↦ Parser.fail (α := α) cause span headroom c) 0
      (stop ⟨cause, span, c.index⟩ c 0) :=
  ⟨fun _ _ h ↦ absurd h (Nat.not_lt_zero _), fun _ _ _ ↦ rfl, hcause⟩

/-- **Sequences.** What follows a part that is read adds a demand of its own. -/
theorem andThen (h : Threshold run n (done x c))
    (hnext : Threshold (fun limit headroom ↦ next limit headroom x c) m outcome) :
    Threshold (fun limit headroom ↦ (run limit headroom).andThen (next limit headroom)) (max n m)
      outcome := by
  refine ⟨fun limit headroom hlt ↦ ?_, fun limit headroom hle ↦ ?_, hnext.not_isTooDeep⟩
  · by_cases hn : headroom < n
    · exact (h.below limit headroom hn).andThen
    · rw [h.eq_done (Nat.not_lt.mp hn), andThen_done]
      exact hnext.below limit headroom (by omega)
  · rw [h.eq_done (Nat.le_trans (Nat.le_max_left n m) hle), andThen_done]
    exact hnext.above limit headroom (Nat.le_trans (Nat.le_max_right n m) hle)

/-- What follows without entering a level adds nothing. -/
theorem andThen_of_done {y : β} {c' : TokenCursor} (h : Threshold run n (done x c))
    (hnext : ∀ limit headroom, next limit headroom x c = done y c') :
    Threshold (fun limit headroom ↦ (run limit headroom).andThen (next limit headroom)) n
      (done y c') := by
  have hdone : Threshold (fun limit headroom ↦ next limit headroom x c) 0 (done y c') := by
    simp only [hnext]
    exact .ofDone y c'
  have hmax := h.andThen hdone
  rwa [Nat.max_zero] at hmax

/-- Nothing follows a part that stops. -/
theorem andThen_of_stop (h : Threshold run n (stop e c 0)) :
    Threshold (fun limit headroom ↦ (run limit headroom).andThen (next limit headroom)) n
      (stop e c 0) := by
  refine ⟨fun limit headroom hlt ↦ (h.below limit headroom hlt).andThen,
    fun limit headroom hle ↦ ?_, h.not_isTooDeep⟩
  obtain ⟨left, hrun⟩ := h.exists_eq_stop limit hle
  rw [hrun]
  rfl

/-- **Levels.** The entry of a level takes one unit of headroom. -/
theorem enter {outcome : Outcome α} (hzero : ∀ limit, (run limit 0).IsTooDeep limit)
    (hsucc : ∀ limit headroom, run limit (headroom + 1) = run' limit headroom)
    (h : Threshold run' n outcome) : Threshold run (n + 1) outcome := by
  refine ⟨fun limit headroom hlt ↦ ?_, fun limit headroom hle ↦ ?_, h.not_isTooDeep⟩
  · cases headroom with
    | zero => exact hzero limit
    | succ headroom =>
      rw [hsucc]
      exact h.below limit headroom (Nat.lt_of_succ_lt_succ hlt)
  · obtain ⟨headroom, rfl⟩ : ∃ k, headroom = k + 1 := ⟨headroom - 1, by omega⟩
    rw [hsucc]
    exact h.above limit headroom (Nat.le_of_succ_le_succ hle)

end Threshold

namespace HasThreshold

theorem ofDone (x : α) (c : TokenCursor) (bound : Nat) :
    HasThreshold (fun _ _ ↦ done x c) bound :=
  ⟨0, _, Nat.zero_le bound, .ofDone x c⟩

theorem ofFail {cause : ParseCause} (span : Span) (c : TokenCursor) (bound : Nat)
    (hcause : ∀ limit, cause ≠ .tooDeep limit) :
    HasThreshold (fun _ headroom ↦ Parser.fail (α := α) cause span headroom c) bound :=
  ⟨0, _, Nat.zero_le bound, .ofFail span c hcause⟩

/-- What follows is only ever asked behind a part that was read with headroom enough. -/
theorem andThen (h : HasThreshold run bound)
    (hnext : ∀ x c, (∀ limit, run limit bound = done x c) →
      HasThreshold (fun limit headroom ↦ next limit headroom x c) bound) :
    HasThreshold (fun limit headroom ↦ (run limit headroom).andThen (next limit headroom))
      bound := by
  obtain ⟨n, first, hn, hfirst⟩ := h
  cases first with
  | done x c =>
    obtain ⟨m, outcome, hm, houtcome⟩ := hnext x c fun limit ↦ hfirst.eq_done hn
    exact ⟨max n m, outcome, Nat.max_le.mpr ⟨hn, hm⟩, hfirst.andThen houtcome⟩
  | stop e c left =>
    -- The threshold names an outcome without headroom, so nothing is left in it.
    obtain rfl : left = 0 := by
      have habove := hfirst.above 0 n (Nat.le_refl n)
      cases hrun : run 0 n with
      | done => rw [hrun] at habove; cases habove
      | stop => rw [hrun] at habove; cases habove; rfl
    exact ⟨n, _, hn, hfirst.andThen_of_stop⟩

theorem enter (hzero : ∀ limit, (run limit 0).IsTooDeep limit)
    (hsucc : ∀ limit headroom, run limit (headroom + 1) = run' limit headroom)
    (h : HasThreshold run' bound) : HasThreshold run (bound + 1) := by
  obtain ⟨n, outcome, hn, hrun⟩ := h
  exact ⟨n + 1, outcome, Nat.succ_le_succ hn, hrun.enter hzero hsucc⟩

end HasThreshold

end Outcome

theorem TokenCursor.Passes.length_tokens {c c' : TokenCursor} {ts : List Token}
    (h : c.Passes ts c') : c.tokens.length = ts.length + c'.tokens.length := by
  rw [h.tokens_eq, List.length_append]

/-! ## The functions of the parser, one by one -/

namespace Parser

open Outcome

variable {registry : Registry} {bound limit headroom n m : Nat} {c c' : TokenCursor} {x y : Tree}

theorem mismatch_ne_tooDeep (c : TokenCursor) (expected : List TokenKind) (limit : Nat) :
    mismatch c expected ≠ .tooDeep limit := by
  rw [mismatch]
  split <;> exact fun h ↦ by cases h

theorem unexpected_hasThreshold {α : Type} (expected : List TokenKind) (c : TokenCursor)
    (bound : Nat) :
    HasThreshold (fun _ headroom ↦ unexpected (α := α) expected headroom c) bound :=
  .ofFail _ c bound (mismatch_ne_tooDeep c expected)

theorem expect_hasThreshold (kind : TokenKind) (c : TokenCursor) (bound : Nat) :
    HasThreshold (fun _ headroom ↦ expect kind headroom c) bound := by
  by_cases hkind : c.kind = kind
  · simp only [expect, if_pos hkind]
    exact .ofDone _ _ bound
  · simp only [expect, if_neg hkind]
    exact unexpected_hasThreshold [kind] c bound

theorem finishCall_hasThreshold (registry : Registry) (name : Token) (args : List Tree)
    (c : TokenCursor) (bound : Nat) :
    HasThreshold (fun _ headroom ↦ finishCall registry headroom name args c) bound := by
  by_cases hclose : c.kind = .rightParen
  · simp only [finishCall, if_pos hclose]
    cases registry.arity? name.text with
    | none => exact .ofFail _ c bound fun _ h ↦ by cases h
    | some arity =>
      by_cases haccepts : arity.accepts args.length = true
      · simp only [haccepts, if_true]
        exact .ofDone _ _ bound
      · simp only [haccepts]
        exact .ofFail _ c bound fun _ h ↦ by cases h
  · simp only [finishCall, if_neg hclose]
    exact unexpected_hasThreshold _ c bound

/-- What the lemmas on calls and parentheses need to know of the function for formulas: what it
passes, and that eight levels for each token ahead are enough. -/
structure Measured (registry : Registry) (bound : Nat)
    (formula : Nat → Nat → TokenCursor → Outcome Tree) : Prop where
  /-- A formula is read from tokens that are passed. -/
  spec : ∀ limit headroom, FormulaSpec registry limit headroom (formula limit headroom)
  /-- It has a threshold. -/
  hasThreshold : ∀ c : TokenCursor, c.Closed → 8 * c.tokens.length ≤ bound →
    HasThreshold (fun limit headroom ↦ formula limit headroom c) bound

/-- What follows a formula stands at a cursor with no more tokens ahead. -/
theorem Measured.andThen {β : Type} {formula : Nat → Nat → TokenCursor → Outcome Tree}
    {next : Nat → Nat → Tree → TokenCursor → Outcome β} (h : Measured registry bound formula)
    (hc : c.Closed) (hlength : 8 * c.tokens.length ≤ bound)
    (hnext : ∀ x c', c'.Closed → 8 * c'.tokens.length ≤ bound →
      HasThreshold (fun limit headroom ↦ next limit headroom x c') bound) :
    HasThreshold (fun limit headroom ↦ (formula limit headroom c).andThen (next limit headroom))
      bound := by
  refine (h.hasThreshold c hc hlength).andThen fun x c' hrun ↦ ?_
  have hmeets := h.spec 0 bound c hc
  rw [hrun 0] at hmeets
  obtain ⟨ts, hpass, -⟩ := hmeets
  have hle := hpass.length_tokens
  exact hnext x c' (hpass.closed hc) (by omega)

theorem moreArguments_hasThreshold {formula : Nat → Nat → TokenCursor → Outcome Tree}
    (hformula : Measured registry bound formula) (fuel : Nat) (hc : c.Closed)
    (hlength : 8 * c.tokens.length ≤ bound) :
    HasThreshold (fun limit headroom ↦ moreArguments (formula limit headroom) fuel c) bound := by
  induction fuel generalizing c with
  | zero => exact .ofDone [] c bound
  | succ fuel ih =>
    by_cases hcomma : c.kind = .comma
    · have hpass := hc.passes_advance (by rw [hcomma]; decide)
      have hadvance := hpass.length_tokens
      simp only [moreArguments, if_pos hcomma]
      refine hformula.andThen (hpass.closed hc) (by omega) fun x c' hc' hlength' ↦ ?_
      exact (ih hc' hlength').andThen fun xs c'' _ ↦ .ofDone _ c'' bound
    · simp only [moreArguments, if_neg hcomma]
      exact .ofDone [] c bound

theorem arguments_hasThreshold {formula : Nat → Nat → TokenCursor → Outcome Tree}
    (hformula : Measured registry bound formula) (hc : c.Closed)
    (hlength : 8 * c.tokens.length ≤ bound) :
    HasThreshold (fun limit headroom ↦ arguments (formula limit headroom) c) bound := by
  by_cases hclose : c.kind = .rightParen
  · simp only [arguments, if_pos hclose]
    exact .ofDone [] c bound
  · simp only [arguments, if_neg hclose]
    refine hformula.andThen hc hlength fun x c' hc' hlength' ↦ ?_
    refine (moreArguments_hasThreshold hformula _ hc' hlength').andThen fun xs c'' _ ↦ ?_
    exact .ofDone _ c'' bound

theorem primary_hasThreshold {formula : Nat → Nat → TokenCursor → Outcome Tree}
    (hformula : Measured registry bound formula) (hc : c.Closed)
    (hlength : 8 * c.tokens.length ≤ bound + 8) :
    HasThreshold (fun limit headroom ↦ primary registry headroom (formula limit headroom) c)
      bound := by
  -- The token that opens a call or a parenthesis pays for the eight levels inside.
  have hadvance : ∀ {kind : TokenKind}, c.kind = kind → kind ≠ .endOfInput →
      c.advance.Closed ∧ 8 * c.advance.tokens.length ≤ bound := by
    intro kind hkind hne
    have hpass := hc.passes_advance (hkind ▸ hne)
    have hstep := hpass.length_tokens
    rw [List.length_singleton] at hstep
    exact ⟨hpass.closed hc, by omega⟩
  simp only [primary]
  split
  · exact .ofDone _ _ bound
  · exact .ofDone _ _ bound
  · next hkind =>
    obtain ⟨hclosed, hbehind⟩ := hadvance hkind (by decide)
    refine (expect_hasThreshold .leftParen c.advance bound).andThen fun t c₁ hopening ↦ ?_
    have hmeets : (expect .leftParen bound c.advance).Meets registry 0 c.advance _ :=
      expect_meets (by decide) hclosed
    rw [hopening 0] at hmeets
    obtain ⟨ts, hpass, -⟩ := hmeets
    have hle := hpass.length_tokens
    refine (arguments_hasThreshold hformula (hpass.closed hclosed) (by omega)).andThen ?_
    exact fun args c₂ _ ↦ finishCall_hasThreshold registry c.current args c₂ bound
  · next hkind =>
    obtain ⟨hclosed, hbehind⟩ := hadvance hkind (by decide)
    refine hformula.andThen hclosed hbehind fun x c₁ _ _ ↦ ?_
    exact (expect_hasThreshold .rightParen c₁ bound).andThen fun _ c₂ _ ↦ .ofDone x c₂ bound
  · exact unexpected_hasThreshold _ c bound

theorem parseLevel_zero_isTooDeep (registry : Registry) (limit : Nat) (level : Level)
    (c : TokenCursor) : (parseLevel registry limit 0 level c).IsTooDeep limit := by
  rw [parseLevel]
  rfl

/-- **Every run has a threshold**, at most eight levels for each token ahead, less the levels above
the one it starts from. -/
theorem parseLevel_hasThreshold (level : Level) (hc : c.Closed)
    (hsign : level = .primary → Level.power.sign? c.kind = none)
    (hlength : 8 * c.tokens.length ≤ bound + level.rank) :
    HasThreshold (fun limit headroom ↦ parseLevel registry limit headroom level c) bound := by
  -- By induction on the bound. A token that is passed makes room for eight levels, and a step to a
  -- tighter level takes one of the levels that the rank has in reserve.
  induction bound generalizing c level with
  | zero =>
    have hrank := level.rank_le
    have hpos : 0 < c.tokens.length := Nat.succ_pos _
    omega
  | succ bound ih =>
    have hzero (limit : Nat) := parseLevel_zero_isTooDeep registry limit level c
    by_cases hlevel : level = .primary
    · subst hlevel
      have hformula : Measured registry bound (parseLevel registry · · .disjunction) :=
        ⟨fun limit headroom c' hc' ↦ parseLevel_meets .disjunction hc' (by simp),
          fun c' hc' hlength' ↦ ih .disjunction hc' (by simp) hlength'⟩
      have hprimary : Level.primary.rank = 7 := rfl
      exact .enter hzero (fun _ _ ↦ parseLevel_primary)
        (primary_hasThreshold hformula hc (by omega))
    refine .enter hzero (fun _ _ ↦ parseLevel_succ hlevel) ?_
    cases ho : level.sign? c.kind with
    | some o =>
      have hpass := hc.passes_advance (Level.ne_endOfInput_of_sign? ho)
      have hstep := hpass.length_tokens
      rw [List.length_singleton] at hstep
      refine (ih level (hpass.closed hc) (absurd · hlevel) (by omega)).andThen fun x c' _ ↦ ?_
      exact .ofDone _ c' bound
    | none =>
      have hrank := Level.rank_tighter hlevel
      have htighter := Level.sign?_power_eq_none hlevel ho
      refine (ih level.tighter hc htighter (by omega)).andThen fun x c' hrun ↦ ?_
      have hmeets : (parseLevel registry 0 bound level.tighter c).Meets registry 0 c _ :=
        parseLevel_meets level.tighter hc htighter
      rw [hrun 0] at hmeets
      obtain ⟨ts, hx, -⟩ := hmeets
      cases ho' : level.operator? c'.kind with
      | none => exact .ofDone x c' bound
      | some o =>
        have hpass := hx.trans
          ((hx.closed hc).passes_advance (Level.ne_endOfInput_of_operator? ho'))
        have hstep := hpass.length_tokens
        rw [List.length_append, List.length_singleton] at hstep
        have hright := level.rank_le_rank_right
        refine (ih level.right (hpass.closed hc) (absurd · (Level.right_ne_primary hlevel))
          (by omega)).andThen fun y c'' _ ↦ ?_
        exact .ofDone _ c'' bound

/-- From any level the way down to a primary takes all the levels between. -/
theorem parseLevel_isTooDeep {level : Level} (h : headroom + level.rank < 8) :
    (parseLevel registry limit headroom level c).IsTooDeep limit := by
  induction headroom generalizing level c with
  | zero => exact parseLevel_zero_isTooDeep registry limit level c
  | succ headroom ih =>
    have hlevel : level ≠ .primary := by
      rintro rfl
      have hprimary : Level.primary.rank = 7 := rfl
      omega
    rw [parseLevel_succ hlevel]
    cases level.sign? c.kind with
    | some o => exact (ih (by omega)).andThen
    | none =>
      have hrank := Level.rank_tighter hlevel
      exact (ih (by omega)).andThen

/-! ## Thresholds of known runs

A run that is known to succeed has its threshold counted along the way it takes. -/

/-- Between two cursors stands a formula of a level, which takes exactly so many levels to read. -/
def Costs (registry : Registry) (level : Level) (c : TokenCursor) (n : Nat) (c' : TokenCursor) :
    Prop :=
  ∃ x, Threshold (fun limit headroom ↦ parseLevel registry limit headroom level c) n (.done x c')

namespace Costs

variable {level looser : Level} {c'' : TokenCursor}

theorem number (hkind : c.kind = .number) : Costs registry .primary c 1 c.advance := by
  refine ⟨.leaf .number c.current, ?_⟩
  refine .enter (fun limit ↦ parseLevel_zero_isTooDeep registry limit _ c)
    (fun _ _ ↦ parseLevel_primary) ?_
  simp only [primary, hkind]
  exact .ofDone _ _

theorem parenthesized (hopening : c.kind = .leftParen)
    (h : Costs registry .disjunction c.advance n c') (hclose : c'.kind = .rightParen) :
    Costs registry .primary c (n + 1) c'.advance := by
  obtain ⟨x, hx⟩ := h
  refine ⟨x, ?_⟩
  refine .enter (fun limit ↦ parseLevel_zero_isTooDeep registry limit _ c)
    (fun _ _ ↦ parseLevel_primary) ?_
  simp only [primary, hopening]
  refine hx.andThen_of_done fun limit headroom ↦ ?_
  rw [expect, if_pos hclose, andThen_done]

theorem sign {o : UnaryOp} (ho : level.sign? c.kind = some o)
    (h : Costs registry level c.advance n c') : Costs registry level c (n + 1) c' := by
  obtain ⟨x, hx⟩ := h
  refine ⟨.mkUnary o c.current x, ?_⟩
  refine .enter (fun limit ↦ parseLevel_zero_isTooDeep registry limit _ c)
    (fun _ _ ↦ parseLevel_succ (Level.ne_primary_of_sign? ho)) ?_
  simp only [ho]
  exact hx.andThen_of_done fun _ _ ↦ rfl

theorem tighter (hlevel : level ≠ .primary) (hsign : level.sign? c.kind = none)
    (h : Costs registry level.tighter c n c') (hends : level.operator? c'.kind = none) :
    Costs registry level c (n + 1) c' := by
  obtain ⟨x, hx⟩ := h
  refine ⟨x, ?_⟩
  refine .enter (fun limit ↦ parseLevel_zero_isTooDeep registry limit _ c)
    (fun _ _ ↦ parseLevel_succ hlevel) ?_
  simp only [hsign]
  refine hx.andThen_of_done fun limit headroom ↦ ?_
  rw [hends]

theorem join {o : BinaryOp} (hsign : level.sign? c.kind = none)
    (hleft : Costs registry level.tighter c n c') (ho : level.operator? c'.kind = some o)
    (hright : Costs registry level.right c'.advance m c'') :
    Costs registry level c (max n m + 1) c'' := by
  obtain ⟨x, hx⟩ := hleft
  obtain ⟨y, hy⟩ := hright
  refine ⟨.mkBinary o c'.current x y, ?_⟩
  refine .enter (fun limit ↦ parseLevel_zero_isTooDeep registry limit _ c)
    (fun _ _ ↦ parseLevel_succ (Level.ne_primary_of_operator? ho)) ?_
  simp only [hsign]
  refine hx.andThen ?_
  simp only [ho]
  exact hy.andThen_of_done fun _ _ ↦ rfl

/-- A formula of a tighter level is one of a looser level if no sign of a level between starts it
and no operator of these levels follows it. It costs one more for every level between. -/
theorem looser_of_rank_le (h : Costs registry level c n c') (hrank : looser.rank ≤ level.rank)
    (hstart : level.CanStart c.kind) (hends : looser.EndsBefore c'.kind) :
    Costs registry looser c (n + (level.rank - looser.rank)) c' := by
  induction hd : level.rank - looser.rank generalizing looser with
  | zero =>
    obtain rfl := Level.eq_of_rank_eq (Nat.le_antisymm hrank (Nat.sub_eq_zero_iff_le.mp hd))
    exact h
  | succ d ih =>
    have hlevel := level.rank_le
    have hlooser : looser ≠ .primary := by
      rintro rfl
      have hprimary : Level.primary.rank = 7 := rfl
      omega
    have htighter := Level.rank_tighter hlooser
    have hends' : looser.tighter.EndsBefore c'.kind := hends.of_rank_le (by omega)
    refine tighter hlooser ?_ (ih (by omega) hends' (by omega)) hends.operator?_eq_none
    refine Level.sign?_eq_none_of_ne fun o ho heq ↦ ?_
    have hle := hstart.rank_le ho
    rw [heq] at hle
    omega

end Costs

end Parser

end DecimalFormula
