import DecimalFormula.Proofs.Parsing.Limit

/-!
# What a parser asks the registry

A parser asks the registry for one thing, the number of arguments of a function whose name it has
just passed. Registries that agree on the function names among some tokens (`Registry.AgreeOn`)
therefore lead to one and the same run over them, failures included (`Tree.ofTokens_congr`).

The runs stay together because what the first one passes is known: every step starts at a cursor
that has no other tokens ahead than the cursor at the start (`Outcome.Meets.andThen_congr`).
-/

namespace DecimalFormula

variable {registry registry' : Registry} {limit headroom n : Nat} {c c' : TokenCursor}
  {ts tokens : List Token}

/-- Two registries know the functions that some tokens name for the same numbers of arguments. -/
def Registry.AgreeOn (registry registry' : Registry) (tokens : List Token) : Prop :=
  ∀ t ∈ tokens, t.kind = .function → registry'.arity? t.text = registry.arity? t.text

theorem Registry.AgreeOn.of_passes (h : registry.AgreeOn registry' c.tokens)
    (hpass : c.Passes ts c') : registry.AgreeOn registry' c'.tokens := by
  intro t ht
  refine h t ?_
  rw [hpass.tokens_eq]
  exact List.mem_append_right ts ht

theorem Outcome.Meets.andThen_congr {α β : Type} {outcome : Outcome α}
    {next next' : α → TokenCursor → Outcome β} {P : List Token → α → TokenCursor → Prop}
    (h : outcome.Meets registry limit c P)
    (hnext : ∀ ts x c', c.Passes ts c' → next' x c' = next x c') :
    outcome.andThen next' = outcome.andThen next := by
  cases outcome with
  | done x c' =>
    obtain ⟨ts, hpass, -⟩ := h
    exact hnext ts x c' hpass
  | stop => rfl

namespace Parser

/-! ## The functions of the parser, one by one -/

/-- What the lemmas on calls and parentheses need to know of two functions for formulas: what the
first one passes, and that the second one does the same where the registries agree. -/
structure Parallel (registry registry' : Registry) (limit n : Nat)
    (formula formula' : TokenCursor → Outcome Tree) : Prop where
  /-- A formula is read from tokens that are passed. -/
  spec : FormulaSpec registry limit n formula
  /-- Both read the same formula. -/
  eq : ∀ c : TokenCursor, c.Closed → registry.AgreeOn registry' c.tokens → formula' c = formula c

variable {formula formula' : TokenCursor → Outcome Tree}

theorem moreArguments_congr (h : Parallel registry registry' limit n formula formula') (fuel : Nat)
    (hc : c.Closed) (hagree : registry.AgreeOn registry' c.tokens) :
    moreArguments formula' fuel c = moreArguments formula fuel c := by
  induction fuel generalizing c with
  | zero => rfl
  | succ fuel ih =>
    rw [moreArguments, moreArguments]
    split
    · next hcomma =>
      have hpass := hc.passes_advance (by rw [hcomma]; decide)
      have hclosed := hpass.closed hc
      have hahead := hagree.of_passes hpass
      rw [h.eq _ hclosed hahead]
      refine (h.spec _ hclosed).andThen_congr fun ts x c' hx ↦ ?_
      rw [ih (hx.closed hclosed) (hahead.of_passes hx)]
    · rfl

theorem arguments_congr (h : Parallel registry registry' limit n formula formula') (hc : c.Closed)
    (hagree : registry.AgreeOn registry' c.tokens) :
    arguments formula' c = arguments formula c := by
  rw [arguments, arguments]
  split
  · rfl
  · rw [h.eq c hc hagree]
    refine (h.spec c hc).andThen_congr fun ts x c' hx ↦ ?_
    rw [moreArguments_congr h _ (hx.closed hc) (hagree.of_passes hx)]

theorem finishCall_congr {name : Token} (h : registry'.arity? name.text = registry.arity? name.text)
    (args : List Tree) (c : TokenCursor) :
    finishCall registry' headroom name args c = finishCall registry headroom name args c := by
  rw [finishCall, finishCall, h]

theorem primary_congr (h : Parallel registry registry' limit n formula formula') (hc : c.Closed)
    (hagree : registry.AgreeOn registry' c.tokens) :
    primary registry' headroom formula' c = primary registry headroom formula c := by
  rw [primary, primary]
  split
  · rfl
  · rfl
  · next hkind =>
    have hname := hagree c.current List.mem_cons_self hkind
    have hpass := hc.passes_advance (by rw [hkind]; decide)
    have hclosed := hpass.closed hc
    have hopening : (expect .leftParen headroom c.advance).Meets registry limit c.advance _ :=
      expect_meets (by decide) hclosed
    refine hopening.andThen_congr fun ts _ c₁ hparen ↦ ?_
    rw [arguments_congr h (hparen.closed hclosed) ((hagree.of_passes hpass).of_passes hparen)]
    congr 1
    funext args c₂
    exact finishCall_congr hname args c₂
  · next hkind =>
    have hpass := hc.passes_advance (by rw [hkind]; decide)
    rw [h.eq _ (hpass.closed hc) (hagree.of_passes hpass)]
  · rfl

/-- By induction along the run. Only the ends of calls ask the registry. -/
theorem parseLevel_congr (level : Level) (hc : c.Closed)
    (hsign : level = .primary → Level.power.sign? c.kind = none)
    (hagree : registry.AgreeOn registry' c.tokens) :
    parseLevel registry' limit headroom level c = parseLevel registry limit headroom level c := by
  induction headroom, level, c, hc, hsign using inductOnLevels with
  | exhausted level c => rw [parseLevel, parseLevel]
  | primary headroom c hc hsign ih =>
    have hformula : Parallel registry registry' limit headroom
        (parseLevel registry limit headroom .disjunction)
        (parseLevel registry' limit headroom .disjunction) :=
      ⟨fun c' hc' ↦ parseLevel_meets .disjunction hc' (by simp), ih⟩
    rw [parseLevel_primary, parseLevel_primary]
    exact primary_congr hformula hc hagree
  | sign headroom level c hc hsign hlevel o ho hpass ih =>
    rw [parseLevel_of_sign hlevel ho, parseLevel_of_sign hlevel ho, ih (hagree.of_passes hpass)]
  | operand headroom level c hc hsign hlevel hnone ih ihright =>
    rw [parseLevel_of_operand hlevel hnone, parseLevel_of_operand hlevel hnone, ih hagree]
    have hleft : (parseLevel registry limit headroom level.tighter c).Meets registry limit c _ :=
      parseLevel_meets level.tighter hc (Level.sign?_power_eq_none hlevel hnone)
    refine hleft.andThen_congr fun ts x c' hx ↦ ?_
    cases ho : level.operator? c'.kind with
    | none => rfl
    | some o =>
      obtain ⟨hpass, hright⟩ := ihright ts c' o hx ho
      dsimp only
      rw [hright (hagree.of_passes hpass)]

end Parser

/-! ## Whole formulas -/

theorem Tree.ofTokens_congr (hagree : registry.AgreeOn registry' tokens) (limit : Nat) :
    ofTokens registry' limit tokens = ofTokens registry limit tokens := by
  have hclosed : registry.AgreeOn registry' (TokenCursor.start tokens).tokens := by
    rw [TokenCursor.tokens_start]
    intro t ht hkind
    refine hagree t ?_ hkind
    -- An end of input that was added is no function name.
    rw [TokenCursor.closed] at ht
    cases hlast : tokens.getLast? with
    | none =>
      rw [hlast] at ht
      rw [List.mem_singleton.mp ht] at hkind
      cases hkind
    | some last =>
      rw [hlast] at ht
      dsimp only at ht
      split at ht
      · exact ht
      · refine (List.mem_append.mp ht).resolve_right fun ht ↦ ?_
        rw [List.mem_singleton.mp ht] at hkind
        cases hkind
  rw [ofTokens_eq_answer, ofTokens_eq_answer,
    Parser.parseLevel_congr .disjunction (TokenCursor.closed_start tokens) (by simp) hclosed]

end DecimalFormula
