import DecimalFormula.Proofs.Grammar.Positions
import DecimalFormula.Proofs.Parsing.Viability

/-!
# What an error names in place of a missing operand

Where an operand is missing, a fresh parser names the same six kinds of token, whatever it was about
to read: they are what a power starts with. The grammar lets them all stand there, and no others but
two. Where a formula of its own may start, or the operand of a logical operator, so may a negation,
and the parenthesis of a call can be closed at once. So the list is complete but for the `!`, and in
front of arguments for the parenthesis, and it is exact where neither of the two can stand
(`Tree.operand_alternatives`).

That a run complains about an operand where one is due, and only there, is an invariant of the run,
told by the positions that the tokens lead through (`Outcome.StopsAt`). A part that stops leads from
the position where it was started to the one where it stops.
-/

namespace DecimalFormula

variable {registry : Registry} {limit headroom n : Nat} {c c' d : TokenCursor}
  {formula : TokenCursor → Outcome Tree} {ts before : List Token} {level : Level}
  {sort sort' : List Token → Prop} {p p' q : Position} {kinds : List TokenKind}

/-- The kinds of token that an error names in place of one that is missing. -/
def ParseCause.alternatives? : ParseCause → Option (List TokenKind)
  | unexpectedToken _ kinds | unexpectedEnd kinds => some kinds
  | _ => none

/-! ## Runs that stop at a position -/

namespace Outcome

variable {α β : Type} {outcome : Outcome α} {P : List Token → α → TokenCursor → Prop}

/-- If the run complains that a token is missing, what it has passed leads to a position. If an
operand is due there, the error names what operands start with, and any token that can stand at the
position makes it the beginning of something of a sort. -/
def StopsAt (c : TokenCursor) (p : Position) (sort : List Token → Prop) : Outcome α → Prop
  | done .. => True
  | stop e d _ => ∀ kinds, e.cause.alternatives? = some kinds →
    ∃ ts q, c.Passes ts d ∧ p.after? ts = some q ∧ (q.awaitsOperand = true →
      kinds = Level.operandKinds ∧ ∀ u, (q.next? u.kind).isSome = true → Begins sort (ts ++ [u]))

namespace StopsAt

/-- Behind some tokens a run stops where these tokens and its own lead to. -/
theorem behind (hpass : c.Passes ts c') (hts : p.after? ts = some p')
    (h : outcome.StopsAt c' p' sort) (hsort : ∀ us, sort us → Begins sort' (ts ++ us)) :
    outcome.StopsAt c p sort' := by
  cases outcome with
  | done => trivial
  | stop e d left =>
    intro kinds hkinds
    obtain ⟨us, q, hus, hq, hstop⟩ := h kinds hkinds
    have hafter := (Position.after?_append_of_eq hts).trans hq
    refine ⟨ts ++ us, q, hpass.trans hus, hafter, fun hdue ↦ ?_⟩
    obtain ⟨rfl, hnext⟩ := hstop hdue
    refine ⟨rfl, fun u hu ↦ ?_⟩
    rw [List.append_assoc]
    exact (hnext u hu).behind ts hsort

/-- A run can be told from another position than its own if that one has more next tokens. At the
position itself it has to be known what these make. -/
theorem relax (hrefines : p.Refines p') (hdue : p.awaitsOperand = true)
    (h : outcome.StopsAt c p sort) (hsort : ∀ us, sort us → Begins sort' us)
    (hfirst : ∀ u, (p'.next? u.kind).isSome = true → Begins sort' [u]) :
    outcome.StopsAt c p' sort' := by
  cases outcome with
  | done => trivial
  | stop e d left =>
    intro kinds hkinds
    obtain ⟨us, q, hus, hq, hstop⟩ := h kinds hkinds
    by_cases hne : us = []
    · subst hne
      cases hq
      exact ⟨[], p', hus, rfl, fun _ ↦ ⟨(hstop hdue).1, hfirst⟩⟩
    · refine ⟨us, q, hus, hrefines.after? hne hq, fun hawaits ↦ ?_⟩
      obtain ⟨rfl, hnext⟩ := hstop hawaits
      exact ⟨rfl, fun u hu ↦ (hnext u hu).behind [] hsort⟩

/-- **Sequences.** What follows a part is asked behind all that the part can have passed. -/
theorem andThen {next : α → TokenCursor → Outcome β} (hpass : c.Passes ts c')
    (hmeets : outcome.Meets registry limit c' P) (h : outcome.StopsAt c p sort)
    (hnext : ∀ us x d, P us x d → c.Passes (ts ++ us) d → (next x d).StopsAt c p sort) :
    (outcome.andThen next).StopsAt c p sort := by
  cases outcome with
  | done x d =>
    obtain ⟨us, hus, hx⟩ := hmeets
    exact hnext us x d hx (hpass.trans hus)
  | stop => exact h

theorem andThen_done {f : α → TokenCursor → β} (h : outcome.StopsAt c p sort) :
    (outcome.andThen fun x d ↦ done (f x d) d).StopsAt c p sort := by
  cases outcome with
  | done => trivial
  | stop => exact h

theorem of_tighter (hlevel : level ≠ .primary)
    (h : outcome.StopsAt c (.operand level.tighter) (IsFormula level.tighter)) :
    outcome.StopsAt c (.operand level) (IsFormula level) :=
  h.relax (Position.refines_tighter hlevel) rfl (fun _ hus ↦ .of_complete (hus.tighter hlevel))
    fun _ hu ↦ begins_of_canStart (Position.behindFirst?_isSome_iff.mp hu)

end StopsAt

end Outcome

/-! ## The functions of the parser, one by one -/

namespace Parser

open Outcome Position

theorem alternatives?_mismatch (c : TokenCursor) (kinds : List TokenKind) :
    (mismatch c kinds).alternatives? = some kinds := by
  rw [mismatch]
  split <;> rfl

theorem fail_stopsAt {α : Type} {cause : ParseCause} {span : Span}
    (hcause : cause.alternatives? = none) :
    (fail (α := α) cause span headroom d).StopsAt c p sort := by
  intro kinds hkinds
  cases hcause.symm.trans hkinds

theorem unexpected_stopsAt {α : Type} (hpass : c.Passes ts d) (hq : p.after? ts = some q)
    (h : q.awaitsOperand = true →
      kinds = Level.operandKinds ∧ ∀ u, (q.next? u.kind).isSome = true → Begins sort (ts ++ [u])) :
    (unexpected (α := α) kinds headroom d).StopsAt c p sort := by
  intro kinds' hkinds
  cases (alternatives?_mismatch d kinds).symm.trans hkinds
  exact ⟨ts, q, hpass, hq, h⟩

/-- A token of a certain kind is asked for where no operand is due. -/
theorem expect_stopsAt {kind : TokenKind} (hpass : c.Passes ts d) (hq : p.after? ts = some q)
    (hawaits : q.awaitsOperand = false) : (expect kind headroom d).StopsAt c p sort := by
  rw [expect]
  split
  · trivial
  · exact unexpected_stopsAt hpass hq fun hdue ↦ absurd hdue (by rw [hawaits]; decide)

/-- What the lemmas on calls and parentheses need to know of the function for formulas: what it
passes, and where it stops. -/
structure Placed (registry : Registry) (limit n : Nat) (formula : TokenCursor → Outcome Tree) :
    Prop where
  /-- A formula is read from tokens that are passed. -/
  spec : FormulaSpec registry limit n formula
  /-- A run that stops has started where a formula has to start. -/
  stopsAt : ∀ c : TokenCursor, c.Closed →
    (formula c).StopsAt c (.operand .disjunction) (IsFormula .disjunction)

theorem moreArguments_stopsAt (hformula : Placed registry limit n formula) (fuel : Nat)
    (hc : c.Closed) : (moreArguments formula fuel c).StopsAt c .behind AreFurther := by
  induction fuel generalizing c with
  | zero => trivial
  | succ fuel ih =>
    rw [moreArguments]
    split
    · next hcomma =>
      have hpass := hc.passes_advance (by rw [hcomma]; decide)
      have hclosed := hpass.closed hc
      have hbehind : Position.behind.after? [c.current] = some (operand .disjunction) :=
        (after?_singleton _ _).trans (next?_comma hcomma)
      have hfirst : (formula c.advance).StopsAt c .behind AreFurther := by
        refine (hformula.stopsAt _ hclosed).behind hpass hbehind fun us hus ↦ .of_complete ?_
        have hfurther := AreFurther.cons hcomma hus .nil
        rwa [List.append_nil] at hfurther
      refine .andThen hpass (hformula.spec _ hclosed) hfirst fun us x d hx hd ↦ ?_
      have hargument : Position.behind.after? ([c.current] ++ us) = some .behind :=
        (after?_append_of_eq hbehind).trans (after?_of_isFormula hx.isFormula)
      refine StopsAt.andThen_done ((ih (hd.closed hc)).behind hd hargument fun vs hvs ↦ ?_)
      exact .of_complete (.cons hcomma hx.isFormula hvs)
    · trivial

theorem arguments_stopsAt {f t : Token} (hf : f.kind = .function) (ht : t.kind = .leftParen)
    (hformula : Placed registry limit n formula) (hc : c.Closed) :
    (arguments formula c).StopsAt c .opening fun us ↦ IsFormula .primary (f :: t :: us) := by
  have hcall : ∀ us, AreArguments us →
      Begins (fun us ↦ IsFormula .primary (f :: t :: us)) us := fun _ ↦ begins_call hf ht
  rw [arguments]
  split
  · trivial
  · have hfirst : (formula c).StopsAt c .opening fun us ↦ IsFormula .primary (f :: t :: us) := by
      refine (hformula.stopsAt c hc).relax refines_opening rfl (fun us hus ↦ ?_) fun u hu ↦ ?_
      · exact hcall us (.inr ⟨us, [], (List.append_nil us).symm, hus, .nil⟩)
      · by_cases hclose : u.kind = .rightParen
        · exact .of_complete (.call hf ht (.inl rfl) hclose)
        · rw [next?, if_neg hclose] at hu
          have hstart := begins_of_canStart (behindFirst?_isSome_iff.mp hu)
          refine hstart.behind [] fun vs hvs ↦ hcall vs ?_
          exact .inr ⟨vs, [], (List.append_nil vs).symm, hvs, .nil⟩
    refine .andThen (.refl c) (hformula.spec c hc) hfirst fun us x d hx hd ↦ ?_
    obtain ⟨v, rest, rfl, -⟩ := hx.1.exists_cons
    have hargument : opening.after? (v :: rest) = some .behind :=
      refines_opening.after? (List.cons_ne_nil v rest) (after?_of_isFormula hx.isFormula)
    refine StopsAt.andThen_done ?_
    refine (moreArguments_stopsAt hformula _ (hd.closed hc)).behind hd hargument fun vs hvs ↦ ?_
    exact hcall _ (.inr ⟨_, vs, rfl, hx.isFormula, hvs⟩)

theorem finishCall_stopsAt {name : Token} {args : List Tree} (hpass : c.Passes ts d)
    (hbehind : d.kind ≠ .rightParen → p.after? ts = some .behind) :
    (finishCall registry headroom name args d).StopsAt c p sort := by
  rw [finishCall]
  split
  · split
    · exact fail_stopsAt rfl
    · split
      · trivial
      · exact fail_stopsAt rfl
  · next hne => exact unexpected_stopsAt hpass (hbehind hne) fun hdue ↦ by cases hdue

theorem primary_stopsAt (hformula : Placed registry limit n formula) (hc : c.Closed) :
    (primary registry headroom formula c).StopsAt c (.operand .primary) (IsFormula .primary) := by
  rw [primary]
  split
  · trivial
  · trivial
  -- A call: the name, its opening parenthesis, the arguments, and what closes it, in this order.
  · next hkind =>
    have hname := hc.passes_advance (by rw [hkind]; decide)
    have hclosed := hname.closed hc
    have hfunction : (operand .primary).after? [c.current] = some .name := by
      rw [after?_singleton, show c.current.kind = .function from hkind]
      rfl
    have hopening : (expect .leftParen headroom c.advance).StopsAt c (.operand .primary)
        (IsFormula .primary) := expect_stopsAt hname hfunction rfl
    have hmeets : (expect .leftParen headroom c.advance).Meets registry limit c.advance _ :=
      expect_meets (by decide) hclosed
    refine .andThen hname hmeets hopening ?_
    rintro _ t c₁ ⟨rfl, ht⟩ hbehind
    have hclosed := hbehind.closed hc
    have hopened : (operand .primary).after? ([c.current] ++ [t]) = some opening :=
      after?_opening hkind ht
    have hargs : (arguments formula c₁).StopsAt c (.operand .primary) (IsFormula .primary) :=
      (arguments_stopsAt hkind ht hformula hclosed).behind hbehind hopened
        fun _ hus ↦ .of_complete hus
    refine .andThen hbehind (arguments_meets hformula.spec hclosed) hargs ?_
    rintro us args c₂ ⟨hus, -, hnil⟩ hpass
    refine finishCall_stopsAt hpass fun hne ↦ ?_
    rw [after?_append_of_eq hopened]
    exact after?_of_areArguments hus.areArguments (mt hnil hne)
  · next hkind =>
    have hopening := hc.passes_advance (by rw [hkind]; decide)
    have hclosed := hopening.closed hc
    have hopened : (operand .primary).after? [c.current] = some (operand .disjunction) := by
      rw [after?_singleton, show c.current.kind = .leftParen from hkind]
      rfl
    have hinner : (formula c.advance).StopsAt c (.operand .primary) (IsFormula .primary) :=
      (hformula.stopsAt _ hclosed).behind hopening hopened
        fun us hus ↦ begins_parenthesized hkind hus
    refine .andThen hopening (hformula.spec _ hclosed) hinner fun us x c₁ hx hpass ↦ ?_
    have hclosing : (operand .primary).after? ([c.current] ++ us) = some .behind :=
      (after?_append_of_eq hopened).trans (after?_of_isFormula hx.isFormula)
    exact StopsAt.andThen_done (expect_stopsAt hpass hclosing rfl)
  · exact unexpected_stopsAt (.refl c) rfl fun _ ↦
      ⟨rfl, fun u hu ↦ begins_of_canStart (behindFirst?_isSome_iff.mp hu)⟩

/-- **A run that stops** has led from where a formula of the level has to start to where it stops,
by induction along the run. -/
theorem parseLevel_stopsAt (level : Level) (hc : c.Closed)
    (hsign : level = .primary → Level.power.sign? c.kind = none) :
    (parseLevel registry limit headroom level c).StopsAt c (.operand level) (IsFormula level) := by
  induction headroom, level, c, hc, hsign using inductOnLevels with
  | exhausted level c =>
    rw [parseLevel]
    exact fail_stopsAt rfl
  | primary headroom c hc hsign ih =>
    have hformula : Placed registry limit headroom
        (parseLevel registry limit headroom .disjunction) :=
      ⟨fun c hc ↦ parseLevel_meets .disjunction hc (by simp), ih⟩
    rw [parseLevel_primary]
    exact primary_stopsAt hformula hc
  | sign headroom level c hc hsign hlevel o ho hpass ih =>
    rw [parseLevel_of_sign hlevel ho]
    have hbehind : (operand level).after? [c.current] = some (operand level) :=
      (after?_singleton _ _).trans (next?_of_sign? ho)
    exact StopsAt.andThen_done
      (ih.behind hpass hbehind fun us hus ↦ .of_complete (hus.sign ho))
  | operand headroom level c hc hsign hlevel hnone ih ihright =>
    rw [parseLevel_of_operand hlevel hnone]
    have hmeets : (parseLevel registry limit headroom level.tighter c).Meets registry limit c _ :=
      parseLevel_meets level.tighter hc (Level.sign?_power_eq_none hlevel hnone)
    -- A complaint inside the left part is also one about the level, which goes on behind that part.
    refine .andThen (.refl c) hmeets (ih.of_tighter hlevel) fun us x d hx hd ↦ ?_
    cases ho : level.operator? d.kind with
    | none => trivial
    | some o =>
      obtain ⟨hpass, hrun⟩ := ihright _ d o hd ho
      have hoperand := after?_of_isFormula (hx.isFormula.tighter hlevel)
      have hbehind : (operand level).after? (us ++ [d.current]) = some (operand level.right) := by
        rw [after?_append_of_eq hoperand, after?_singleton]
        exact next?_of_operator? ho
      refine StopsAt.andThen_done (hrun.behind hpass hbehind fun vs hvs ↦ .of_complete ?_)
      have hjoin := hx.isFormula.join ho hvs
      rwa [List.append_assoc]

theorem wholeFormula_stopsAt (hc : c.Closed) :
    (wholeFormula registry limit headroom c).StopsAt c .start (IsFormula .disjunction) := by
  have hmeets : (parseLevel registry limit headroom .disjunction c).Meets registry limit c _ :=
    parseLevel_meets .disjunction hc (by simp)
  refine .andThen (.refl c) hmeets (parseLevel_stopsAt .disjunction hc (by simp)) ?_
  intro us x d hx hd
  split
  · trivial
  · exact fail_stopsAt rfl

end Parser

/-! ## What the grammar lets stand there -/

/-- A formula that begins with some tokens can have a token of some kind next. -/
def MayFollow (before : List Token) (kind : TokenKind) : Prop :=
  ∃ t : Token, t.kind = kind ∧ Begins (IsFormula .disjunction) (before ++ [t])

theorem MayFollow.exists_after? {kind : TokenKind} (h : MayFollow before kind) :
    ∃ q, Position.start.after? before = some q ∧ (q.next? kind).isSome = true := by
  obtain ⟨t, rfl, ht⟩ := h
  exact Position.exists_after?_of_begins ht

theorem MayFollow.awaitsOperand (h : MayFollow before .number)
    (hq : Position.start.after? before = some q) : q.awaitsOperand = true := by
  obtain ⟨q', hq', hnumber⟩ := h.exists_after?
  cases hq.symm.trans hq'
  exact Position.isSome_next?_number_iff.mp hnumber

theorem ParseCause.expected_of_alternatives? {cause : ParseCause}
    (h : cause.alternatives? = some kinds) : cause.expected = kinds := by
  cases cause with
  | unexpectedToken | unexpectedEnd => exact Option.some.inj h
  | _ => cases h

namespace Tree

variable {e : ParseError} {body : List Token} {eof : Token}

theorem take_index_of_passes (heof : eof.isEnd = true)
    (hpass : (TokenCursor.start (body ++ [eof])).Passes ts d) :
    (body ++ [eof]).take d.index = ts := by
  have htokens := hpass.tokens_eq
  rw [TokenCursor.tokens_start, TokenCursor.closed_append heof] at htokens
  rw [htokens, hpass.index_eq, Parser.index_start, Nat.zero_add, List.take_left]

/-- Where a number can stand, an error names what operands start with, and what the grammar lets
stand there is what the position lets through. -/
theorem exists_position_of_error (heof : eof.isEnd = true)
    (h : ofTokens registry limit (body ++ [eof]) = .error e)
    (hkinds : e.cause.alternatives? = some kinds)
    (hnumber : MayFollow ((body ++ [eof]).take e.index) .number) :
    kinds = Level.operandKinds ∧ ∃ q, q.awaitsOperand = true ∧
      Position.start.after? ((body ++ [eof]).take e.index) = some q ∧
      ∀ kind, MayFollow ((body ++ [eof]).take e.index) kind ↔ (q.next? kind).isSome = true := by
  obtain ⟨d, left, hrun⟩ := ofTokens_eq_error_iff.mp h
  have hclosed := TokenCursor.closed_start (body ++ [eof])
  have hends : Parser.Ends registry limit limit (.start (body ++ [eof])) _ :=
    Parser.wholeFormula_ends hclosed
  have hstops : Outcome.StopsAt (.start (body ++ [eof])) .start (IsFormula .disjunction)
      (Parser.wholeFormula registry limit limit (.start (body ++ [eof]))) :=
    Parser.wholeFormula_stopsAt hclosed
  rw [hrun] at hends hstops
  obtain ⟨ts, q, hpass, hq, hstop⟩ := hstops kinds hkinds
  rw [hends.isAt.1, take_index_of_passes heof hpass] at hnumber ⊢
  have hdue := hnumber.awaitsOperand hq
  obtain ⟨rfl, hnext⟩ := hstop hdue
  refine ⟨rfl, q, hdue, hq, fun kind ↦ ⟨fun hkind ↦ ?_, fun hkind ↦ ?_⟩⟩
  · obtain ⟨q', hq', hkind⟩ := hkind.exists_after?
    cases hq.symm.trans hq'
    exact hkind
  · exact ⟨⟨kind, "", .emptyAt 0⟩, rfl, hnext _ hkind⟩

/-- **What an error names in place of a missing operand.** Where a fresh parser complains that other
kinds of token are missing, these are the six that start an operand if and only if a number can
stand there. Then the grammar lets stand

* all the kinds that the error names;
* `!` behind nothing, an opening parenthesis, a comma, `|`, `&` or another `!`;
* a closing parenthesis right behind the one that opens a call;

and nothing else. So the error names exactly what can stand there if and only if no negation can. -/
theorem operand_alternatives (heof : eof.isEnd = true)
    (h : ofTokens registry limit (body ++ [eof]) = .error e)
    (hkinds : e.cause.alternatives? = some kinds) :
    let before := (body ++ [eof]).take e.index
    (kinds = Level.operandKinds ↔ MayFollow before .number) ∧
    (MayFollow before .number →
      (∀ kind, MayFollow before kind ↔ kind ∈ kinds ∨
        kind = .not ∧ NegationDue before ∨ kind = .rightParen ∧ OpensCall before) ∧
      ((∀ kind, MayFollow before kind ↔ kind ∈ kinds) ↔ ¬ NegationDue before)) := by
  intro before
  refine ⟨⟨fun hoperand ↦ ?_, fun hnumber ↦ ?_⟩, fun hnumber ↦ ?_⟩
  · obtain ⟨ts, d, hpass, hindex, -, -, hexpected, -⟩ := exists_begins_of_error h
    obtain rfl : before = ts := by
      rw [← take_index_of_passes heof hpass, ← hindex]
    refine ⟨⟨.number, "", .emptyAt 0⟩, rfl, hexpected _ ?_⟩
    rw [ParseCause.expected_of_alternatives? hkinds, hoperand]
    exact List.mem_cons_self
  · exact (exists_position_of_error heof h hkinds hnumber).1
  · obtain ⟨rfl, q, hdue, hq, hnext⟩ := exists_position_of_error heof h hkinds hnumber
    have hexact (kind : TokenKind) : MayFollow before kind ↔ kind ∈ Level.operandKinds ∨
        kind = .not ∧ NegationDue before ∨ kind = .rightParen ∧ OpensCall before :=
      (hnext kind).trans (Position.isSome_next?_iff hq hdue)
    refine ⟨hexact, fun hall hnegation ↦ ?_, fun hnegation kind ↦ ?_⟩
    · have hnot := (hall .not).mp ((hexact .not).mpr (.inr (.inl ⟨rfl, hnegation⟩)))
      exact absurd hnot (by decide)
    · rw [hexact]
      refine or_iff_left ?_
      rintro (⟨-, hdue⟩ | ⟨-, hopens⟩)
      · exact hnegation hdue
      · exact hnegation hopens.negationDue

/-- In `2*)` the error names all that could stand where the parenthesis is, and nothing else. -/
theorem operand_alternatives_factor :
    let two : Token := ⟨.number, "2", ⟨0, 1⟩⟩
    let times : Token := ⟨.times, "*", ⟨1, 2⟩⟩
    let close : Token := ⟨.rightParen, ")", ⟨2, 3⟩⟩
    (Token.endAt 3).isEnd = true ∧
    ofTokens .standard 256 ([two, times, close] ++ [.endAt 3]) =
      .error ⟨.unexpectedToken close Level.operandKinds, ⟨2, 3⟩, 2⟩ ∧
    (ParseCause.unexpectedToken close Level.operandKinds).alternatives? =
      some Level.operandKinds ∧
    ∀ kind, MayFollow [two, times] kind ↔ kind ∈ Level.operandKinds := by
  intro two times close
  have heof : (Token.endAt 3).isEnd = true := rfl
  have hanswer : ofTokens .standard 256 ([two, times, close] ++ [.endAt 3]) =
      .error ⟨.unexpectedToken close Level.operandKinds, ⟨2, 3⟩, 2⟩ := by
    decide +kernel
  obtain ⟨hoperand, hexact⟩ := operand_alternatives heof hanswer rfl
  refine ⟨heof, hanswer, rfl, (hexact (hoperand.mp rfl)).2.mpr fun hnegation ↦ ?_⟩
  exact absurd (hnegation times rfl) (by decide)

/-- In front of a whole formula `!` can stand, but the error about an empty one does not name it. -/
theorem operand_alternatives_omit_not :
    ofTokens .standard 256 [.endAt 0] =
      .error ⟨.unexpectedEnd Level.operandKinds, ⟨0, 0⟩, 0⟩ ∧
    MayFollow [] .not ∧ .not ∉ Level.operandKinds := by
  refine ⟨by decide +kernel, ⟨⟨.not, "!", .emptyAt 0⟩, rfl, ?_⟩, by decide⟩
  exact begins_of_canStart (.inr ⟨.not, rfl, by decide⟩)

end Tree

end DecimalFormula
