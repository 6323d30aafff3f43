import DecimalFormula.Proofs.Grammar.Shape
import DecimalFormula.Proofs.Parsing.Descent
import DecimalFormula.Proofs.Parsing.Passing

/-!
# What a run of the parser means

Every run of the parser moves its cursor over some tokens. If it succeeds, those tokens derive the
tree it returns, within the headroom it had, and every call in the tree is accepted by the registry.
If it fails, the error is one of four faults of the place where it stopped (`Parser.Fault`).

## The rule for sequences

A step is described by what it passes from a fixed start on and what holds of the answer then
(`Outcome.Meets`). Descriptions of steps that follow one another compose by
`Outcome.Meets.andThen`, so each function of the parser gets one lemma. What a run asks of other
runs, all with less headroom, is said once in `Parser.inductOnLevels`; this is the induction for
whatever else holds of runs at cursors that have an end of input ahead.
-/

namespace DecimalFormula

/-! ## Calls that the registry accepts -/

namespace Tree

/-- If a node is a call, a function of that name is registered for so many arguments. -/
def CallAccepted (registry : Registry) : Tree → Prop
  | call name _ args _ => ∃ arity, registry.arity? name = some arity ∧ arity.accepts args.length
  | _ => True

/-- The registry accepts all calls in a tree. -/
def Accepted (registry : Registry) (tree : Tree) : Prop :=
  ∀ node ∈ nodes tree, node.CallAccepted registry

theorem accepted_iff {registry : Registry} {tree : Tree} : tree.Accepted registry ↔
    tree.CallAccepted registry ∧ ∀ child ∈ tree.children, child.Accepted registry :=
  forall_mem_nodes_iff

end Tree

namespace Parser

/-! ## Faults -/

/-- Why a run that passed some tokens stops at a cursor with so much headroom left. -/
inductive Fault (registry : Registry) (limit : Nat) (passed : List Token) (c : TokenCursor) :
    Nat → ParseError → Prop
  /-- There is no headroom to enter a level. -/
  | tooDeep : Fault registry limit passed c 0 ⟨.tooDeep limit, c.current.span, c.index⟩
  /-- The current token is of none of the kinds that could go on. -/
  | mismatch {headroom expected} : c.kind ∉ expected →
    Fault registry limit passed c headroom ⟨mismatch c expected, c.current.span, c.index⟩
  /-- At the end of a call its name turns out not to be registered. -/
  | unknownFunction {headroom name} : name ∈ passed → name.kind = .function →
    c.kind = .rightParen → registry.arity? name.text = none →
    Fault registry limit passed c headroom ⟨.unknownFunction name.text, name.span, c.index⟩
  /-- At the end of a call the number of its arguments turns out to be wrong. -/
  | wrongArgumentCount {headroom name arity got} : name ∈ passed → name.kind = .function →
    c.kind = .rightParen → registry.arity? name.text = some arity → arity.accepts got = false →
    Fault registry limit passed c headroom
      ⟨.wrongArgumentCount name.text arity got, name.span.merge c.current.span, c.index⟩

theorem Fault.prepend {registry : Registry} {limit headroom : Nat} {passed : List Token}
    {c : TokenCursor} {e : ParseError} (more : List Token)
    (h : Fault registry limit passed c headroom e) :
    Fault registry limit (more ++ passed) c headroom e := by
  cases h with
  | tooDeep => exact .tooDeep
  | mismatch hkind => exact .mismatch hkind
  | unknownFunction hname hkind hclose hnone =>
    exact .unknownFunction (List.mem_append_right _ hname) hkind hclose hnone
  | wrongArgumentCount hname hkind hclose harity hgot =>
    exact .wrongArgumentCount (List.mem_append_right _ hname) hkind hclose harity hgot

end Parser

/-! ## Descriptions of steps -/

namespace Outcome

variable {registry : Registry} {limit : Nat} {α β : Type} {c c' : TokenCursor}
  {P Q : List Token → α → TokenCursor → Prop} {R : List Token → β → TokenCursor → Prop}

/-- From the cursor `c` on, some tokens are passed. On success `P` holds of them, of the answer and
of the cursor behind them; a failure is a fault there. -/
def Meets (registry : Registry) (limit : Nat) (c : TokenCursor)
    (P : List Token → α → TokenCursor → Prop) : Outcome α → Prop
  | done x c' => ∃ ts, c.Passes ts c' ∧ P ts x c'
  | stop e c' headroom => ∃ ts, c.Passes ts c' ∧ Parser.Fault registry limit ts c' headroom e

/-- A description that starts behind some tokens gives one that starts in front of them. -/
theorem Meets.prepend {outcome : Outcome α} {ts : List Token} (hpass : c.Passes ts c')
    (h : outcome.Meets registry limit c' P)
    (himp : ∀ us x c'', P us x c'' → Q (ts ++ us) x c'') : outcome.Meets registry limit c Q := by
  cases outcome with
  | done x c'' =>
    obtain ⟨us, hus, hP⟩ := h
    exact ⟨ts ++ us, hpass.trans hus, himp us x c'' hP⟩
  | stop e c'' headroom =>
    obtain ⟨us, hus, hfault⟩ := h
    exact ⟨ts ++ us, hpass.trans hus, hfault.prepend ts⟩

/-- **Sequences.** A first step from where some tokens have been passed, and all that follows it, is
described from where those tokens start. -/
theorem Meets.andThen {outcome : Outcome α} {next : α → TokenCursor → Outcome β} {ts : List Token}
    (hpass : c.Passes ts c') (h : outcome.Meets registry limit c' P)
    (hnext : ∀ us x c'', P us x c'' → c.Passes (ts ++ us) c'' →
      (next x c'').Meets registry limit c R) :
    (outcome.andThen next).Meets registry limit c R := by
  cases outcome with
  | done x c'' =>
    obtain ⟨us, hus, hP⟩ := h
    exact hnext us x c'' hP (hpass.trans hus)
  | stop e c'' headroom =>
    obtain ⟨us, hus, hfault⟩ := h
    exact ⟨ts ++ us, hpass.trans hus, hfault.prepend ts⟩

theorem Meets.done {x : α} {ts : List Token} (hpass : c.Passes ts c') (h : P ts x c') :
    (done x c').Meets registry limit c P :=
  ⟨ts, hpass, h⟩

end Outcome

/-! ## Down the levels -/

/-- **Induction along a run.** At a cursor with an end of input ahead, a run with some headroom is
for a primary, starts with a sign and goes on behind it, or starts with a part of the next tighter
level. Behind such a part it goes on if an operator of the level stands there. Every one of these
runs has one unit of headroom less. A primary is never asked for where a sign of a power stands,
since the level above it takes the signs. -/
@[elab_as_elim]
theorem Parser.inductOnLevels
    {motive : ∀ (_ : Nat) (level : Level) (c : TokenCursor), c.Closed →
      (level = .primary → Level.power.sign? c.kind = none) → Prop}
    (exhausted : ∀ level c hc hsign, motive 0 level c hc hsign)
    (primary : ∀ headroom c hc hsign,
      (∀ c' hc', motive headroom .disjunction c' hc' (absurd · (by decide))) →
      motive (headroom + 1) .primary c hc hsign)
    (sign : ∀ headroom level c hc hsign (hlevel : level ≠ .primary) o
      (_ : level.sign? c.kind = some o) (hpass : c.Passes [c.current] c.advance),
      motive headroom level c.advance (hpass.closed hc) (absurd · hlevel) →
      motive (headroom + 1) level c hc hsign)
    (operand : ∀ headroom level c hc hsign (hlevel : level ≠ .primary)
      (hnone : level.sign? c.kind = none),
      motive headroom level.tighter c hc (Level.sign?_power_eq_none hlevel hnone) →
      (∀ ts d o, c.Passes ts d → level.operator? d.kind = some o →
        ∃ hpass : c.Passes (ts ++ [d.current]) d.advance,
          motive headroom level.right d.advance (hpass.closed hc)
            (absurd · (Level.right_ne_primary hlevel))) →
      motive (headroom + 1) level c hc hsign)
    (headroom : Nat) (level : Level) (c : TokenCursor) (hc : c.Closed)
    (hsign : level = .primary → Level.power.sign? c.kind = none) :
    motive headroom level c hc hsign := by
  induction headroom generalizing level c with
  | zero => exact exhausted level c hc hsign
  | succ headroom ih =>
    by_cases hlevel : level = .primary
    · subst hlevel
      exact primary headroom c hc hsign fun c' hc' ↦ ih .disjunction c' hc' _
    cases ho : level.sign? c.kind with
    | some o =>
      have hpass := hc.passes_advance (Level.ne_endOfInput_of_sign? ho)
      exact sign headroom level c hc hsign hlevel o ho hpass (ih level c.advance _ _)
    | none =>
      refine operand headroom level c hc hsign hlevel ho (ih level.tighter c hc _) ?_
      intro ts d o hd ho'
      have hpass := hd.trans ((hd.closed hc).passes_advance (Level.ne_endOfInput_of_operator? ho'))
      exact ⟨hpass, ih level.right d.advance _ _⟩

/-! ## The functions of the parser, one by one -/

namespace Parser

open Outcome

variable {registry : Registry} {limit headroom n : Nat} {c c' : TokenCursor} {ts : List Token}

/-- Some tokens derive a tree all of whose calls are accepted. -/
def Reads (registry : Registry) (n : Nat) (level : Level) (ts : List Token) (x : Tree) : Prop :=
  DerivesWithin n level ts x ∧ x.Accepted registry

/-- Some tokens are arguments behind the first one, and their trees are the given ones. -/
def ReadsFurther (registry : Registry) (n : Nat) (ts : List Token) (xs : List Tree) : Prop :=
  ∃ more, ts = furtherTokens more ∧ xs = more.map FurtherArgument.tree ∧
    (∀ m ∈ more, m.comma.kind = .comma) ∧ ∀ m ∈ more, Reads registry n .disjunction m.tokens m.tree

/-- Some tokens are all the arguments of a call. -/
def ReadsArguments (registry : Registry) (n : Nat) (ts : List Token) (xs : List Tree) : Prop :=
  (ts = [] ∧ xs = []) ∨ ∃ us x vs ys, ts = us ++ vs ∧ xs = x :: ys ∧
    Reads registry n .disjunction us x ∧ ReadsFurther registry n vs ys

/-- What the lemmas on calls and parentheses need to know of the function for formulas. -/
def FormulaSpec (registry : Registry) (limit n : Nat) (formula : TokenCursor → Outcome Tree) :
    Prop :=
  ∀ c : TokenCursor, c.Closed →
    (formula c).Meets registry limit c fun ts x _ ↦ Reads registry n .disjunction ts x

theorem unexpected_meets {α : Type} {P : List Token → α → TokenCursor → Prop}
    {expected : List TokenKind} (hkind : c.kind ∉ expected) :
    Meets registry limit c P (unexpected expected headroom c) :=
  ⟨[], .refl c, .mismatch hkind⟩

theorem expect_meets {kind : TokenKind} (hkind : kind ≠ .endOfInput) (hc : c.Closed) :
    (expect kind headroom c).Meets registry limit c fun ts t _ ↦ ts = [t] ∧ t.kind = kind := by
  rw [expect]
  split
  · next h => exact ⟨[c.current], hc.passes_advance (h ▸ hkind), rfl, h⟩
  · next h => exact unexpected_meets (by simpa using h)

theorem moreArguments_meets {argument : TokenCursor → Outcome Tree}
    (hargument : FormulaSpec registry limit n argument) {fuel : Nat} (hc : c.Closed)
    (hfuel : c.ahead.length ≤ fuel) :
    (moreArguments argument fuel c).Meets registry limit c
      fun ts xs c' ↦ ReadsFurther registry n ts xs ∧ c'.kind ≠ .comma := by
  induction fuel generalizing c with
  | zero =>
    refine ⟨[], .refl c, ⟨[], rfl, rfl, by simp, by simp⟩, fun hcomma ↦ ?_⟩
    exact hc.ahead_ne_nil (by rw [hcomma]; decide) (List.length_eq_zero_iff.mp (by omega))
  | succ fuel ih =>
    rw [moreArguments]
    split
    · next hcomma =>
      have hpass := hc.passes_advance (by rw [hcomma]; decide)
      refine .andThen hpass (hargument c.advance (hpass.closed hc)) fun us x c' hus hx ↦ ?_
      have hlength := hx.length_ahead
      rw [List.length_append, List.length_singleton] at hlength
      refine .andThen hx (ih (hx.closed hc) (by omega)) ?_
      rintro vs xs c'' ⟨⟨more, rfl, rfl, hcommas, hmore⟩, hkind⟩ hxs
      refine .done hxs ⟨⟨⟨c.current, us, x⟩ :: more, rfl, rfl, ?_, ?_⟩, hkind⟩
      · simpa using ⟨hcomma, hcommas⟩
      · simpa using ⟨hus, hmore⟩
    · next hcomma => exact ⟨[], .refl c, ⟨[], rfl, rfl, by simp, by simp⟩, hcomma⟩

theorem arguments_meets {argument : TokenCursor → Outcome Tree}
    (hargument : FormulaSpec registry limit n argument) (hc : c.Closed) :
    (arguments argument c).Meets registry limit c fun ts xs c' ↦
      ReadsArguments registry n ts xs ∧ c'.kind ≠ .comma ∧ (ts = [] → c'.kind = .rightParen) := by
  rw [arguments]
  split
  · next hclose => exact .done (.refl c) ⟨.inl ⟨rfl, rfl⟩, by rw [hclose]; decide, fun _ ↦ hclose⟩
  · refine .andThen (.refl c) (hargument c hc) fun us x c' hus hx ↦ ?_
    have hfuel : c'.ahead.length ≤ c'.tokens.length := Nat.le_succ _
    refine .andThen hx (moreArguments_meets hargument (hx.closed hc) hfuel) ?_
    rintro vs xs c'' ⟨hvs, hkind⟩ hxs
    obtain ⟨t, rest, rfl, -⟩ := hus.1.exists_cons
    refine .done hxs ⟨.inr ⟨t :: rest, x, vs, xs, rfl, rfl, hus, hvs⟩, hkind, ?_⟩
    rintro ⟨⟩

/-- The end of a call is described from some start in front of the name. -/
theorem finishCall_meets {s : TokenCursor} {name : Token} {args : List Tree}
    (hpass : s.Passes ts c) (hc : c.Closed) (hname : name ∈ ts) (hkind : name.kind = .function)
    (hcomma : c.kind ≠ .comma) :
    (finishCall registry headroom name args c).Meets registry limit s fun us x _ ↦
      ∃ u, us = ts ++ [u] ∧ u.kind = .rightParen ∧
        x = .call name.text name args (name.span.merge u.span) ∧ x.CallAccepted registry := by
  rw [finishCall]
  split
  · next hclose =>
    have hend := hpass.trans (hc.passes_advance (by rw [hclose]; decide))
    cases harity : registry.arity? name.text with
    | none => exact ⟨ts, hpass, .unknownFunction hname hkind hclose harity⟩
    | some arity =>
      cases haccepts : arity.accepts args.length with
      | true =>
        simp only [haccepts, if_true]
        exact .done hend ⟨c.current, rfl, hclose, rfl, arity, harity, haccepts⟩
      | false =>
        simp only [haccepts, Bool.false_eq_true, if_false]
        exact ⟨ts, hpass, .wrongArgumentCount hname hkind hclose harity haccepts⟩
  · next hclose =>
    exact ⟨ts, hpass, .mismatch (by simpa using ⟨hcomma, hclose⟩)⟩

theorem reads_call {f t u : Token} {us : List Token} {args : List Tree} (hf : f.kind = .function)
    (ht : t.kind = .leftParen) (hu : u.kind = .rightParen)
    (hargs : ReadsArguments registry n us args)
    (haccepted : (Tree.call f.text f args (f.span.merge u.span)).CallAccepted registry) :
    Reads registry (n + 1) .primary (f :: t :: (us ++ [u]))
      (.call f.text f args (f.span.merge u.span)) := by
  obtain ⟨rfl, rfl⟩ | ⟨vs, x, _, _, rfl, rfl, hx, more, rfl, rfl, hcommas, hmore⟩ := hargs
  · exact ⟨.emptyCall hf ht hu, Tree.accepted_iff.mpr ⟨haccepted, by simp⟩⟩
  · refine ⟨.call hf ht hx.1 hcommas (fun m hm ↦ (hmore m hm).1) hu,
      Tree.accepted_iff.mpr ⟨haccepted, ?_⟩⟩
    simpa using ⟨hx.2, fun m hm ↦ (hmore m hm).2⟩

theorem primary_meets {formula : TokenCursor → Outcome Tree}
    (hformula : FormulaSpec registry limit n formula) (hc : c.Closed)
    (hsign : Level.power.sign? c.kind = none) :
    (primary registry headroom formula c).Meets registry limit c
      fun ts x _ ↦ Reads registry (n + 1) .primary ts x := by
  have hleaf : ∀ {kind : LeafKind},
      DerivesWithin (n + 1) .primary [c.current] (.leaf kind c.current) →
      Reads registry (n + 1) .primary [c.current] (.leaf kind c.current) :=
    fun h ↦ ⟨h, Tree.accepted_iff.mpr ⟨trivial, by simp⟩⟩
  have hadvance : ∀ {kind : TokenKind}, c.kind = kind → kind ≠ .endOfInput →
      c.Passes [c.current] c.advance := fun h hne ↦ hc.passes_advance (h ▸ hne)
  rw [primary]
  split
  · next hkind => exact .done (hadvance hkind (by decide)) (hleaf (.number hkind))
  · next hkind => exact .done (hadvance hkind (by decide)) (hleaf (.identifier hkind))
  · next hkind =>
    have hname := hadvance hkind (by decide)
    refine .andThen hname (expect_meets (by decide) (hname.closed hc)) ?_
    rintro _ t c₁ ⟨rfl, ht⟩ hopening
    refine .andThen hopening (arguments_meets hformula (hopening.closed hc)) ?_
    rintro us args c₂ ⟨hus, hcomma, -⟩ hargs
    refine (finishCall_meets hargs (hargs.closed hc) List.mem_cons_self hkind hcomma).prepend
      (.refl c) ?_
    rintro _ _ _ ⟨u, rfl, hu, rfl, haccepted⟩
    exact reads_call hkind ht hu hus haccepted
  · next hkind =>
    have hopening := hadvance hkind (by decide)
    refine .andThen hopening (hformula _ (hopening.closed hc)) fun us x c₁ hus hx ↦ ?_
    refine .andThen hx (expect_meets (by decide) (hx.closed hc)) ?_
    rintro _ u c₂ ⟨rfl, hu⟩ hclose
    refine .done hclose ⟨?_, hus.2⟩
    exact .parenthesized hkind hus.1 hu
  · next hnumber hidentifier hfunction hparen =>
    refine unexpected_meets fun hmem ↦ ?_
    -- A sign is the only other token that starts an operand, and none stands here.
    simp only [Level.operandKinds, List.mem_cons, List.not_mem_nil, or_false] at hmem
    rcases hmem with h | h | h | h | h | h
    · exact hnumber h
    · exact hidentifier h
    · exact hfunction h
    · exact hparen h
    all_goals
      rw [h] at hsign
      cases hsign

/-- **Soundness**, by induction along the run. -/
theorem parseLevel_meets (level : Level) (hc : c.Closed)
    (hsign : level = .primary → Level.power.sign? c.kind = none) :
    (parseLevel registry limit headroom level c).Meets registry limit c
      fun ts x _ ↦ Reads registry headroom level ts x := by
  induction headroom, level, c, hc, hsign using inductOnLevels with
  | exhausted level c =>
    rw [parseLevel]
    exact ⟨[], .refl c, .tooDeep⟩
  | primary headroom c hc hsign ih =>
    rw [parseLevel_primary]
    exact primary_meets ih hc (hsign rfl)
  | sign headroom level c hc hsign hlevel o ho hpass ih =>
    rw [parseLevel_of_sign hlevel ho]
    refine .andThen hpass ih fun us x c' hus hx ↦ ?_
    refine .done hx ⟨.sign ho hus.1, Tree.accepted_iff.mpr ⟨trivial, ?_⟩⟩
    simpa using hus.2
  | operand headroom level c hc hsign hlevel hnone ih ihright =>
    rw [parseLevel_of_operand hlevel hnone]
    refine .andThen (.refl c) ih fun us x c' hus hx ↦ ?_
    cases ho : level.operator? c'.kind with
    | none => exact .done hx ⟨.tighter hlevel hus.1, hus.2⟩
    | some o =>
      obtain ⟨hpass, ihright⟩ := ihright _ c' o hx ho
      refine .andThen hpass ihright fun vs y c'' hvs hy ↦ ?_
      refine .done hy ⟨?_, Tree.accepted_iff.mpr ⟨trivial, ?_⟩⟩
      · rw [List.nil_append, List.append_assoc]
        exact .join hus.1 ho hvs.1
      · simpa using ⟨hus.2, hvs.2⟩

end Parser

end DecimalFormula
