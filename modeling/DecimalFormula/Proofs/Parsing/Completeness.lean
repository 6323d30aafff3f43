import DecimalFormula.Proofs.Parsing.Soundness

/-!
# What derives is parsed

The parser decides by the current token alone, so it follows a derivation only as far as the token
behind it lets it: `1+2` is a sum, but not in front of `*3`. A kind of token ends a level if it is
no operator of that level or a tighter one (`Level.EndsBefore`). In front of such a token every
derivation is followed to its end, with the headroom it is nested for.
-/

namespace DecimalFormula

namespace Level

/-- A token of this kind cannot go on a formula of the level. -/
def EndsBefore (level : Level) (kind : TokenKind) : Prop :=
  ∀ o, BinaryOp.ofKind? kind = some o → o.level.rank < level.rank

variable {level : Level} {kind : TokenKind}

theorem EndsBefore.operator?_eq_none (h : level.EndsBefore kind) : level.operator? kind = none :=
  operator?_eq_none_of_ne fun o ho heq ↦ by
    have := h o ho
    rw [heq] at this
    omega

theorem EndsBefore.of_rank_le {level' : Level} (h : level.EndsBefore kind)
    (hle : level.rank ≤ level'.rank) : level'.EndsBefore kind :=
  fun o ho ↦ Nat.lt_of_lt_of_le (h o ho) hle

theorem endsBefore_of_operator? {o : BinaryOp} (h : level.operator? kind = some o) :
    level.tighter.EndsBefore kind := by
  obtain ⟨hkind, rfl⟩ := operator?_eq_some_iff.mp h
  intro o' ho'
  rw [hkind, Option.some.injEq] at ho'
  rw [rank_tighter (ne_primary_of_operator? h), ← ho']
  exact Nat.lt_succ_self _

theorem endsBefore_of_ofKind?_eq_none (h : BinaryOp.ofKind? kind = none) : level.EndsBefore kind :=
  fun o ho ↦ by rw [h] at ho; cases ho

end Level

namespace Parser

variable {registry : Registry} {limit headroom n : Nat} {c c' : TokenCursor} {ts : List Token}

/-- What the lemmas on calls need to know of the function for formulas: it follows the derivation of
these tokens wherever the token behind them ends a formula. -/
def Follows (formula : TokenCursor → Outcome Tree) (ts : List Token) (x : Tree) : Prop :=
  ∀ c c' : TokenCursor, c.Passes ts c' → Level.disjunction.EndsBefore c'.kind →
    formula c = .done x c'

theorem expect_of_passes {kind : TokenKind} {t : Token} (hpass : c.Passes [t] c')
    (hkind : t.kind = kind) : expect kind headroom c = .done t c' := by
  rw [expect, if_pos (hpass.kind_eq.trans hkind), hpass.advance_eq, hpass.of_cons.1]

theorem endsBefore_behind_argument {more : List FurtherArgument}
    (hcommas : ∀ m ∈ more, m.comma.kind = .comma) (hpass : c.Passes (furtherTokens more) c')
    (hclose : c'.kind = .rightParen) : Level.disjunction.EndsBefore c.kind := by
  refine Level.endsBefore_of_ofKind?_eq_none ?_
  cases more with
  | nil =>
    obtain rfl : c = c' := (TokenCursor.Passes.refl c).unique hpass
    rw [hclose]
    rfl
  | cons m more =>
    rw [hpass.kind_eq, hcommas m List.mem_cons_self]
    rfl

theorem moreArguments_of_passes {argument : TokenCursor → Outcome Tree}
    {more : List FurtherArgument} (hcommas : ∀ m ∈ more, m.comma.kind = .comma)
    (hmore : ∀ m ∈ more, Follows argument m.tokens m.tree) {fuel : Nat}
    (hpass : c.Passes (furtherTokens more) c') (hclose : c'.kind = .rightParen)
    (hfuel : (furtherTokens more).length ≤ fuel) :
    moreArguments argument fuel c = .done (more.map FurtherArgument.tree) c' := by
  induction more generalizing c fuel with
  | nil =>
    obtain rfl : c = c' := (TokenCursor.Passes.refl c).unique hpass
    cases fuel with
    | zero => rfl
    | succ fuel => rw [moreArguments, if_neg (by rw [hclose]; decide)]; rfl
  | cons m more ih =>
    rw [furtherTokens, List.flatMap_cons, ← furtherTokens] at hpass hfuel
    rw [List.length_append, List.length_cons] at hfuel
    cases fuel with
    | zero => omega
    | succ fuel =>
      obtain ⟨c₁, hfirst, hrest⟩ := hpass.exists_between
      have hcomma : c.kind = .comma := hfirst.kind_eq.trans (hcommas m List.mem_cons_self)
      have hcommas' := fun m' hm' ↦ hcommas m' (List.mem_cons_of_mem m hm')
      have hends := endsBefore_behind_argument hcommas' hrest hclose
      rw [moreArguments, if_pos hcomma, hmore m List.mem_cons_self _ _ hfirst.of_cons.2 hends,
        Outcome.andThen_done,
        ih hcommas' (fun m' hm' ↦ hmore m' (List.mem_cons_of_mem _ hm')) hrest (by omega)]
      rfl

theorem finishCall_of_passes {name u : Token} {args : List Tree} (hpass : c.Passes [u] c')
    (hclose : u.kind = .rightParen)
    (haccepted : (Tree.call name.text name args (name.span.merge u.span)).CallAccepted registry) :
    finishCall registry headroom name args c =
      .done (.call name.text name args (name.span.merge u.span)) c' := by
  obtain ⟨arity, harity, haccepts⟩ := haccepted
  rw [finishCall, if_pos (hpass.kind_eq.trans hclose), harity, hpass.of_cons.1]
  simp only [haccepts, if_true]
  rw [hpass.advance_eq]

theorem arguments_nil {argument : TokenCursor → Outcome Tree} (hclose : c.kind = .rightParen) :
    arguments argument c = .done [] c := by
  rw [arguments, if_pos hclose]

theorem arguments_of_passes {argument : TokenCursor → Outcome Tree} {t : Token} {us : List Token}
    {x : Tree} {more : List FurtherArgument} (hfirst : t.kind ≠ .rightParen)
    (hx : Follows argument (t :: us) x) (hcommas : ∀ m ∈ more, m.comma.kind = .comma)
    (hmore : ∀ m ∈ more, Follows argument m.tokens m.tree)
    (hpass : c.Passes (t :: us ++ furtherTokens more) c') (hclose : c'.kind = .rightParen) :
    arguments argument c = .done (x :: more.map FurtherArgument.tree) c' := by
  obtain ⟨c₁, hus, hrest⟩ := hpass.exists_between
  have hfuel : (furtherTokens more).length ≤ c₁.tokens.length := by
    rw [hrest.tokens_eq, List.length_append]
    exact Nat.le_add_right ..
  rw [arguments, if_neg (by rw [hus.kind_eq]; exact hfirst),
    hx _ _ hus (endsBefore_behind_argument hcommas hrest hclose), Outcome.andThen_done,
    moreArguments_of_passes hcommas hmore hrest hclose hfuel]
  rfl

theorem primary_of_call {formula : TokenCursor → Outcome Tree} {f t u : Token} (us : List Token)
    {args : List Tree} (hf : f.kind = .function) (ht : t.kind = .leftParen)
    (hu : u.kind = .rightParen) (hargs : ∀ c c' : TokenCursor, c.Passes us c' →
      c'.kind = .rightParen → arguments formula c = .done args c')
    (haccepted : (Tree.call f.text f args (f.span.merge u.span)).CallAccepted registry)
    (hpass : c.Passes (f :: t :: (us ++ [u])) c') :
    primary registry headroom formula c =
      .done (.call f.text f args (f.span.merge u.span)) c' := by
  obtain ⟨hcurrent, hbehind⟩ := hpass.of_cons
  obtain ⟨c₁, hopening, hinner⟩ :=
    (show c.advance.Passes ([t] ++ (us ++ [u])) c' from hbehind).exists_between
  obtain ⟨c₂, hus, hclose⟩ := hinner.exists_between
  rw [primary, hpass.kind_eq, hf]
  simp only [expect_of_passes hopening ht, Outcome.andThen_done,
    hargs _ _ hus (hclose.kind_eq.trans hu), hcurrent]
  exact finishCall_of_passes hclose hu haccepted

theorem sign?_eq_none_of_passes {level : Level} {x : Tree} (hlevel : level ≠ .primary)
    (hx : DerivesWithin n level.tighter ts x) (hpass : c.Passes ts c') :
    level.sign? c.kind = none := by
  obtain ⟨t, rest, rfl, hfirst⟩ := hx.exists_cons
  rw [hpass.kind_eq]
  -- A sign of the level could not start a formula of the next tighter one.
  refine Level.sign?_eq_none_of_ne fun o ho heq ↦ ?_
  have := hfirst.rank_le ho
  rw [heq, Level.rank_tighter hlevel] at this
  omega

/-- **Completeness.** In front of a token that ends its level, a derivation is followed to its end. -/
theorem parseLevel_of_derivesWithin {level : Level} {x : Tree} (h : DerivesWithin n level ts x)
    (haccepted : x.Accepted registry) (hpass : c.Passes ts c') (hends : level.EndsBefore c'.kind) :
    parseLevel registry limit n level c = .done x c' := by
  induction h generalizing c c' with
  | @tighter n level ts x hlevel hx ih =>
    have hends' : level.tighter.EndsBefore c'.kind := hends.of_rank_le <| by
      rw [Level.rank_tighter hlevel]
      exact Nat.le_succ _
    -- No operator of the level follows, so the run does not go on behind the tighter part.
    rw [parseLevel_succ hlevel, sign?_eq_none_of_passes hlevel hx hpass]
    simp only [ih haccepted hpass hends', Outcome.andThen_done, hends.operator?_eq_none]
  | @sign n level t o ts x ho hx ih =>
    have hlevel := Level.ne_primary_of_sign? ho
    obtain ⟨hcurrent, hrest⟩ := hpass.of_cons
    have haccepted := (Tree.accepted_iff.mp haccepted).2 x (by simp)
    rw [parseLevel_succ hlevel, hpass.kind_eq, ho, hcurrent]
    simp only [ih haccepted hrest hends, Outcome.andThen_done]
  | @join n level xs x t o ys y hx ho hy ihx ihy =>
    have hlevel := Level.ne_primary_of_operator? ho
    obtain ⟨c₁, hleft, hrest⟩ := hpass.exists_between
    obtain ⟨hcurrent, hright⟩ := hrest.of_cons
    have haccepted := (Tree.accepted_iff.mp haccepted).2
    -- The operator itself is what ends the tighter part in front of it.
    have hmiddle : level.tighter.EndsBefore c₁.kind := by
      rw [hrest.kind_eq]
      exact Level.endsBefore_of_operator? ho
    rw [parseLevel_succ hlevel, sign?_eq_none_of_passes hlevel hx hleft]
    simp only [ihx (haccepted x (by simp)) hleft hmiddle, Outcome.andThen_done]
    rw [hrest.kind_eq, ho, hcurrent]
    simp only [ihy (haccepted y (by simp)) hright (hends.of_rank_le level.rank_le_rank_right),
      Outcome.andThen_done]
  | @number n t hk =>
    rw [parseLevel, primary, hpass.kind_eq, hk, hpass.of_cons.1, hpass.advance_eq]
  | @identifier n t hk =>
    rw [parseLevel, primary, hpass.kind_eq, hk, hpass.of_cons.1, hpass.advance_eq]
  | @parenthesized n t xs x u ht _ hu ih =>
    obtain ⟨c₁, hinner, hclose⟩ := hpass.of_cons.2.exists_between
    have hends' : Level.disjunction.EndsBefore c₁.kind := by
      rw [hclose.kind_eq, hu]
      exact Level.endsBefore_of_ofKind?_eq_none rfl
    rw [parseLevel, primary, hpass.kind_eq, ht]
    simp only [ih haccepted hinner hends', expect_of_passes hclose hu, Outcome.andThen_done]
  | emptyCall hf ht hu =>
    rw [parseLevel]
    refine primary_of_call [] hf ht hu (fun c c' hpass hclose ↦ ?_)
      (Tree.accepted_iff.mp haccepted).1 hpass
    obtain rfl : c = c' := (TokenCursor.Passes.refl c).unique hpass
    exact arguments_nil hclose
  | @call n f t xs x more u hf ht hx hcommas hmore hu ihx ihmore =>
    obtain ⟨hcall, hchildren⟩ := Tree.accepted_iff.mp haccepted
    rw [parseLevel]
    refine primary_of_call _ hf ht hu (fun c c' hpass hclose ↦ ?_) hcall hpass
    obtain ⟨t, us, rfl, hfirst⟩ := hx.exists_cons
    refine arguments_of_passes hfirst.ne_rightParen (fun c c' ↦ ihx (hchildren x (by simp))) hcommas
      (fun m hm c c' ↦ ihmore m hm (hchildren m.tree ?_)) hpass hclose
    exact List.mem_cons_of_mem _ (List.mem_map_of_mem hm)

end Parser

end DecimalFormula
