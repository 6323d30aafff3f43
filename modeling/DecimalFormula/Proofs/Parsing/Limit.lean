import DecimalFormula.Proofs.Parsing.Derivability
import DecimalFormula.Proofs.Parsing.Headroom

/-!
# The limit on nesting

The limit of a fresh parser is a clean threshold (`Tree.limit_is_threshold`). Some tokens are nested
too deeply for every limit below a certain number, and for no other limit; from that number on the
answer is always the same, whether it is a tree or an error.

The number is at least eight, because the way down to a first operand takes all eight levels, and
at most eight for each token. Three sorts of formula are counted exactly: a parenthesis costs eight,
and an operand of a chain or an operator in front of a number costs one.
-/

namespace DecimalFormula

/-! ## Answers of a fresh parser -/

/-- What a fresh parser answers that comes to some outcome. -/
def Outcome.answer : Outcome Tree → Except ParseError Tree
  | done tree c =>
    if c.current.isEnd then .ok tree
    else .error ⟨.incompleteParse c.current, c.current.span, c.index⟩
  | stop error _ _ => .error error

theorem Outcome.answer_withoutHeadroom (outcome : Outcome Tree) :
    outcome.withoutHeadroom.answer = outcome.answer := by
  cases outcome <;> rfl

namespace Tree

open Outcome

variable {registry : Registry} {tokens : List Token} {limit n m : Nat}

theorem ofTokens_eq_answer (registry : Registry) (limit : Nat) (tokens : List Token) :
    ofTokens registry limit tokens =
      (Parser.parseLevel registry limit limit .disjunction (.start tokens)).answer := by
  rw [ofTokens_eq]
  cases Parser.parseLevel registry limit limit .disjunction (.start tokens) <;> rfl

/-- A fresh parser answers that the formula is nested too deeply under every limit below the
threshold, and otherwise always with one and the same tree or other error. -/
structure IsThreshold (registry : Registry) (tokens : List Token) (n : Nat) : Prop where
  /-- Smaller limits are too small. -/
  below : ∀ limit < n, ∃ span index,
    ofTokens registry limit tokens = .error ⟨.tooDeep limit, span, index⟩
  /-- For all others the limit plays no part. -/
  above : ∃ answer, (∀ limit span index, answer ≠ .error ⟨.tooDeep limit, span, index⟩) ∧
    ∀ limit, n ≤ limit → ofTokens registry limit tokens = answer

namespace IsThreshold

theorem ofThreshold {outcome : Outcome Tree} (h : Threshold
    (fun limit headroom ↦ Parser.parseLevel registry limit headroom .disjunction (.start tokens)) n
    outcome) : IsThreshold registry tokens n where
  below limit hlt := by
    have hdeep := h.below limit limit hlt
    rw [ofTokens_eq_answer]
    generalize Parser.parseLevel registry limit limit .disjunction (.start tokens) = run at hdeep ⊢
    match run, hdeep with
    | .stop ⟨_, span, index⟩ _ _, rfl => exact ⟨span, index, rfl⟩
  above := by
    refine ⟨outcome.answer, fun limit span index heq ↦ ?_, fun limit hle ↦ ?_⟩
    · cases outcome with
      | done tree c =>
        rw [answer] at heq
        split at heq <;> cases heq
      | stop e c left =>
        cases heq
        exact h.not_isTooDeep limit rfl
    · rw [ofTokens_eq_answer, ← answer_withoutHeadroom, h.above limit limit hle]

theorem le (h : IsThreshold registry tokens n) (h' : IsThreshold registry tokens m) : n ≤ m := by
  by_contra hlt
  obtain ⟨span, index, hbelow⟩ := h.below m (Nat.not_le.mp hlt)
  obtain ⟨answer, hanswer, habove⟩ := h'.above
  exact hanswer m span index ((habove m (Nat.le_refl m)).symm.trans hbelow)

theorem unique (h : IsThreshold registry tokens n) (h' : IsThreshold registry tokens m) : n = m :=
  Nat.le_antisymm (h.le h') (h'.le h)

/-- No answer but the complaint about the limit depends on it. -/
theorem ofTokens_eq_or_tooDeep (h : IsThreshold registry tokens n) {limit' : Nat}
    (hle : limit ≤ limit') :
    ofTokens registry limit tokens = ofTokens registry limit' tokens ∨
      ∃ span index, ofTokens registry limit tokens = .error ⟨.tooDeep limit, span, index⟩ := by
  by_cases hn : n ≤ limit
  · obtain ⟨answer, -, habove⟩ := h.above
    left
    rw [habove limit hn, habove limit' (Nat.le_trans hn hle)]
  · right
    exact h.below limit (Nat.not_le.mp hn)

end IsThreshold

theorem exists_isThreshold (registry : Registry) (tokens : List Token) :
    ∃ n, 8 ≤ n ∧ n ≤ 8 * (TokenCursor.closed tokens).length ∧ IsThreshold registry tokens n := by
  have hlength : 8 * (TokenCursor.start tokens).tokens.length ≤
      8 * (TokenCursor.closed tokens).length + Level.disjunction.rank := by
    rw [TokenCursor.tokens_start]
    exact Nat.le_add_right _ _
  obtain ⟨n, outcome, hn, hthreshold⟩ : HasThreshold (fun limit headroom ↦
      Parser.parseLevel registry limit headroom .disjunction (.start tokens)) _ :=
    Parser.parseLevel_hasThreshold .disjunction (TokenCursor.closed_start tokens) (by simp) hlength
  -- With less than eight levels the run would still be on its way down to the first operand.
  have hdeep : (Parser.parseLevel registry 0 7 .disjunction (.start tokens)).IsTooDeep 0 :=
    Parser.parseLevel_isTooDeep (by decide)
  exact ⟨n, hthreshold.lt_of_isTooDeep hdeep, hn, .ofThreshold hthreshold⟩

end Tree

/-! ## Formulas that are counted exactly -/

namespace Parser

/-- Numbers with operators between them. -/
def chain (first : Token) (links : List (Token × Token)) : List Token :=
  first :: links.flatMap fun link ↦ [link.1, link.2]

namespace Costs

variable {registry : Registry} {level : Level} {c c' : TokenCursor} {number : Token}

/-- A number is reached through all the levels from a given one on. -/
theorem number_of_passes (hnumber : number.kind = .number) (hpass : c.Passes [number] c')
    (hends : level.EndsBefore c'.kind) : Costs registry level c (8 - level.rank) c' := by
  have hkind : c.kind = .number := hpass.kind_eq.trans hnumber
  have hprimary : Costs registry .primary c 1 c' := hpass.advance_eq ▸ .number hkind
  have hrank := level.rank_le
  rw [show 8 - level.rank = 1 + (Level.primary.rank - level.rank) from by
    rw [show Level.primary.rank = 7 from rfl]; omega]
  exact hprimary.looser_of_rank_le hrank (.inl (by rw [hkind]; decide)) hends

/-- Every pair of parentheses costs eight levels. -/
theorem nested {opens closes : List Token} (hopens : ∀ t ∈ opens, t.kind = .leftParen)
    (hnumber : number.kind = .number) (hcloses : ∀ t ∈ closes, t.kind = .rightParen)
    (hlength : closes.length = opens.length) (hpass : c.Passes (opens ++ number :: closes) c')
    (hends : Level.disjunction.EndsBefore c'.kind) :
    Costs registry .disjunction c (8 * (opens.length + 1)) c' := by
  induction opens generalizing closes c c' with
  | nil =>
    obtain rfl := List.length_eq_zero_iff.mp hlength
    exact number_of_passes hnumber hpass hends
  | cons t opens ih =>
    obtain ⟨ht, hopens⟩ := List.forall_mem_cons.mp hopens
    obtain ⟨inner, u, rfl⟩ : ∃ inner u, closes = inner ++ [u] := by
      refine (List.eq_nil_or_concat' closes).resolve_left fun hnil ↦ ?_
      rw [hnil] at hlength
      cases hlength
    obtain ⟨hinner, hu⟩ := List.forall_mem_append.mp hcloses
    have hopening : c.kind = .leftParen := hpass.kind_eq.trans ht
    obtain ⟨c₁, hbetween, hclose⟩ :
        ∃ c₁, c.advance.Passes (opens ++ number :: inner) c₁ ∧ c₁.Passes [u] c' := by
      refine TokenCursor.Passes.exists_between ?_
      rw [List.append_assoc]
      exact hpass.of_cons.2
    have hkind : c₁.kind = .rightParen := hclose.kind_eq.trans (hu u List.mem_cons_self)
    have hends' : Level.disjunction.EndsBefore c₁.kind := by
      rw [hkind]
      exact Level.endsBefore_of_ofKind?_eq_none rfl
    have hcost := ih hopens hinner (by simpa using hlength) hbetween hends'
    have hprimary : Costs registry .primary c (8 * (opens.length + 1) + 1) c' :=
      hclose.advance_eq ▸ .parenthesized hopening hcost hkind
    exact hprimary.looser_of_rank_le (Nat.zero_le _) (.inl (by rw [hopening]; decide)) hends

/-- Every operator in front of a number costs one level. -/
theorem signed {signs : List Token} (hsigns : ∀ t ∈ signs, ∃ o, level.sign? t.kind = some o)
    (hnumber : number.kind = .number) (hpass : c.Passes (signs ++ [number]) c')
    (hends : level.EndsBefore c'.kind) :
    Costs registry level c (signs.length + (8 - level.rank)) c' := by
  induction signs generalizing c with
  | nil =>
    rw [List.length_nil, Nat.zero_add]
    exact number_of_passes hnumber hpass hends
  | cons t signs ih =>
    obtain ⟨⟨o, ho⟩, hsigns⟩ := List.forall_mem_cons.mp hsigns
    rw [← hpass.kind_eq] at ho
    rw [List.length_cons, Nat.add_right_comm]
    exact .sign ho (ih hsigns hpass.of_cons.2)

/-- Every operand of a chain costs one level, if the operators group to the right. -/
theorem chain {links : List (Token × Token)} (hright : level.right = level)
    (hnumber : number.kind = .number)
    (hlinks : ∀ l ∈ links, (∃ o, level.operator? l.1.kind = some o) ∧ l.2.kind = .number)
    (hpass : c.Passes (Parser.chain number links) c') (hends : level.EndsBefore c'.kind) :
    Costs registry level c (links.length + (8 - level.rank)) c' := by
  induction links generalizing number c with
  | nil =>
    rw [List.length_nil, Nat.zero_add]
    exact number_of_passes hnumber hpass hends
  | cons link links ih =>
    obtain ⟨⟨⟨o, ho⟩, hnext⟩, hlinks⟩ := List.forall_mem_cons.mp hlinks
    have hsign : level.sign? c.kind = none := by
      rw [hpass.kind_eq, hnumber]
      exact Level.sign?_eq_none_of_ne fun o' ho' ↦ by cases ho'
    obtain ⟨c₁, hfirst, hrest⟩ :
        ∃ c₁, c.Passes [number] c₁ ∧ c₁.Passes (link.1 :: Parser.chain link.2 links) c' := by
      refine TokenCursor.Passes.exists_between ?_
      rwa [Parser.chain, List.flatMap_cons] at hpass
    rw [← hrest.kind_eq] at ho
    have hleft : Costs registry level.tighter c (8 - level.tighter.rank) c₁ :=
      number_of_passes hnumber hfirst (Level.endsBefore_of_operator? ho)
    have hcost : Costs registry level.right c₁.advance (links.length + (8 - level.rank)) c' := by
      rw [hright]
      exact ih hnext hlinks hrest.of_cons.2
    have hjoin := join hsign hleft ho hcost
    -- What is left of the chain always costs more than the number in front of it.
    have hrank := Level.rank_tighter (Level.ne_primary_of_operator? ho)
    have htighter := level.tighter.rank_le
    rwa [show max (8 - level.tighter.rank) (links.length + (8 - level.rank)) + 1 =
      (link :: links).length + (8 - level.rank) from by rw [List.length_cons]; omega] at hjoin

end Costs

end Parser

namespace Tree

variable {registry : Registry} {body : List Token} {eof : Token} {n : Nat}

/-- A fresh parser reaches a level through all the looser ones. -/
theorem IsThreshold.ofCosts (level : Level) (hbody : ∀ t ∈ body, t.isEnd = false)
    (heof : eof.isEnd = true) (hstart : ∃ t rest, body = t :: rest ∧ level.CanStart t.kind)
    (h : ∀ c c' : TokenCursor, c.Passes body c' → level.EndsBefore c'.kind →
      Parser.Costs registry level c (n + (8 - level.rank)) c') :
    IsThreshold registry (body ++ [eof]) (n + 8) := by
  obtain ⟨t, rest, rfl, hfirst⟩ := hstart
  obtain ⟨c, hpass, hcurrent⟩ := TokenCursor.exists_passes_start hbody heof
  have hends (level : Level) : level.EndsBefore c.kind := by
    rw [TokenCursor.kind, hcurrent, Token.isEnd_iff.mp heof]
    exact Level.endsBefore_of_ofKind?_eq_none rfl
  rw [← hpass.kind_eq] at hfirst
  have hrank := level.rank_le
  obtain ⟨x, hx⟩ : Parser.Costs registry .disjunction _ _ c :=
    (h _ _ hpass (hends level)).looser_of_rank_le (Nat.zero_le _) hfirst (hends .disjunction)
  rw [show n + (8 - level.rank) + (level.rank - Level.disjunction.rank) = n + 8 from by
    rw [show Level.disjunction.rank = 0 from rfl]; omega] at hx
  exact .ofThreshold hx

theorem isThreshold_nested {opens closes : List Token} {number : Token} (heof : eof.isEnd = true)
    (hopens : ∀ t ∈ opens, t.kind = .leftParen) (hnumber : number.kind = .number)
    (hcloses : ∀ t ∈ closes, t.kind = .rightParen) (hlength : closes.length = opens.length) :
    IsThreshold registry (opens ++ number :: closes ++ [eof]) (8 * (opens.length + 1)) := by
  refine .ofCosts .disjunction (fun t ht ↦ ?_) heof ?_ fun c c' hpass hends ↦ ?_
  · rw [Token.isEnd_eq_false_iff]
    rcases List.mem_append.mp ht with ht | ht
    · rw [hopens t ht]
      decide
    rcases List.mem_cons.mp ht with rfl | ht
    · rw [hnumber]
      decide
    · rw [hcloses t ht]
      decide
  · cases opens with
    | nil => exact ⟨number, closes, rfl, .inl (by rw [hnumber]; decide)⟩
    | cons t opens => exact ⟨t, _, rfl, .inl (by rw [hopens t List.mem_cons_self]; decide)⟩
  · exact .nested hopens hnumber hcloses hlength hpass hends

theorem isThreshold_signed (level : Level) {signs : List Token} {number : Token}
    (heof : eof.isEnd = true) (hsigns : ∀ t ∈ signs, ∃ o, level.sign? t.kind = some o)
    (hnumber : number.kind = .number) :
    IsThreshold registry (signs ++ [number] ++ [eof]) (signs.length + 8) := by
  refine .ofCosts level (fun t ht ↦ ?_) heof ?_ fun c c' hpass hends ↦ ?_
  · rw [Token.isEnd_eq_false_iff]
    rcases List.mem_append.mp ht with ht | ht
    · obtain ⟨o, ho⟩ := hsigns t ht
      exact Level.ne_endOfInput_of_sign? ho
    · rw [List.mem_singleton.mp ht, hnumber]
      decide
  · cases signs with
    | nil => exact ⟨number, [], rfl, .inl (by rw [hnumber]; decide)⟩
    | cons t signs =>
      obtain ⟨o, ho⟩ := hsigns t List.mem_cons_self
      obtain ⟨hkind, hlevel⟩ := Level.sign?_eq_some_iff.mp ho
      exact ⟨t, _, rfl, .inr ⟨o, hkind, hlevel ▸ Nat.le_refl _⟩⟩
  · exact .signed hsigns hnumber hpass hends

theorem isThreshold_chain (level : Level) {number : Token} {links : List (Token × Token)}
    (heof : eof.isEnd = true) (hright : level.right = level) (hnumber : number.kind = .number)
    (hlinks : ∀ l ∈ links, (∃ o, level.operator? l.1.kind = some o) ∧ l.2.kind = .number) :
    IsThreshold registry (Parser.chain number links ++ [eof]) (links.length + 8) := by
  refine .ofCosts level (fun t ht ↦ ?_) heof ?_ fun c c' hpass hends ↦ ?_
  · rw [Token.isEnd_eq_false_iff]
    rcases List.mem_cons.mp ht with rfl | ht
    · rw [hnumber]
      decide
    obtain ⟨link, hlink, ht⟩ := List.mem_flatMap.mp ht
    obtain ⟨⟨o, ho⟩, hnext⟩ := hlinks link hlink
    rcases List.mem_pair.mp ht with rfl | rfl
    · exact Level.ne_endOfInput_of_operator? ho
    · rw [hnext]
      decide
  · exact ⟨number, _, rfl, .inl (by rw [hnumber]; decide)⟩
  · exact .chain hright hnumber hlinks hpass hends

/-- **The limit is a threshold.** On tokens that end with an end of input there is exactly one
number below which every limit is too small and from which on no limit makes a difference. So a
higher limit changes no answer but the complaint about the limit, and a lower one can only turn an
answer into that complaint. The number is known for numbers in parentheses, for chains of numbers
with operators that group to the right, and for signs or negations in front of a number. -/
theorem limit_is_threshold (registry : Registry) (heof : eof.isEnd = true) :
    (∀ init, ∃ n, 8 ≤ n ∧ n ≤ 8 * (init ++ [eof]).length ∧
      IsThreshold registry (init ++ [eof]) n ∧
      ∀ n', IsThreshold registry (init ++ [eof]) n' → n' = n) ∧
    (∀ init limit limit', limit ≤ limit' →
      ofTokens registry limit (init ++ [eof]) = ofTokens registry limit' (init ++ [eof]) ∨
      ∃ span index,
        ofTokens registry limit (init ++ [eof]) = .error ⟨.tooDeep limit, span, index⟩) ∧
    (∀ opens number closes, (∀ t ∈ opens, t.kind = .leftParen) → number.kind = .number →
      (∀ t ∈ closes, t.kind = .rightParen) → closes.length = opens.length →
      IsThreshold registry (opens ++ number :: closes ++ [eof]) (8 * (opens.length + 1))) ∧
    (∀ kinds ∈ [[.or], [.and], [.plus, .minus], [.times, .divide], [.power]],
      ∀ number links, number.kind = .number →
      (∀ l ∈ links, l.1.kind ∈ kinds ∧ l.2.kind = TokenKind.number) →
      IsThreshold registry (Parser.chain number links ++ [eof]) (links.length + 1 + 7)) ∧
    ∀ signs number, ((∀ t ∈ signs, t.kind ∈ [.plus, .minus]) ∨ ∀ t ∈ signs, t.kind = .not) →
      number.kind = .number →
      IsThreshold registry (signs ++ [number] ++ [eof]) (signs.length + 8) := by
  have hexists (init : List Token) := exists_isThreshold registry (init ++ [eof])
  simp only [TokenCursor.closed_append heof] at hexists
  refine ⟨fun init ↦ ?_, fun init limit limit' hle ↦ ?_, ?_, ?_, ?_⟩
  · obtain ⟨n, hmin, hmax, hn⟩ := hexists init
    exact ⟨n, hmin, hmax, hn, fun n' hn' ↦ hn'.unique hn⟩
  · obtain ⟨n, -, -, hn⟩ := hexists init
    exact hn.ofTokens_eq_or_tooDeep hle
  · intro opens number closes hopens hnumber hcloses hlength
    exact isThreshold_nested heof hopens hnumber hcloses hlength
  · intro kinds hkinds number links hnumber hlinks
    -- Each set of operators is that of a level which has itself on its right.
    obtain ⟨level, hright, hlevel⟩ : ∃ level : Level, level.right = level ∧
        ∀ kind ∈ kinds, (level.operator? kind).isSome := by
      simp only [List.mem_cons, List.not_mem_nil, or_false] at hkinds
      rcases hkinds with rfl | rfl | rfl | rfl | rfl
      · exact ⟨.disjunction, rfl, by decide⟩
      · exact ⟨.conjunction, rfl, by decide⟩
      · exact ⟨.sum, rfl, by decide⟩
      · exact ⟨.product, rfl, by decide⟩
      · exact ⟨.power, rfl, by decide⟩
    exact isThreshold_chain level heof hright hnumber fun l hl ↦
      ⟨Option.isSome_iff_exists.mp (hlevel _ (hlinks l hl).1), (hlinks l hl).2⟩
  · rintro signs number (hsigns | hsigns) hnumber
    · refine isThreshold_signed .power heof (fun t ht ↦ ?_) hnumber
      rcases List.mem_pair.mp (hsigns t ht) with h | h <;> rw [h] <;> exact ⟨_, rfl⟩
    · refine isThreshold_signed .negation heof (fun t ht ↦ ?_) hnumber
      rw [hsigns t ht]
      exact ⟨_, rfl⟩

/-- One subtraction needs nine levels. -/
theorem limit_is_threshold_subtraction :
    let one : Token := ⟨.number, "1", ⟨0, 1⟩⟩
    let minus : Token := ⟨.minus, "-", ⟨1, 2⟩⟩
    let two : Token := ⟨.number, "2", ⟨2, 3⟩⟩
    (Token.endAt 3).isEnd = true ∧
      IsThreshold .standard (Parser.chain one [(minus, two)] ++ [.endAt 3]) 9 := by
  intro one minus two
  have hend : (Token.endAt 3).isEnd = true := rfl
  obtain ⟨-, -, -, hchain, -⟩ := limit_is_threshold .standard hend
  refine ⟨hend, hchain [.plus, .minus] (by decide) one [(minus, two)] rfl fun l hl ↦ ?_⟩
  rw [List.mem_singleton.mp hl]
  exact ⟨by decide, rfl⟩

end Tree

end DecimalFormula
