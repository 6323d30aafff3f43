import DecimalFormula.Proofs.Grammar.Parentheses
import DecimalFormula.Proofs.Grammar.Prefixes

/-!
# What a place in a formula asks for

Which kinds of token can come next is a matter of what stands directly in front: behind an operator
an operand of some level has to start, behind an operand there is none to come. A `Position` is what
there is to know of a place for that, and the tokens of a formula lead from one position to the next
(`Position.next?`). Where a formula of a level has to start, the tokens of one lead behind an
operand (`Position.after?_of_isFormula`). So what follows the beginning of a formula is a token for
which the position there has a next one (`Position.exists_after?_of_begins`).

Positions know neither which parentheses are open nor whether there was a comparison already. Behind
an operand they let through more than the grammar does. Only in front of operands are they exact,
and there it matters how loose a formula may be: `!` starts negations and what is looser, and so it
can stand at the start, behind a parenthesis or a comma and behind a logical operator, but behind no
other operator (`Position.isSome_next?_not_iff`).
-/

namespace DecimalFormula

/-- A place in front of a token of a formula. -/
inductive Position
  /-- A formula of a level has to start. -/
  | operand (level : Level)
  /-- Behind the name of a function. -/
  | name
  /-- Behind the parenthesis that opens a call, where it can also be closed. -/
  | opening
  /-- Behind an operand. -/
  | behind
deriving DecidableEq, Repr

/-- The place behind the first token of a formula, if its kind is one that a formula of the level
can start with. -/
def Level.behindFirst? (level : Level) (kind : TokenKind) : Option Position :=
  match kind with
  | .number | .identifier => some .behind
  | .function => some .name
  | .leftParen => some (.operand .disjunction)
  | kind =>
    ((UnaryOp.ofKind? kind).filter (level.rank ≤ ·.level.rank)).map fun o ↦ .operand o.level

namespace Position

/-- The place behind a token of some kind, if one can stand here. -/
def next? : Position → TokenKind → Option Position
  | operand level, kind => level.behindFirst? kind
  | name, kind => if kind = .leftParen then some opening else none
  | opening, kind =>
    if kind = .rightParen then some behind else Level.disjunction.behindFirst? kind
  | behind, kind =>
    if kind = .rightParen then some behind
    else if kind = .comma then some (operand .disjunction)
    else (BinaryOp.ofKind? kind).map fun o ↦ operand o.level.right

/-- The place behind some tokens, if they can stand here. -/
def after? (p : Position) : List Token → Option Position
  | [] => some p
  | t :: ts => (p.next? t.kind).bind fun q ↦ q.after? ts

/-- Whether the next token can be the first of an operand. -/
def awaitsOperand : Position → Bool
  | operand _ | opening => true
  | name | behind => false

def start : Position := operand .disjunction

/-- What can stand at a place can also stand at another one, and leads to the same place. -/
def Refines (p q : Position) : Prop := ∀ kind r, p.next? kind = some r → q.next? kind = some r

variable {p q r : Position} {level looser : Level} {kind : TokenKind} {t : Token}
  {ts us : List Token}

/-! ## Tokens in a row -/

theorem after?_cons (h : p.next? t.kind = some q) : p.after? (t :: ts) = q.after? ts := by
  rw [after?, h, Option.bind_some]

theorem after?_singleton (p : Position) (t : Token) : p.after? [t] = p.next? t.kind := by
  rw [after?]
  cases p.next? t.kind <;> rfl

theorem after?_append (p : Position) (ts us : List Token) :
    p.after? (ts ++ us) = (p.after? ts).bind fun q ↦ q.after? us := by
  induction ts generalizing p with
  | nil => rfl
  | cons t ts ih =>
    rw [List.cons_append, after?, after?]
    cases p.next? t.kind with
    | none => rfl
    | some q => exact ih q

theorem after?_append_of_eq (h : p.after? ts = some q) : p.after? (ts ++ us) = q.after? us := by
  rw [after?_append, h, Option.bind_some]

theorem Refines.after? (hrefines : p.Refines q) (hts : ts ≠ []) (h : p.after? ts = some r) :
    q.after? ts = some r := by
  obtain ⟨t, ts, rfl⟩ := List.exists_cons_of_ne_nil hts
  obtain ⟨p', hnext, hp'⟩ := Option.bind_eq_some_iff.mp h
  rw [after?_cons (hrefines _ _ hnext), hp']

/-! ## First tokens -/

theorem behindFirst?_of_ofKind? {o : UnaryOp} (h : UnaryOp.ofKind? kind = some o)
    (hrank : level.rank ≤ o.level.rank) : level.behindFirst? kind = some (operand o.level) := by
  have hsign : ((UnaryOp.ofKind? kind).filter (level.rank ≤ ·.level.rank)).map
      (fun o ↦ operand o.level) = some (operand o.level) := by
    rw [h, Option.filter_some, if_pos (decide_eq_true hrank), Option.map_some]
  rw [← hsign]
  cases kind with
  | number | identifier | function | leftParen => cases h
  | _ => rfl

theorem behindFirst?_isSome_iff :
    (level.behindFirst? kind).isSome = true ↔ level.CanStart kind := by
  constructor
  · intro h
    unfold Level.behindFirst? at h
    split at h
    · exact .inl (by decide)
    · exact .inl (by decide)
    · exact .inl (by decide)
    · exact .inl (by decide)
    · rw [Option.isSome_map] at h
      obtain ⟨o, ho⟩ := Option.isSome_iff_exists.mp h
      obtain ⟨hkind, hrank⟩ := Option.filter_eq_some_iff.mp ho
      exact .inr ⟨o, hkind, of_decide_eq_true hrank⟩
  · rintro (h | ⟨o, ho, hrank⟩)
    · simp only [List.mem_cons, List.not_mem_nil, or_false] at h
      rcases h with rfl | rfl | rfl | rfl <;> rfl
    · rw [behindFirst?_of_ofKind? ho hrank, Option.isSome_some]

theorem refines_operand (hrank : looser.rank ≤ level.rank) :
    (operand level).Refines (operand looser) := by
  intro kind r h
  change level.behindFirst? kind = some r at h
  change looser.behindFirst? kind = some r
  unfold Level.behindFirst? at h ⊢
  split at h
  · exact h
  · exact h
  · exact h
  · exact h
  · obtain ⟨o, ho, rfl⟩ := Option.map_eq_some_iff.mp h
    obtain ⟨hkind, hfits⟩ := Option.filter_eq_some_iff.mp ho
    rw [hkind, Option.filter_some,
      if_pos (decide_eq_true (Nat.le_trans hrank (of_decide_eq_true hfits)))]
    rfl

theorem refines_tighter (hlevel : level ≠ .primary) :
    (operand level.tighter).Refines (operand level) :=
  refines_operand (by rw [Level.rank_tighter hlevel]; exact Nat.le_succ _)

theorem refines_opening : (operand .disjunction).Refines opening := by
  intro kind r h
  rw [next?, if_neg]
  · exact h
  · rintro rfl
    cases h

/-! ## Formulas -/

theorem next?_of_sign? {o : UnaryOp} (h : level.sign? kind = some o) :
    (operand level).next? kind = some (operand level) := by
  obtain ⟨hkind, rfl⟩ := Level.sign?_eq_some_iff.mp h
  exact behindFirst?_of_ofKind? hkind (Nat.le_refl _)

theorem next?_of_operator? {o : BinaryOp} (h : level.operator? kind = some o) :
    behind.next? kind = some (operand level.right) := by
  obtain ⟨hkind, rfl⟩ := Level.operator?_eq_some_iff.mp h
  have hclose : kind ≠ .rightParen := Level.ne_of_operator? h rfl
  have hcomma : kind ≠ .comma := Level.ne_of_operator? h rfl
  rw [next?, if_neg hclose, if_neg hcomma, hkind, Option.map_some]

theorem next?_comma (h : t.kind = .comma) : behind.next? t.kind = some (operand .disjunction) := by
  rw [h]
  rfl

theorem next?_rightParen (h : t.kind = .rightParen) : behind.next? t.kind = some behind := by
  rw [h]
  rfl

theorem after?_opening {f : Token} (hf : f.kind = .function) (ht : t.kind = .leftParen) :
    (operand .primary).after? (f :: t :: ts) = opening.after? ts := by
  have hname : (operand .primary).next? f.kind = some name := by rw [hf]; rfl
  have hopen : name.next? t.kind = some opening := by rw [ht]; rfl
  rw [after?_cons hname, after?_cons hopen]

/-- Arguments behind the first one lead from behind an operand to behind another. -/
theorem after?_furtherTokens {more : List FurtherArgument}
    (hcommas : ∀ m ∈ more, m.comma.kind = .comma)
    (hmore : ∀ m ∈ more, (operand .disjunction).after? m.tokens = some behind) :
    behind.after? (furtherTokens more) = some behind := by
  induction more with
  | nil => rfl
  | cons m more ih =>
    obtain ⟨hcomma, hcommas⟩ := List.forall_mem_cons.mp hcommas
    obtain ⟨hm, hmore⟩ := List.forall_mem_cons.mp hmore
    rw [furtherTokens, List.flatMap_cons, ← furtherTokens, List.cons_append,
      after?_cons (next?_comma hcomma), after?_append_of_eq hm, ih hcommas hmore]

theorem after?_of_derivesWithin {n : Nat} {x : Tree} (h : DerivesWithin n level ts x) :
    (operand level).after? ts = some behind := by
  induction h with
  | tighter hlevel h ih =>
    obtain ⟨t, rest, rfl, -⟩ := h.exists_cons
    exact (refines_tighter hlevel).after? (List.cons_ne_nil t rest) ih
  | sign ht _ ih => rw [after?_cons (next?_of_sign? ht), ih]
  | join hx ht _ ihx ihy =>
    obtain ⟨t, rest, rfl, -⟩ := hx.exists_cons
    have hlevel := Level.ne_primary_of_operator? ht
    have hleft := (refines_tighter hlevel).after? (List.cons_ne_nil t rest) ihx
    rw [after?_append_of_eq hleft, after?_cons (next?_of_operator? ht), ihy]
  | number ht | identifier ht =>
    rw [after?_singleton, ht]
    rfl
  | @parenthesized _ t xs _ u ht _ hu ih =>
    have hopen : (operand .primary).next? t.kind = some (operand .disjunction) := by rw [ht]; rfl
    rw [after?_cons hopen, after?_append_of_eq ih, after?_singleton, next?_rightParen hu]
  | @emptyCall _ f t u hf ht hu =>
    rw [after?_opening hf ht, after?_singleton, hu]
    rfl
  | @call _ f t xs _ more u hf ht hx hcommas _ hu ihx ihmore =>
    obtain ⟨v, rest, rfl, -⟩ := hx.exists_cons
    have hfirst := refines_opening.after? (List.cons_ne_nil v rest) ihx
    have hmore := after?_furtherTokens hcommas ihmore
    have hargs : opening.after? (v :: rest ++ furtherTokens more) = some behind := by
      rw [after?_append_of_eq hfirst, hmore]
    rw [after?_opening hf ht, after?_append_of_eq hargs, after?_singleton, next?_rightParen hu]

theorem after?_of_isFormula (h : IsFormula level ts) :
    (operand level).after? ts = some behind := by
  obtain ⟨n, x, hx⟩ := h.exists_within
  exact after?_of_derivesWithin hx

theorem after?_of_areFurther (h : AreFurther ts) : behind.after? ts = some behind := by
  obtain ⟨more, rfl, hcommas, hmore⟩ := h
  exact after?_furtherTokens hcommas fun m hm ↦ after?_of_isFormula ⟨_, hmore m hm⟩

theorem after?_of_areArguments (h : AreArguments ts) (hne : ts ≠ []) :
    opening.after? ts = some behind := by
  obtain hnil | ⟨xs, ys, rfl, hxs, hys⟩ := h
  · exact absurd hnil hne
  have hfirst : xs ≠ [] := by
    rintro rfl
    cases after?_of_isFormula hxs
  have hxs := refines_opening.after? hfirst (after?_of_isFormula hxs)
  rw [after?_append_of_eq hxs, after?_of_areFurther hys]

/-- What follows the beginning of a formula can stand at the place there. -/
theorem exists_after?_of_begins (h : Begins (IsFormula level) (ts ++ [t])) :
    ∃ q, (operand level).after? ts = some q ∧ (q.next? t.kind).isSome = true := by
  obtain ⟨rest, hrest⟩ := h
  have hwhole := after?_of_isFormula hrest
  rw [List.append_assoc, after?_append] at hwhole
  obtain ⟨q, hq, hnext⟩ := Option.bind_eq_some_iff.mp hwhole
  obtain ⟨r, hr, -⟩ := Option.bind_eq_some_iff.mp hnext
  exact ⟨q, hq, Option.isSome_iff_exists.mpr ⟨r, hr⟩⟩

/-! ## Where operands are due -/

theorem isSome_next?_number_iff : (p.next? .number).isSome = true ↔ p.awaitsOperand = true := by
  cases p with
  | operand | opening => exact iff_of_true rfl rfl
  | name | behind => exact iff_of_false nofun nofun

/-- What the place behind a token is, by the kind of the token. Only for a parenthesis it matters
what stands in front of it. -/
inductive Reached (p : Position) (kind : TokenKind) : Position → Prop
  /-- The token ends an operand. -/
  | behind : kind ∈ [.number, .identifier, .rightParen] → Reached p kind behind
  /-- The token is the name of a function. -/
  | name : kind = .function → Reached p kind name
  /-- The token opens a call. -/
  | opening : p = Position.name → kind = .leftParen → Reached p kind opening
  /-- Behind the token stands a formula of its own. -/
  | formula : kind = .leftParen ∨ kind = .comma → Reached p kind (operand .disjunction)
  | sign {o} : UnaryOp.ofKind? kind = some o → Reached p kind (operand o.level)
  | operator {o} : BinaryOp.ofKind? kind = some o → Reached p kind (operand o.level.right)

theorem reached_of_behindFirst? (h : level.behindFirst? kind = some q) : Reached p kind q := by
  unfold Level.behindFirst? at h
  split at h
  · cases h
    exact .behind (by decide)
  · cases h
    exact .behind (by decide)
  · cases h
    exact .name rfl
  · cases h
    exact .formula (.inl rfl)
  · obtain ⟨o, ho, rfl⟩ := Option.map_eq_some_iff.mp h
    exact .sign (Option.filter_eq_some_iff.mp ho).1

theorem reached_of_next? (h : p.next? kind = some q) : Reached p kind q := by
  cases p with
  | operand level => exact reached_of_behindFirst? h
  | name =>
    rw [next?] at h
    split at h
    · next hkind =>
      cases h
      exact .opening rfl hkind
    · cases h
  | opening =>
    rw [next?] at h
    split at h
    · next hkind =>
      cases h
      exact .behind (by rw [hkind]; decide)
    · exact reached_of_behindFirst? h
  | behind =>
    rw [next?] at h
    split at h
    · next hkind =>
      cases h
      exact .behind (by rw [hkind]; decide)
    split at h
    · next hcomma =>
      cases h
      exact .formula (.inr hcomma)
    · obtain ⟨o, ho, rfl⟩ := Option.map_eq_some_iff.mp h
      exact .operator ho

theorem exists_of_after?_append_singleton (h : p.after? (ts ++ [t]) = some q) :
    ∃ r, p.after? ts = some r ∧ r.next? t.kind = some q := by
  rw [after?_append] at h
  obtain ⟨r, hr, hnext⟩ := Option.bind_eq_some_iff.mp h
  exact ⟨r, hr, (after?_singleton r t).symm.trans hnext⟩

/-- A place is the first one, or it is reached by a token from the place in front of it. -/
theorem eq_nil_or_reached (h : p.after? ts = some q) : ts = [] ∧ p = q ∨
    ∃ init t r, ts = init ++ [t] ∧ p.after? init = some r ∧ Reached r t.kind q := by
  rcases List.eq_nil_or_concat ts with rfl | ⟨init, t, rfl⟩
  · exact .inl ⟨rfl, Option.some.inj h⟩
  · rw [List.concat_eq_append] at h ⊢
    obtain ⟨r, hr, hnext⟩ := exists_of_after?_append_singleton h
    exact .inr ⟨init, t, r, rfl, hr, reached_of_next? hnext⟩

end Position

/-! ### Negations and calls without arguments -/

/-- A negation can start behind some tokens: there are none, or the last of them opens something,
separates arguments or is a logical operator. -/
def NegationDue (before : List Token) : Prop :=
  ∀ t ∈ before.getLast?, t.kind ∈ [.leftParen, .comma, .or, .and, .not]

/-- The last of some tokens are the name of a function and the parenthesis that opens its call. -/
def OpensCall (before : List Token) : Prop :=
  ∃ init f t, before = init ++ [f, t] ∧ f.kind = .function ∧ t.kind = .leftParen

theorem negationDue_append_singleton {before : List Token} {t : Token} :
    NegationDue (before ++ [t]) ↔ t.kind ∈ [.leftParen, .comma, .or, .and, .not] := by
  rw [NegationDue, List.getLast?_concat]
  simp

theorem OpensCall.negationDue {before : List Token} (h : OpensCall before) :
    NegationDue before := by
  obtain ⟨init, f, t, rfl, -, ht⟩ := h
  rw [← List.singleton_append, ← List.append_assoc, negationDue_append_singleton, ht]
  decide

theorem Level.canStart_not_iff {level : Level} :
    level.CanStart .not ↔ level.rank ≤ Level.negation.rank :=
  ⟨fun h ↦ h.rank_le rfl, fun h ↦ .inr ⟨.not, rfl, h⟩⟩

namespace Position

variable {q : Position} {before : List Token} {kind : TokenKind}

theorem isSome_next?_not_iff (h : start.after? before = some q) (hq : q.awaitsOperand = true) :
    (q.next? .not).isSome = true ↔ NegationDue before := by
  have hlevel (level : Level) : ((operand level).next? .not).isSome = true ↔
      level.rank ≤ Level.negation.rank :=
    behindFirst?_isSome_iff.trans Level.canStart_not_iff
  rcases eq_nil_or_reached h with ⟨rfl, rfl⟩ | ⟨init, t, p, rfl, -, hreached⟩
  · exact iff_of_true rfl nofun
  rw [negationDue_append_singleton]
  cases hreached with
  | behind | name => cases hq
  | opening _ hkind =>
    rw [hkind]
    exact iff_of_true rfl (by decide)
  | formula hkind =>
    refine iff_of_true rfl ?_
    rcases hkind with hkind | hkind <;> rw [hkind] <;> decide
  | sign ho | operator ho =>
    rw [hlevel]
    revert ho
    cases t.kind <;> rintro ⟨⟩ <;> decide

/-- Only the parenthesis that opens a call can be closed at once. -/
theorem isSome_next?_rightParen_iff (h : start.after? before = some q)
    (hq : q.awaitsOperand = true) :
    (q.next? .rightParen).isSome = true ↔ OpensCall before := by
  constructor
  · intro hclose
    rcases eq_nil_or_reached h with ⟨rfl, rfl⟩ | ⟨init, t, p, rfl, hp, hreached⟩
    · cases hclose
    cases hreached with
    | behind | name => cases hq
    | formula => cases hclose
    | sign => cases hclose
    | operator => cases hclose
    | opening hname ht =>
      subst hname
      rcases eq_nil_or_reached hp with ⟨-, hstart⟩ | ⟨init, f, p', rfl, -, hreached⟩
      · cases hstart
      cases hreached with
      | name hf => exact ⟨init, f, t, by rw [List.append_assoc]; rfl, hf, ht⟩
  · rintro ⟨init, f, t, rfl, hf, ht⟩
    rw [← List.singleton_append, ← List.append_assoc] at h
    obtain ⟨p, hp, hopening⟩ := exists_of_after?_append_singleton h
    obtain ⟨p', -, hname⟩ := exists_of_after?_append_singleton hp
    rw [hf] at hname
    rw [ht] at hopening
    obtain rfl : p = name := by cases p' <;> cases hname <;> rfl
    cases hopening
    rfl

theorem ne_primary_of_after? {level : Level} (h : start.after? before = some (operand level)) :
    level ≠ .primary := by
  rcases eq_nil_or_reached h with ⟨-, hstart⟩ | ⟨init, t, p, -, -, hreached⟩
  · cases hstart
    decide
  cases hreached with
  | formula => decide
  | @sign o => cases o <;> decide
  | @operator o => cases o <;> decide

theorem canStart_of_isSome_next? (hq : q.awaitsOperand = true) (hclose : kind ≠ .rightParen)
    (h : (q.next? kind).isSome = true) : ∃ level : Level, level.CanStart kind := by
  cases q with
  | operand level => exact ⟨level, behindFirst?_isSome_iff.mp h⟩
  | opening =>
    rw [next?, if_neg hclose] at h
    exact ⟨.disjunction, behindFirst?_isSome_iff.mp h⟩
  | name | behind => cases hq

/-- **What can stand where an operand is due**: the tokens that start one, `!` if it may be a
negation, and the parenthesis that closes a call without arguments. -/
theorem isSome_next?_iff (h : start.after? before = some q) (hq : q.awaitsOperand = true) :
    (q.next? kind).isSome = true ↔ kind ∈ Level.operandKinds ∨
      kind = .not ∧ NegationDue before ∨ kind = .rightParen ∧ OpensCall before := by
  constructor
  · intro hnext
    by_cases hclose : kind = .rightParen
    · subst hclose
      exact .inr (.inr ⟨rfl, (isSome_next?_rightParen_iff h hq).mp hnext⟩)
    obtain ⟨level, hstart⟩ := canStart_of_isSome_next? hq hclose hnext
    rcases hstart.mem_operandKinds_or with hmem | rfl
    · exact .inl hmem
    · exact .inr (.inl ⟨rfl, (isSome_next?_not_iff h hq).mp hnext⟩)
  · rintro (hmem | ⟨rfl, hdue⟩ | ⟨rfl, hopens⟩)
    · cases q with
      | operand level =>
        exact behindFirst?_isSome_iff.mpr
          (Level.canStart_of_mem_operandKinds hmem (ne_primary_of_after? h))
      | opening =>
        have hstart : (operand .disjunction).next? kind ≠ none :=
          Option.isSome_iff_ne_none.mp (behindFirst?_isSome_iff.mpr
            (Level.canStart_of_mem_operandKinds hmem (by decide)))
        obtain ⟨r, hr⟩ := Option.ne_none_iff_exists'.mp hstart
        rw [refines_opening _ _ hr, Option.isSome_some]
      | name | behind => cases hq
    · exact (isSome_next?_not_iff h hq).mpr hdue
    · exact (isSome_next?_rightParen_iff h hq).mpr hopens

end Position

end DecimalFormula
