import DecimalFormula.Grammar
import DecimalFormula.Proofs.Tree.Places

/-!
# The grammar as a relation

`Derives level tokens tree` says that by the grammar in `DecimalFormula.Grammar` some tokens are a
formula of a level, and that the tree is the one of that derivation. There is a constructor for
every alternative of every production; parentheses leave no node.

## Two forms of the grammar

Statements are made about `Derives`. Proofs are easier in a second form, `DerivesWithin`, in which
the seven operator levels share three rules, as they do in the table of levels, and a number bounds
how many productions are entered one inside the other. A derivation never needs more than eight for
each of its tokens, so the bound costs nothing: `Derives.within` and `DerivesWithin.derives` pass
from one form to the other.
-/

namespace DecimalFormula

/-! ## The productions -/

/-- An argument of a call behind the first one. -/
structure FurtherArgument where
  /-- The comma in front of it. -/
  comma : Token
  /-- Its own tokens. -/
  tokens : List Token
  /-- What they mean. -/
  tree : Tree

/-- The tokens of arguments that follow one another, commas included. -/
def furtherTokens (more : List FurtherArgument) : List Token :=
  more.flatMap fun m ↦ m.comma :: m.tokens

/-- Whether a token in front of an operand is one of some operators, and which one. -/
def Token.IsSign (t : Token) (operators : List UnaryOp) (operator : UnaryOp) : Prop :=
  UnaryOp.ofKind? t.kind = some operator ∧ operator ∈ operators

/-- Whether a token between operands is one of some operators, and which one. -/
def Token.IsOperator (t : Token) (operators : List BinaryOp) (operator : BinaryOp) : Prop :=
  BinaryOp.ofKind? t.kind = some operator ∧ operator ∈ operators

/-- The grammar: which tokens are a formula of which level, and what they mean. -/
inductive Derives : Level → List Token → Tree → Prop
  /-- `disjunction := conjunction` -/
  | disjunction_single {xs x} : Derives .conjunction xs x → Derives .disjunction xs x
  /-- ``disjunction := conjunction `|` disjunction`` -/
  | disjunction_join {xs x t o ys y} : Derives .conjunction xs x → t.IsOperator [.or] o →
    Derives .disjunction ys y → Derives .disjunction (xs ++ t :: ys) (.mkBinary o t x y)
  /-- `conjunction := negation` -/
  | conjunction_single {xs x} : Derives .negation xs x → Derives .conjunction xs x
  /-- ``conjunction := negation `&` conjunction`` -/
  | conjunction_join {xs x t o ys y} : Derives .negation xs x → t.IsOperator [.and] o →
    Derives .conjunction ys y → Derives .conjunction (xs ++ t :: ys) (.mkBinary o t x y)
  /-- ``negation := `!` negation`` -/
  | negation_sign {t o xs x} : t.IsSign [.not] o → Derives .negation xs x →
    Derives .negation (t :: xs) (.mkUnary o t x)
  /-- `negation := comparison` -/
  | negation_single {xs x} : Derives .comparison xs x → Derives .negation xs x
  /-- `comparison := sum` -/
  | comparison_single {xs x} : Derives .sum xs x → Derives .comparison xs x
  /-- ``comparison := sum ( `=` | `!=` | `>` | `>=` | `<` | `<=` ) sum`` -/
  | comparison_join {xs x t o ys y} : Derives .sum xs x →
    t.IsOperator [.equal, .notEqual, .greater, .greaterOrEqual, .less, .lessOrEqual] o →
    Derives .sum ys y → Derives .comparison (xs ++ t :: ys) (.mkBinary o t x y)
  /-- `sum := product` -/
  | sum_single {xs x} : Derives .product xs x → Derives .sum xs x
  /-- ``sum := product ( `+` | `-` ) sum`` -/
  | sum_join {xs x t o ys y} : Derives .product xs x → t.IsOperator [.add, .subtract] o →
    Derives .sum ys y → Derives .sum (xs ++ t :: ys) (.mkBinary o t x y)
  /-- `product := power` -/
  | product_single {xs x} : Derives .power xs x → Derives .product xs x
  /-- ``product := power ( `*` | `/` ) product`` -/
  | product_join {xs x t o ys y} : Derives .power xs x → t.IsOperator [.multiply, .divide] o →
    Derives .product ys y → Derives .product (xs ++ t :: ys) (.mkBinary o t x y)
  /-- ``power := ( `+` | `-` ) power`` -/
  | power_sign {t o xs x} : t.IsSign [.plus, .minus] o → Derives .power xs x →
    Derives .power (t :: xs) (.mkUnary o t x)
  /-- `power := primary` -/
  | power_single {xs x} : Derives .primary xs x → Derives .power xs x
  /-- ``power := primary `^` power`` -/
  | power_join {xs x t o ys y} : Derives .primary xs x → t.IsOperator [.power] o →
    Derives .power ys y → Derives .power (xs ++ t :: ys) (.mkBinary o t x y)
  /-- `primary := NUMBER` -/
  | number {t} : t.kind = .number → Derives .primary [t] (.leaf .number t)
  /-- `primary := IDENTIFIER` -/
  | identifier {t} : t.kind = .identifier → Derives .primary [t] (.leaf .identifier t)
  /-- ``primary := `(` disjunction `)` `` -/
  | parenthesized {t xs x u} : t.kind = .leftParen → Derives .disjunction xs x →
    u.kind = .rightParen → Derives .primary (t :: (xs ++ [u])) x
  /-- ``primary := FUNCTION `(` `)` `` -/
  | emptyCall {f t u} : f.kind = .function → t.kind = .leftParen → u.kind = .rightParen →
    Derives .primary [f, t, u] (.call f.text f [] (f.span.merge u.span))
  /-- ``primary := FUNCTION `(` disjunction { `,` disjunction } `)` `` -/
  | call {f t xs x more u} : f.kind = .function → t.kind = .leftParen →
    Derives .disjunction xs x → (∀ m ∈ more, m.comma.kind = .comma) →
    (∀ m ∈ more, Derives .disjunction m.tokens m.tree) → u.kind = .rightParen →
    Derives .primary (f :: t :: (xs ++ furtherTokens more ++ [u]))
      (.call f.text f (x :: more.map FurtherArgument.tree) (f.span.merge u.span))

/-! ## The same levels as a table -/

/-- The grammar with one set of rules for all operator levels, and with a bound on the number of
productions that are entered one inside the other. -/
inductive DerivesWithin : Nat → Level → List Token → Tree → Prop
  | tighter {n level xs x} : level ≠ .primary → DerivesWithin n level.tighter xs x →
    DerivesWithin (n + 1) level xs x
  | sign {n level t o xs x} : level.sign? t.kind = some o → DerivesWithin n level xs x →
    DerivesWithin (n + 1) level (t :: xs) (.mkUnary o t x)
  | join {n level xs x t o ys y} : DerivesWithin n level.tighter xs x →
    level.operator? t.kind = some o → DerivesWithin n level.right ys y →
    DerivesWithin (n + 1) level (xs ++ t :: ys) (.mkBinary o t x y)
  | number {n t} : t.kind = .number → DerivesWithin (n + 1) .primary [t] (.leaf .number t)
  | identifier {n t} : t.kind = .identifier →
    DerivesWithin (n + 1) .primary [t] (.leaf .identifier t)
  | parenthesized {n t xs x u} : t.kind = .leftParen → DerivesWithin n .disjunction xs x →
    u.kind = .rightParen → DerivesWithin (n + 1) .primary (t :: (xs ++ [u])) x
  | emptyCall {n f t u} : f.kind = .function → t.kind = .leftParen → u.kind = .rightParen →
    DerivesWithin (n + 1) .primary [f, t, u] (.call f.text f [] (f.span.merge u.span))
  | call {n f t xs x more u} : f.kind = .function → t.kind = .leftParen →
    DerivesWithin n .disjunction xs x → (∀ m ∈ more, m.comma.kind = .comma) →
    (∀ m ∈ more, DerivesWithin n .disjunction m.tokens m.tree) → u.kind = .rightParen →
    DerivesWithin (n + 1) .primary (f :: t :: (xs ++ furtherTokens more ++ [u]))
      (.call f.text f (x :: more.map FurtherArgument.tree) (f.span.merge u.span))

namespace Level

def rank : Level → Nat
  | disjunction => 0
  | conjunction => 1
  | negation => 2
  | comparison => 3
  | sum => 4
  | product => 5
  | power => 6
  | primary => 7

theorem rank_le (level : Level) : level.rank ≤ 7 := by cases level <;> decide

theorem eq_of_rank_eq {level level' : Level} (h : level.rank = level'.rank) : level = level' := by
  cases level <;> cases level' <;> first | rfl | cases h

theorem rank_tighter {level : Level} (h : level ≠ .primary) :
    level.tighter.rank = level.rank + 1 := by
  cases level <;> first | rfl | exact absurd rfl h

theorem rank_le_rank_right (level : Level) : level.rank ≤ level.right.rank := by
  cases level <;> decide

theorem sign?_eq_some_iff {level : Level} {kind : TokenKind} {o : UnaryOp} :
    level.sign? kind = some o ↔ UnaryOp.ofKind? kind = some o ∧ o.level = level := by
  rw [sign?, Option.filter_eq_some_iff, decide_eq_true_iff]

theorem operator?_eq_some_iff {level : Level} {kind : TokenKind} {o : BinaryOp} :
    level.operator? kind = some o ↔ BinaryOp.ofKind? kind = some o ∧ o.level = level := by
  rw [operator?, Option.filter_eq_some_iff, decide_eq_true_iff]

theorem sign?_eq_none_of_ne {level : Level} {kind : TokenKind}
    (h : ∀ o, UnaryOp.ofKind? kind = some o → o.level ≠ level) : level.sign? kind = none :=
  Option.eq_none_iff_forall_ne_some.mpr fun o ho ↦
    h o (sign?_eq_some_iff.mp ho).1 (sign?_eq_some_iff.mp ho).2

theorem operator?_eq_none_of_ne {level : Level} {kind : TokenKind}
    (h : ∀ o, BinaryOp.ofKind? kind = some o → o.level ≠ level) : level.operator? kind = none :=
  Option.eq_none_iff_forall_ne_some.mpr fun o ho ↦
    h o (operator?_eq_some_iff.mp ho).1 (operator?_eq_some_iff.mp ho).2

theorem ne_primary_of_operator? {level : Level} {kind : TokenKind} {o : BinaryOp}
    (h : level.operator? kind = some o) : level ≠ .primary := by
  rw [← (operator?_eq_some_iff.mp h).2]
  cases o <;> decide

theorem ne_primary_of_sign? {level : Level} {kind : TokenKind} {o : UnaryOp}
    (h : level.sign? kind = some o) : level ≠ .primary := by
  rw [← (sign?_eq_some_iff.mp h).2]
  cases o <;> decide

theorem ne_endOfInput_of_operator? {level : Level} {kind : TokenKind} {o : BinaryOp}
    (h : level.operator? kind = some o) : kind ≠ .endOfInput := by
  rintro rfl
  cases h

theorem ne_endOfInput_of_sign? {level : Level} {kind : TokenKind} {o : UnaryOp}
    (h : level.sign? kind = some o) : kind ≠ .endOfInput := by
  rintro rfl
  cases h

theorem eq_power_of_tighter_eq_primary {level : Level} (hlevel : level ≠ .primary)
    (h : level.tighter = .primary) : level = .power := by
  cases level with
  | power => rfl
  | primary => exact absurd rfl hlevel
  | _ => cases h

/-- Where no sign of a level stands, what is read at the next tighter one is no primary behind a
sign. -/
theorem sign?_power_eq_none {level : Level} {kind : TokenKind} (hlevel : level ≠ .primary)
    (hsign : level.sign? kind = none) (h : level.tighter = .primary) :
    power.sign? kind = none := by
  rwa [← eq_power_of_tighter_eq_primary hlevel h]

theorem right_ne_primary {level : Level} (hlevel : level ≠ .primary) : level.right ≠ .primary := by
  cases level with
  | primary => exact absurd rfl hlevel
  | _ => decide

def operators : Level → List BinaryOp
  | disjunction => [.or]
  | conjunction => [.and]
  | comparison => [.equal, .notEqual, .greater, .greaterOrEqual, .less, .lessOrEqual]
  | sum => [.add, .subtract]
  | product => [.multiply, .divide]
  | power => [.power]
  | negation | primary => []

/-- The operators of a level that stand in front of their operand. -/
def signs : Level → List UnaryOp
  | negation => [.not]
  | power => [.plus, .minus]
  | _ => []

theorem isOperator_iff (level : Level) {t : Token} {o : BinaryOp} :
    t.IsOperator level.operators o ↔ level.operator? t.kind = some o := by
  rw [operator?_eq_some_iff, Token.IsOperator]
  have hmem : o ∈ level.operators ↔ o.level = level := by cases level <;> cases o <;> decide
  rw [hmem]

theorem isSign_iff (level : Level) {t : Token} {o : UnaryOp} :
    t.IsSign level.signs o ↔ level.sign? t.kind = some o := by
  rw [sign?_eq_some_iff, Token.IsSign]
  have hmem : o ∈ level.signs ↔ o.level = level := by cases level <;> cases o <;> decide
  rw [hmem]

def CanStart (level : Level) (kind : TokenKind) : Prop :=
  kind ∈ [.number, .identifier, .function, .leftParen] ∨
    ∃ o, UnaryOp.ofKind? kind = some o ∧ level.rank ≤ o.level.rank

theorem CanStart.of_tighter {level : Level} {kind : TokenKind} (hlevel : level ≠ .primary)
    (h : level.tighter.CanStart kind) : level.CanStart kind := by
  refine h.imp_right fun ⟨o, ho, hrank⟩ ↦ ⟨o, ho, ?_⟩
  rw [rank_tighter hlevel] at hrank
  exact Nat.le_of_succ_le hrank

theorem CanStart.rank_le {level : Level} {kind : TokenKind} {o : UnaryOp} (h : level.CanStart kind)
    (ho : UnaryOp.ofKind? kind = some o) : level.rank ≤ o.level.rank := by
  rcases h with h | ⟨o', ho', hrank⟩
  · simp only [List.mem_cons, List.not_mem_nil, or_false] at h
    rcases h with rfl | rfl | rfl | rfl <;> cases ho
  · rw [ho, Option.some.injEq] at ho'
    rwa [ho']

theorem CanStart.ne_rightParen {level : Level} {kind : TokenKind} (h : level.CanStart kind) :
    kind ≠ .rightParen := by
  rintro rfl
  rcases h with h | ⟨o, ho, -⟩
  · exact absurd h (by decide)
  · cases ho

/-- A message names the first tokens of powers where an operand is missing, and powers are formulas
of every level that has operators. -/
theorem canStart_of_mem_operandKinds {level : Level} {kind : TokenKind} (h : kind ∈ operandKinds)
    (hlevel : level ≠ .primary) : level.CanStart kind := by
  have hrank : level.rank ≤ 6 := by
    cases level with
    | primary => exact absurd rfl hlevel
    | _ => decide
  simp only [operandKinds, List.mem_cons, List.not_mem_nil, or_false] at h
  rcases h with rfl | rfl | rfl | rfl | rfl | rfl
  · exact .inl (by decide)
  · exact .inl (by decide)
  · exact .inl (by decide)
  · exact .inl (by decide)
  · exact .inr ⟨.plus, rfl, hrank⟩
  · exact .inr ⟨.minus, rfl, hrank⟩

/-- No message names the first token of a negation. -/
theorem CanStart.mem_operandKinds_or {level : Level} {kind : TokenKind} (h : level.CanStart kind) :
    kind ∈ operandKinds ∨ kind = .not := by
  rcases h with h | ⟨o, ho, -⟩
  · simp only [List.mem_cons, List.not_mem_nil, or_false] at h
    rcases h with rfl | rfl | rfl | rfl <;> decide
  · revert ho
    cases kind <;> rintro ⟨⟩ <;> decide

end Level

/-! ## From one form to the other -/

theorem length_furtherTokens_pos {m : FurtherArgument} {more : List FurtherArgument}
    (h : m ∈ more) : m.tokens.length < (furtherTokens more).length := by
  induction more with
  | nil => cases h
  | cons m' more ih =>
    rw [furtherTokens, List.flatMap_cons, ← furtherTokens, List.length_append, List.length_cons]
    rcases List.mem_cons.mp h with rfl | h
    · omega
    · have := ih h
      omega

namespace Derives

theorem length_pos {level : Level} {xs : List Token} {x : Tree} (h : Derives level xs x) :
    0 < xs.length := by
  induction h <;> first | assumption | (simp only [List.length_append, List.length_cons]; omega)

/-- Within what bounds a derivation may be carried out at a level of some rank. -/
private abbrev Fits (level : Level) (xs : List Token) (x : Tree) : Prop :=
  ∀ n, 8 * xs.length ≤ n + level.rank → DerivesWithin n level xs x

private theorem fits_single {level : Level} {xs : List Token} {x : Tree} (hlevel : level ≠ .primary)
    (hpos : 0 < xs.length) (h : Fits level.tighter xs x) : Fits level xs x := by
  intro n hn
  have hrank := level.rank_le
  obtain ⟨n, rfl⟩ : ∃ m, n = m + 1 := ⟨n - 1, by omega⟩
  refine .tighter hlevel (h n ?_)
  rw [Level.rank_tighter hlevel]
  omega

private theorem fits_join (level : Level) {xs ys : List Token} {x y : Tree} {t : Token}
    {o : BinaryOp} (hx : Fits level.tighter xs x) (ht : t.IsOperator level.operators o)
    (hy : Fits level.right ys y) (hpos : 0 < xs.length) :
    Fits level (xs ++ t :: ys) (.mkBinary o t x y) := by
  intro n hn
  -- Each operand may use the bound but for one level, which the token of the operator pays for.
  have ho := level.isOperator_iff.mp ht
  have hrank := level.rank_le
  have hright := level.rank_le_rank_right
  rw [List.length_append, List.length_cons] at hn
  obtain ⟨n, rfl⟩ : ∃ m, n = m + 1 := ⟨n - 1, by omega⟩
  refine .join (hx n ?_) ho (hy n ?_)
  · rw [Level.rank_tighter (Level.ne_primary_of_operator? ho)]
    omega
  · omega

private theorem fits_sign (level : Level) {xs : List Token} {x : Tree} {t : Token} {o : UnaryOp}
    (ht : t.IsSign level.signs o) (hx : Fits level xs x) :
    Fits level (t :: xs) (.mkUnary o t x) := by
  intro n hn
  have hrank := level.rank_le
  rw [List.length_cons] at hn
  obtain ⟨n, rfl⟩ : ∃ m, n = m + 1 := ⟨n - 1, by omega⟩
  exact .sign (level.isSign_iff.mp ht) (hx n (by omega))

private theorem fits_primary {xs : List Token} {x : Tree} (hpos : 0 < xs.length)
    (h : ∀ n, 8 * xs.length ≤ n + 8 → DerivesWithin (n + 1) .primary xs x) :
    Fits .primary xs x := by
  intro n hn
  have hrank : Level.primary.rank = 7 := rfl
  obtain ⟨n, rfl⟩ : ∃ m, n = m + 1 := ⟨n - 1, by omega⟩
  exact h n (by omega)

/-- Eight levels for each token are always enough. -/
theorem within {level : Level} {xs : List Token} {x : Tree} (h : Derives level xs x) {n : Nat}
    (hn : 8 * xs.length ≤ n + level.rank) : DerivesWithin n level xs x := by
  -- The number of levels has to vary, as the parts of a formula are derived within fewer.
  suffices hfits : Fits level xs x from hfits n hn
  clear hn n
  induction h with
  | disjunction_single h ih => exact fits_single (by decide) h.length_pos ih
  | disjunction_join hx ht _ ihx ihy =>
    exact fits_join .disjunction ihx ht ihy hx.length_pos
  | conjunction_single h ih => exact fits_single (by decide) h.length_pos ih
  | conjunction_join hx ht _ ihx ihy =>
    exact fits_join .conjunction ihx ht ihy hx.length_pos
  | negation_sign ht _ ih => exact fits_sign .negation ht ih
  | negation_single h ih => exact fits_single (by decide) h.length_pos ih
  | comparison_single h ih => exact fits_single (by decide) h.length_pos ih
  | comparison_join hx ht _ ihx ihy =>
    exact fits_join .comparison ihx ht ihy hx.length_pos
  | sum_single h ih => exact fits_single (by decide) h.length_pos ih
  | sum_join hx ht _ ihx ihy => exact fits_join .sum ihx ht ihy hx.length_pos
  | product_single h ih => exact fits_single (by decide) h.length_pos ih
  | product_join hx ht _ ihx ihy => exact fits_join .product ihx ht ihy hx.length_pos
  | power_sign ht _ ih => exact fits_sign .power ht ih
  | power_single h ih => exact fits_single (by decide) h.length_pos ih
  | power_join hx ht _ ihx ihy => exact fits_join .power ihx ht ihy hx.length_pos
  | number hk => exact fits_primary (by simp) fun n _ ↦ .number hk
  | identifier hk => exact fits_primary (by simp) fun n _ ↦ .identifier hk
  | parenthesized ht _ hu ih =>
    refine fits_primary (by simp) fun n hn ↦ .parenthesized ht (ih n ?_) hu
    simp only [List.length_cons, List.length_append] at hn
    omega
  | emptyCall hf ht hu => exact fits_primary (by simp) fun n _ ↦ .emptyCall hf ht hu
  | call hf ht _ hcommas _ hu ihx ihmore =>
    refine fits_primary (by simp) fun n hn ↦
      .call hf ht (ihx n ?_) hcommas (fun m hm ↦ ihmore m hm n ?_) hu
    all_goals simp only [List.length_cons, List.length_append] at hn
    · omega
    · have := length_furtherTokens_pos hm
      omega

end Derives

theorem DerivesWithin.derives {n : Nat} {level : Level} {xs : List Token} {x : Tree}
    (h : DerivesWithin n level xs x) : Derives level xs x := by
  induction h with
  | @tighter _ level _ _ hlevel _ ih =>
    cases level with
    | disjunction => exact .disjunction_single ih
    | conjunction => exact .conjunction_single ih
    | negation => exact .negation_single ih
    | comparison => exact .comparison_single ih
    | sum => exact .sum_single ih
    | product => exact .product_single ih
    | power => exact .power_single ih
    | primary => exact absurd rfl hlevel
  | @sign _ level _ _ _ _ ht _ ih =>
    have hsign := level.isSign_iff.mpr ht
    cases level with
    | negation => exact .negation_sign hsign ih
    | power => exact .power_sign hsign ih
    | _ => cases hsign.2
  | @join _ level _ _ _ _ _ _ _ ht _ ihx ihy =>
    have hoperator := level.isOperator_iff.mpr ht
    cases level with
    | disjunction => exact .disjunction_join ihx hoperator ihy
    | conjunction => exact .conjunction_join ihx hoperator ihy
    | comparison => exact .comparison_join ihx hoperator ihy
    | sum => exact .sum_join ihx hoperator ihy
    | product => exact .product_join ihx hoperator ihy
    | power => exact .power_join ihx hoperator ihy
    | negation | primary => cases hoperator.2
  | number hk => exact .number hk
  | identifier hk => exact .identifier hk
  | parenthesized ht _ hu ih => exact .parenthesized ht ih hu
  | emptyCall hf ht hu => exact .emptyCall hf ht hu
  | call hf ht _ hcommas _ hu ihx ihmore => exact .call hf ht ihx hcommas ihmore hu

namespace DerivesWithin

theorem succ {n : Nat} {level : Level} {xs : List Token} {x : Tree}
    (h : DerivesWithin n level xs x) : DerivesWithin (n + 1) level xs x := by
  induction h with
  | tighter hlevel _ ih => exact .tighter hlevel ih
  | sign ht _ ih => exact .sign ht ih
  | join _ ht _ ihx ihy => exact .join ihx ht ihy
  | number hk => exact .number hk
  | identifier hk => exact .identifier hk
  | parenthesized ht _ hu ih => exact .parenthesized ht ih hu
  | emptyCall hf ht hu => exact .emptyCall hf ht hu
  | call hf ht _ hcommas _ hu ihx ihmore => exact .call hf ht ihx hcommas ihmore hu

theorem mono {n n' : Nat} {level : Level} {xs : List Token} {x : Tree}
    (h : DerivesWithin n level xs x) (hn : n ≤ n') : DerivesWithin n' level xs x := by
  induction hn with
  | refl => exact h
  | step _ ih => exact ih.succ

theorem exists_cons {n : Nat} {level : Level} {xs : List Token} {x : Tree}
    (h : DerivesWithin n level xs x) : ∃ t rest, xs = t :: rest ∧ level.CanStart t.kind := by
  induction h with
  | tighter hlevel _ ih =>
    obtain ⟨t, rest, rfl, ht⟩ := ih
    exact ⟨t, rest, rfl, .of_tighter hlevel ht⟩
  | sign ht _ _ =>
    obtain ⟨hkind, rfl⟩ := Level.sign?_eq_some_iff.mp ht
    exact ⟨_, _, rfl, .inr ⟨_, hkind, Nat.le_refl _⟩⟩
  | join _ ht _ ih _ =>
    obtain ⟨t, rest, rfl, hfirst⟩ := ih
    exact ⟨t, _, rfl, .of_tighter (Level.ne_primary_of_operator? ht) hfirst⟩
  | number hk | identifier hk | parenthesized hk _ _ _ | emptyCall hk _ _ | call hk _ _ _ _ _ _ _ =>
    exact ⟨_, _, rfl, .inl (by rw [hk]; decide)⟩

/-- What is a formula of a level is one of the looser levels, with a production more for each. -/
theorem looser {n m : Nat} {level looser : Level} {xs : List Token} {x : Tree}
    (h : DerivesWithin n level xs x) (hrank : looser.rank ≤ level.rank)
    (hm : n + level.rank ≤ m + looser.rank) : DerivesWithin m looser xs x := by
  induction hd : level.rank - looser.rank generalizing m looser with
  | zero =>
    obtain rfl := Level.eq_of_rank_eq (Nat.le_antisymm hrank (Nat.sub_eq_zero_iff_le.mp hd))
    exact h.mono (Nat.le_of_add_le_add_right hm)
  | succ d ih =>
    have hlevel := level.rank_le
    have hlooser : looser ≠ .primary := by
      rintro rfl
      have hprimary : Level.primary.rank = 7 := rfl
      omega
    have htighter := Level.rank_tighter hlooser
    obtain ⟨m, rfl⟩ : ∃ k, m = k + 1 := ⟨m - 1, by omega⟩
    refine .tighter hlooser (ih ?_ ?_ ?_) <;> omega

/-- A primary is a formula of every level, seven productions further out. -/
theorem of_primary {n m : Nat} {level : Level} {xs : List Token} {x : Tree}
    (h : DerivesWithin n .primary xs x) (hm : n + 7 ≤ m + level.rank) :
    DerivesWithin m level xs x :=
  h.looser level.rank_le hm

end DerivesWithin

end DecimalFormula
