import DecimalFormula.Proofs.Grammar.Shape
import DecimalFormula.Proofs.Tree.Height
import DecimalFormula.Proofs.Tree.Spans

/-!
# The tokens of a printed tree

A tree is printed with parentheses around every operator. The tokens of the print are a primary, and
what derives from them is the tree again, wherever they stand
(`Tree.exists_derivesWithin_of_printed`).

Parentheses make a derivation longer. From one of them to the operator inside and on to its operands
it enters all eight levels and one more for the operator itself, so nine for every node on a path
from the root are enough.
-/

namespace DecimalFormula

/-! ## Operators between primaries -/

section Primary

variable {n : Nat} {xs ys : List Token} {x y : Tree} {t : Token}

/-- An operator in front of a primary is a formula. Coming down to the operator and from there to
the primary takes eight steps in any case. -/
theorem DerivesWithin.sign_primary {o : UnaryOp} (ho : UnaryOp.ofKind? t.kind = some o)
    (hx : DerivesWithin n .primary xs x) :
    DerivesWithin (n + 8) .disjunction (t :: xs) (.mkUnary o t x) := by
  have hsign : o.level.sign? t.kind = some o := Level.sign?_eq_some_iff.mpr ⟨ho, rfl⟩
  have hrank := o.level.rank_le
  have hx : DerivesWithin (n + 7 - o.level.rank) o.level xs x := hx.of_primary (by omega)
  refine (DerivesWithin.sign hsign hx).looser (Nat.zero_le _) ?_
  rw [show Level.disjunction.rank = 0 from rfl]
  omega

/-- An operator between two primaries is a formula. The right operand may be of the same level as
the operator, and has the longer way down. -/
theorem DerivesWithin.join_primary {o : BinaryOp} (ho : BinaryOp.ofKind? t.kind = some o)
    (hx : DerivesWithin n .primary xs x) (hy : DerivesWithin n .primary ys y) :
    DerivesWithin (n + 8) .disjunction (xs ++ t :: ys) (.mkBinary o t x y) := by
  have hjoin : o.level.operator? t.kind = some o := Level.operator?_eq_some_iff.mpr ⟨ho, rfl⟩
  have hrank := o.level.rank_le
  have htighter := Level.rank_tighter (Level.ne_primary_of_operator? hjoin)
  have hright := o.level.rank_le_rank_right
  have hx : DerivesWithin (n + 7 - o.level.rank) o.level.tighter xs x := hx.of_primary (by omega)
  have hy : DerivesWithin (n + 7 - o.level.rank) o.level.right ys y := hy.of_primary (by omega)
  refine (DerivesWithin.join hx hjoin hy).looser (Nat.zero_le _) ?_
  rw [show Level.disjunction.rank = 0 from rfl]
  omega

end Primary

/-! ## Printed tokens -/

/-- A token that looks alike wherever it stands. -/
def Token.ofKind (kind : TokenKind) : Token := ⟨kind, kind.literal, .emptyAt 0⟩

/-- The kind of token that an operator in front of its operand is. -/
def UnaryOp.kind : UnaryOp → TokenKind
  | plus => .plus
  | minus => .minus
  | not => .not

theorem UnaryOp.ofKind?_kind (o : UnaryOp) : ofKind? o.kind = some o := by
  cases o <;> rfl

theorem UnaryOp.kind_of_ofKind? {kind : TokenKind} {o : UnaryOp} (h : ofKind? kind = some o) :
    o.kind = kind := by
  cases kind <;> simp only [ofKind?, Option.some.injEq, reduceCtorEq] at h <;> subst h <;> rfl

/-- The kind of token that an operator between its operands is. -/
def BinaryOp.kind : BinaryOp → TokenKind
  | or => .or
  | and => .and
  | equal => .equal
  | notEqual => .notEqual
  | greater => .greater
  | greaterOrEqual => .greaterOrEqual
  | less => .less
  | lessOrEqual => .lessOrEqual
  | add => .plus
  | subtract => .minus
  | multiply => .times
  | divide => .divide
  | power => .power

theorem BinaryOp.ofKind?_kind (o : BinaryOp) : ofKind? o.kind = some o := by
  cases o <;> rfl

theorem BinaryOp.kind_of_ofKind? {kind : TokenKind} {o : BinaryOp} (h : ofKind? kind = some o) :
    o.kind = kind := by
  cases kind <;> simp only [ofKind?, Option.some.injEq, reduceCtorEq] at h <;> subst h <;> rfl

/-- Lists of tokens with commas between them. -/
def commaSeparated : List (List Token) → List Token
  | [] => []
  | ts :: tss => ts ++ tss.flatMap (.ofKind .comma :: ·)

namespace Tree

mutual

/-- The tokens of a tree with all its parentheses. -/
def printed : Tree → List Token
  | leaf _ t => [t]
  | unary _ t x _ => .ofKind .leftParen :: t :: (printed x ++ [.ofKind .rightParen])
  | binary _ t l r _ =>
    .ofKind .leftParen :: (printed l ++ t :: (printed r ++ [.ofKind .rightParen]))
  | call _ t args _ =>
    t :: .ofKind .leftParen :: (commaSeparated (printedAll args) ++ [.ofKind .rightParen])

/-- The tokens of several trees, each by itself. -/
def printedAll : List Tree → List (List Token)
  | [] => []
  | x :: xs => printed x :: printedAll xs

end

theorem printedAll_eq (xs : List Tree) : printedAll xs = xs.map printed := by
  induction xs with
  | nil => rfl
  | cons x xs ih => rw [printedAll, ih, List.map_cons]

/-! ## What derives from them -/

/-- Wherever the printed tokens of a tree stand, it derives from them, but for its spans. -/
def Rederives (n : Nat) (level : Level) (tree : Tree) : Prop :=
  ∀ us, SameWords us (printed tree) →
    ∃ x, DerivesWithin n level us x ∧ x.withoutSpans = tree.withoutSpans

namespace Rederives

variable {n m k : Nat} {level : Level} {t : Token} {span : Span} {tree x l r : Tree}

theorem of_primary (h : Rederives n .primary tree) (hm : n + 7 ≤ m + level.rank) :
    Rederives m level tree := by
  intro us hus
  obtain ⟨y, hy, hsame⟩ := h us hus
  exact ⟨y, hy.of_primary hm, hsame⟩

theorem leaf {kind : LeafKind} (hself : (leaf kind t).BuiltFromToken) :
    Rederives (n + 1) .primary (.leaf kind t) := by
  intro us hus
  obtain ⟨u, rfl, hu⟩ := hus.exists_singleton
  have hkind := (Token.withoutSpan_eq_iff.mp hu).1
  refine ⟨.leaf kind u, ?_, by rw [withoutSpans, withoutSpans, hu]⟩
  cases kind with
  | number => exact .number (hkind.trans hself)
  | identifier => exact .identifier (hkind.trans hself)

theorem unary {o : UnaryOp} (ho : UnaryOp.ofKind? t.kind = some o)
    (hx : Rederives k .primary x) : Rederives (k + 9) .primary (.unary o t x span) := by
  intro us hus
  obtain ⟨p, us, rfl, hp, hus⟩ := hus.exists_cons
  obtain ⟨u, us, rfl, hu, hus⟩ := hus.exists_cons
  obtain ⟨xs, vs, rfl, hxs, hvs⟩ := hus.exists_append
  obtain ⟨q, rfl, hq⟩ := hvs.exists_singleton
  rw [Token.withoutSpan_eq_iff] at hp hq
  have ho : UnaryOp.ofKind? u.kind = some o := (Token.withoutSpan_eq_iff.mp hu).1 ▸ ho
  obtain ⟨y, hy, hsame⟩ := hx xs hxs
  have hinner := hy.sign_primary ho
  refine ⟨.mkUnary o u y, .parenthesized hp.1 hinner hq.1, ?_⟩
  rw [mkUnary, withoutSpans, withoutSpans, hu, hsame]

theorem binary {o : BinaryOp} (ho : BinaryOp.ofKind? t.kind = some o)
    (hl : Rederives k .primary l) (hr : Rederives k .primary r) :
    Rederives (k + 9) .primary (.binary o t l r span) := by
  intro us hus
  obtain ⟨p, us, rfl, hp, hus⟩ := hus.exists_cons
  obtain ⟨ls, us, rfl, hls, hus⟩ := hus.exists_append
  obtain ⟨u, us, rfl, hu, hus⟩ := hus.exists_cons
  obtain ⟨rs, vs, rfl, hrs, hvs⟩ := hus.exists_append
  obtain ⟨q, rfl, hq⟩ := hvs.exists_singleton
  rw [Token.withoutSpan_eq_iff] at hp hq
  have ho : BinaryOp.ofKind? u.kind = some o := (Token.withoutSpan_eq_iff.mp hu).1 ▸ ho
  obtain ⟨x, hx, hsamex⟩ := hl ls hls
  obtain ⟨y, hy, hsamey⟩ := hr rs hrs
  have hinner := hx.join_primary ho hy
  have houter := DerivesWithin.parenthesized hp.1 hinner hq.1
  rw [List.append_assoc, List.cons_append] at houter
  refine ⟨.mkBinary o u x y, houter, ?_⟩
  rw [mkBinary, withoutSpans, withoutSpans, hu, hsamex, hsamey]

private theorem exists_furtherArguments {xs : List Tree}
    (h : ∀ x ∈ xs, Rederives n .disjunction x) {us : List Token}
    (hus : SameWords us ((xs.map printed).flatMap (.ofKind .comma :: ·))) :
    ∃ more : List FurtherArgument, us = furtherTokens more ∧
      (∀ m ∈ more, m.comma.kind = .comma) ∧
      (∀ m ∈ more, DerivesWithin n .disjunction m.tokens m.tree) ∧
      (more.map FurtherArgument.tree).map withoutSpans = xs.map withoutSpans := by
  induction xs generalizing us with
  | nil =>
    rw [List.map_eq_nil_iff.mp hus]
    exact ⟨[], rfl, List.forall_mem_nil _, List.forall_mem_nil _, rfl⟩
  | cons x xs ih =>
    obtain ⟨hx, hxs⟩ := List.forall_mem_cons.mp h
    rw [List.map_cons, List.flatMap_cons, List.cons_append] at hus
    obtain ⟨comma, us, rfl, hcomma, hus⟩ := hus.exists_cons
    obtain ⟨vs, us, rfl, hvs, hus⟩ := hus.exists_append
    obtain ⟨y, hy, hsame⟩ := hx vs hvs
    obtain ⟨more, rfl, hcommas, hmore, htrees⟩ := ih hxs hus
    refine ⟨⟨comma, vs, y⟩ :: more, rfl, List.forall_mem_cons.mpr ⟨?_, hcommas⟩,
      List.forall_mem_cons.mpr ⟨hy, hmore⟩, ?_⟩
    · exact (Token.withoutSpan_eq_iff.mp hcomma).1
    · rw [List.map_cons, List.map_cons, List.map_cons, hsame, htrees]

theorem call {args : List Tree} (hkind : t.kind = .function)
    (hargs : ∀ x ∈ args, Rederives k .disjunction x) :
    Rederives (k + 1) .primary (.call t.text t args span) := by
  intro us hus
  obtain ⟨f, us, rfl, hf, hus⟩ := hus.exists_cons
  obtain ⟨p, us, rfl, hp, hus⟩ := hus.exists_cons
  obtain ⟨as, vs, rfl, has, hvs⟩ := hus.exists_append
  obtain ⟨q, rfl, hq⟩ := hvs.exists_singleton
  rw [Token.withoutSpan_eq_iff] at hp hq
  have hname := Token.withoutSpan_eq_iff.mp hf
  cases args with
  | nil =>
    obtain rfl := List.map_eq_nil_iff.mp has
    refine ⟨_, .emptyCall (hname.1.trans hkind) hp.1 hq.1, ?_⟩
    rw [withoutSpans, withoutSpans, hf, hname.2]
  | cons x xs =>
    obtain ⟨hx, hxs⟩ := List.forall_mem_cons.mp hargs
    rw [printedAll, commaSeparated, printedAll_eq] at has
    obtain ⟨bs, cs, rfl, hbs, hcs⟩ := has.exists_append
    obtain ⟨y, hy, hsame⟩ := hx bs hbs
    obtain ⟨more, rfl, hcommas, hmore, htrees⟩ := exists_furtherArguments hxs hcs
    refine ⟨_, .call (hname.1.trans hkind) hp.1 hy hcommas hmore hq.1, ?_⟩
    rw [withoutSpans, withoutSpans, hf, hname.2, withoutSpansAll, withoutSpansAll, hsame,
      withoutSpansAll_eq, withoutSpansAll_eq, htrees]

end Rederives

/-- By induction on the tree. The bound of the children is nine less than that of the node: one for
its parenthesis or its call, one for its operator and seven from the loosest level to a primary. -/
theorem rederives {tree : Tree} (hbuilt : tree.WellBuilt) {n : Nat}
    (hn : 9 * tree.height ≤ n + 8) : Rederives n .primary tree := by
  induction tree generalizing n with
  | leaf kind t =>
    obtain ⟨n, rfl⟩ : ∃ m, n = m + 1 := ⟨n - 1, by rw [height] at hn; omega⟩
    exact .leaf (wellBuilt_iff.mp hbuilt).1
  | unary o t x span ih =>
    obtain ⟨hself, hchildren⟩ := wellBuilt_iff.mp hbuilt
    rw [height] at hn
    have hpos := height_pos x
    obtain ⟨k, rfl⟩ : ∃ k, n = k + 9 := ⟨n - 9, by omega⟩
    exact .unary hself (ih (hchildren x (by simp)) (by omega))
  | binary o t l r span ihl ihr =>
    obtain ⟨hself, hchildren⟩ := wellBuilt_iff.mp hbuilt
    rw [height] at hn
    have hpos := height_pos l
    obtain ⟨k, rfl⟩ : ∃ k, n = k + 9 := ⟨n - 9, by omega⟩
    exact .binary hself (ihl (hchildren l (by simp)) (by omega))
      (ihr (hchildren r (by simp)) (by omega))
  | call name t args span ih =>
    obtain ⟨⟨hkind, rfl⟩, hchildren⟩ := wellBuilt_iff.mp hbuilt
    rw [height] at hn
    obtain ⟨k, rfl⟩ : ∃ k, n = k + 1 := ⟨n - 1, by omega⟩
    refine .call hkind fun x hx ↦ ?_
    have hheight := height_le_heightAll hx
    have hpos := height_pos x
    have hprimary := ih x hx (hchildren x hx) (n := k - 7) (by omega)
    exact hprimary.of_primary (by rw [show Level.disjunction.rank = 0 from rfl]; omega)

end Tree

end DecimalFormula
