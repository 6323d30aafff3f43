import DecimalFormula.Proofs.Parsing.Derivability
import DecimalFormula.Proofs.Tree.Recursion

/-!
# The limit bounds the tree

A parser counts the levels it enters one inside the other, and not the nodes it builds. Still no
path in its tree has as many nodes as the limit allows levels (`Tree.limit_bounds_paths`), and so
the functions that recurse on the tree do not go deeper than the parser went.

Where a node is built, at least one level more has been entered for each of its operands than for
the node, in front of an operator as well as behind it. So a tree is lower than the number of levels
that were entered for it, except for a leaf, for which a single one is enough. That exception never
adds up: an operator with a leaf in front of it has an operand behind it as well, and for that at
least two levels were entered (`DerivesWithin.height_lt`).
-/

namespace DecimalFormula

namespace DerivesWithin

variable {n : Nat} {level : Level} {xs : List Token} {x : Tree}

theorem eight_le (h : DerivesWithin n level xs x) : 8 ≤ n + level.rank := by
  induction h with
  | tighter hlevel _ ih =>
    rw [Level.rank_tighter hlevel] at ih
    omega
  | sign _ _ ih => omega
  | join _ ht _ ih _ =>
    rw [Level.rank_tighter (Level.ne_primary_of_operator? ht)] at ih
    omega
  | number | identifier | parenthesized | emptyCall | call => exact Nat.le_add_left 8 _

theorem two_le (h : DerivesWithin n level xs x) (hlevel : level ≠ .primary) : 2 ≤ n := by
  have hlevels := h.eight_le
  have hrank := level.rank_le
  have hne : level.rank ≠ Level.primary.rank := fun hrank ↦ hlevel (Level.eq_of_rank_eq hrank)
  have hprimary : Level.primary.rank = 7 := rfl
  omega

/-- **The invariant.** The tree is not as high as the bound on the derivation, unless a single level
was enough. -/
theorem height_lt (h : DerivesWithin n level xs x) : x.height < max 2 n := by
  induction h with
  | tighter _ _ ih => omega
  | sign ht hx ih =>
    have htwo := hx.two_le (Level.ne_primary_of_sign? ht)
    rw [Tree.mkUnary, Tree.height]
    omega
  | join hx ht hy ihx ihy =>
    -- The left operand may be a primary, for which one level would do. The right one is not.
    have htwo := hy.two_le (Level.right_ne_primary (Level.ne_primary_of_operator? ht))
    rw [Tree.mkBinary, Tree.height]
    omega
  | number | identifier | emptyCall =>
    simp only [Tree.height, Tree.heightAll]
    omega
  | parenthesized _ _ _ ih => omega
  | @call n f t xs x more u _ _ hx _ hmore _ ihx ihmore =>
    have htwo := hx.two_le (by decide)
    have hargs : Tree.heightAll (x :: more.map FurtherArgument.tree) ≤ n - 1 := by
      refine Tree.heightAll_le_iff.mpr (List.forall_mem_cons.mpr ⟨by omega, fun y hy ↦ ?_⟩)
      obtain ⟨m, hm, rfl⟩ := List.mem_map.mp hy
      have := ihmore m hm
      omega
    rw [Tree.height]
    omega

end DerivesWithin

namespace Tree

variable {registry : Registry} {limit : Nat} {tokens : List Token} {tree : Tree}

theorem exists_derivesWithin_of_ofTokens (h : ofTokens registry limit tokens = .ok tree) :
    ∃ body, DerivesWithin limit .disjunction body tree := by
  have hmeets : (Parser.parseLevel registry limit limit .disjunction (.start tokens)).Meets
      registry limit _ _ :=
    Parser.parseLevel_meets .disjunction (TokenCursor.closed_start tokens) (by simp)
  rw [ofTokens_eq] at h
  cases hrun : Parser.parseLevel registry limit limit .disjunction (.start tokens) with
  | done x c =>
    rw [hrun] at h hmeets
    dsimp only at h
    split at h
    · cases h
      obtain ⟨body, -, hreads⟩ := hmeets
      exact ⟨body, hreads.1⟩
    · cases h
  | stop e c headroom =>
    rw [hrun] at h
    cases h

theorem height_lt_limit (h : ofTokens registry limit tokens = .ok tree) : tree.height < limit := by
  obtain ⟨body, hderives⟩ := exists_derivesWithin_of_ofTokens h
  have hlevels : 8 ≤ limit := hderives.eight_le
  have hheight := hderives.height_lt
  omega

/-- **The limit bounds the tree.** Whatever the tokens, a tree that a fresh parser answers with has
fewer nodes on every path from its root to a leaf, or a call without arguments, than levels may be
entered. So evaluating it, writing it in either way, listing its names and copying it come to their
results with fewer calls open at a time than the limit says. -/
theorem limit_bounds_paths (h : ofTokens registry limit tokens = .ok tree) :
    (∀ path, IsPath tree path → path.length ≤ limit - 1) ∧ tree.RecursesWithin (limit - 1) := by
  have hheight : tree.height ≤ limit - 1 := Nat.le_sub_one_of_lt (height_lt_limit h)
  exact ⟨height_le_iff_forall_isPath.mp hheight, recursesWithin_of_height_le hheight⟩

/-- In `1^2*3` both operators stand above the first operand, which takes nine levels. -/
theorem limit_bounds_paths_product :
    let one : Token := ⟨.number, "1", ⟨0, 1⟩⟩
    let caret : Token := ⟨.power, "^", ⟨1, 2⟩⟩
    let two : Token := ⟨.number, "2", ⟨2, 3⟩⟩
    let star : Token := ⟨.times, "*", ⟨3, 4⟩⟩
    let three : Token := ⟨.number, "3", ⟨4, 5⟩⟩
    let power : Tree := .mkBinary .power caret (.leaf .number one) (.leaf .number two)
    let product : Tree := .mkBinary .multiply star power (.leaf .number three)
    let path := [product, power, .leaf .number one]
    ofTokens .standard 9 [one, caret, two, star, three] = .ok product ∧ IsPath product path ∧
      path.length ≤ 9 - 1 ∧ product.RecursesWithin (9 - 1) := by
  intro one caret two star three power product path
  have hparse : ofTokens .standard 9 [one, caret, two, star, three] = .ok product := by
    decide +kernel
  have hpath : IsPath product path :=
    .step List.mem_cons_self (.step List.mem_cons_self (.last rfl))
  obtain ⟨hpaths, hrecurses⟩ := limit_bounds_paths hparse
  exact ⟨hparse, hpath, hpaths path hpath, hrecurses⟩

end Tree

end DecimalFormula
