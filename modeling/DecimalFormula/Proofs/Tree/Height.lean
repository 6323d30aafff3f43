import DecimalFormula.Proofs.Tree.Places

/-!
# The height of a tree

The height counts the nodes on a longest path from the root. Proofs use it through two lemmas: it is
bounded if the heights of the children are (`Tree.height_le_succ_iff`), and if all paths are
(`Tree.height_le_iff_forall_isPath`).
-/

namespace DecimalFormula

namespace Tree

mutual

/-- How many nodes lie on a longest path from the root. -/
def height : Tree → Nat
  | leaf .. => 1
  | unary _ _ x _ => height x + 1
  | binary _ _ l r _ => max (height l) (height r) + 1
  | call _ _ args _ => heightAll args + 1

def heightAll : List Tree → Nat
  | [] => 0
  | x :: xs => max (height x) (heightAll xs)

end

theorem height_pos (tree : Tree) : 0 < height tree := by
  cases tree <;> exact Nat.succ_pos _

theorem heightAll_le_iff {xs : List Tree} {n : Nat} :
    heightAll xs ≤ n ↔ ∀ x ∈ xs, height x ≤ n := by
  induction xs with
  | nil => simp [heightAll]
  | cons x xs ih => rw [heightAll, Nat.max_le, ih, List.forall_mem_cons]

theorem height_le_heightAll {x : Tree} {xs : List Tree} (h : x ∈ xs) :
    height x ≤ heightAll xs :=
  heightAll_le_iff.mp (Nat.le_refl _) x h

theorem height_le_succ_iff {tree : Tree} {n : Nat} :
    tree.height ≤ n + 1 ↔ ∀ child ∈ tree.children, child.height ≤ n := by
  cases tree with
  | leaf => simp [height]
  | unary => rw [height, Nat.succ_le_succ_iff, children_unary, List.forall_mem_singleton]
  | binary =>
    rw [height, Nat.succ_le_succ_iff, Nat.max_le, children_binary, List.forall_mem_cons,
      List.forall_mem_singleton]
  | call => rw [height, Nat.succ_le_succ_iff, heightAll_le_iff, children_call]

/-! ## Paths -/

/-- The nodes on a way from the root of a tree down to a node without children. -/
inductive IsPath : Tree → List Tree → Prop
  | last {tree} : tree.children = [] → IsPath tree [tree]
  | step {tree child path} : child ∈ tree.children → IsPath child path →
    IsPath tree (tree :: path)

theorem IsPath.length_pos {tree : Tree} {path : List Tree} (h : IsPath tree path) :
    0 < path.length := by
  cases h <;> exact Nat.succ_pos _

theorem exists_isPath (tree : Tree) : ∃ path, IsPath tree path := by
  induction tree using inductOnChildren with
  | node tree ih =>
    cases hchildren : tree.children with
    | nil => exact ⟨_, .last hchildren⟩
    | cons child children =>
      have hchild : child ∈ tree.children := by simp [hchildren]
      obtain ⟨path, hpath⟩ := ih child hchild
      exact ⟨_, .step hchild hpath⟩

theorem height_le_iff_forall_isPath {tree : Tree} {n : Nat} :
    tree.height ≤ n ↔ ∀ path, IsPath tree path → path.length ≤ n := by
  induction tree using inductOnChildren generalizing n with
  | node tree ih =>
    cases n with
    | zero =>
      obtain ⟨path, hpath⟩ := exists_isPath tree
      have hlong := hpath.length_pos
      have hpos := tree.height_pos
      exact ⟨fun h ↦ by omega, fun h ↦ absurd (h path hpath) (by omega)⟩
    | succ n =>
      rw [height_le_succ_iff]
      constructor
      · intro h path hpath
        cases hpath with
        | last => exact Nat.le_add_left _ _
        | step hchild hpath =>
          exact Nat.succ_le_succ ((ih _ hchild).mp (h _ hchild) _ hpath)
      · intro h child hchild
        exact (ih child hchild).mpr fun path hpath ↦
          Nat.le_of_succ_le_succ (h _ (.step hchild hpath))

end Tree

end DecimalFormula
