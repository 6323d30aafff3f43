import DecimalFormula.Tree.Basic
import Mathlib.Data.List.Perm.Basic

/-!
# Places in a tree

A place is a node together with the nodes around it. The places of a tree are listed in two ways:
`Tree.preorder`, which keeps only the depth of a node, and `Tree.postorder`, which keeps the whole
path to the root and names children before their parents, the order in which values are computed.
`Tree.postorder_perm_preorder` says that both list every node once and at the same depth.

Arguments of calls sit in lists, so every walk comes with a companion on lists of trees. The lemmas
below put a node and its children in place of the four shapes of node, and `Tree.inductOnChildren`
is the induction that goes with them.
-/

namespace DecimalFormula

namespace Tree

/-! ## Nodes by their children -/

@[simp] theorem children_leaf (kind : LeafKind) (t : Token) : (leaf kind t).children = [] := rfl

@[simp] theorem children_unary (o : UnaryOp) (t : Token) (x : Tree) (s : Span) :
    (unary o t x s).children = [x] := rfl

@[simp] theorem children_binary (o : BinaryOp) (t : Token) (x y : Tree) (s : Span) :
    (binary o t x y s).children = [x, y] := rfl

@[simp] theorem children_call (name : String) (t : Token) (args : List Tree) (s : Span) :
    (call name t args s).children = args := rfl

@[simp] theorem children_mkUnary (o : UnaryOp) (t : Token) (x : Tree) :
    (mkUnary o t x).children = [x] := rfl

@[simp] theorem children_mkBinary (o : BinaryOp) (t : Token) (x y : Tree) :
    (mkBinary o t x y).children = [x, y] := rfl

/-- To show something of every tree, show it of every node whose children have it. -/
@[elab_as_elim]
theorem inductOnChildren {motive : Tree → Prop}
    (node : ∀ tree : Tree, (∀ child ∈ tree.children, motive child) → motive tree) (tree : Tree) :
    motive tree := by
  induction tree with
  | leaf kind token => exact node _ (by simp)
  | unary operator token operand span ih => exact node _ (by simpa using ih)
  | binary operator token left right span ihl ihr =>
    exact node _ (by simpa using ⟨ihl, ihr⟩)
  | call name token args span ih => exact node _ ih

theorem preorderAll_eq (depth : Nat) (xs : List Tree) :
    preorderAll depth xs = xs.flatMap (preorder depth) := by
  induction xs with
  | nil => rfl
  | cons x xs ih => rw [preorderAll, ih, List.flatMap_cons]

theorem preorder_eq (depth : Nat) (tree : Tree) :
    preorder depth tree = (depth, tree) :: tree.children.flatMap (preorder (depth + 1)) := by
  cases tree with
  | leaf => rw [preorder, children_leaf, List.flatMap_nil]
  | unary => rw [preorder, children_unary, List.flatMap_singleton]
  | binary => rw [preorder, children_binary, List.flatMap_cons, List.flatMap_singleton]
  | call => rw [preorder, children_call, preorderAll_eq]

/-! ## The nodes -/

/-- The nodes of a tree, every node before its children. -/
def nodes (tree : Tree) : List Tree := (preorder 0 tree).map Prod.snd

private theorem map_snd_preorder (tree : Tree) (depth depth' : Nat) :
    (preorder depth tree).map Prod.snd = (preorder depth' tree).map Prod.snd := by
  induction tree using inductOnChildren generalizing depth depth' with
  | node tree ih =>
    rw [preorder_eq, preorder_eq, List.map_cons, List.map_cons, List.map_flatMap, List.map_flatMap]
    congr 1
    exact List.flatMap_congr fun child hchild ↦ ih child hchild _ _

theorem nodes_eq (tree : Tree) : nodes tree = tree :: tree.children.flatMap nodes := by
  rw [nodes, preorder_eq, List.map_cons, List.map_flatMap]
  congr 1
  exact List.flatMap_congr fun child _ ↦ map_snd_preorder child _ _

theorem mem_nodes_iff {node tree : Tree} :
    node ∈ nodes tree ↔ node = tree ∨ ∃ child ∈ tree.children, node ∈ nodes child := by
  rw [nodes_eq, List.mem_cons, List.mem_flatMap]

theorem mem_nodes_self (tree : Tree) : tree ∈ nodes tree := mem_nodes_iff.mpr (.inl rfl)

theorem mem_nodes_of_mem_children {node child tree : Tree} (hchild : child ∈ tree.children)
    (hnode : node ∈ nodes child) : node ∈ nodes tree :=
  mem_nodes_iff.mpr (.inr ⟨child, hchild, hnode⟩)

theorem forall_mem_nodes_iff {P : Tree → Prop} {tree : Tree} :
    (∀ node ∈ nodes tree, P node) ↔
      P tree ∧ ∀ child ∈ tree.children, ∀ node ∈ nodes child, P node := by
  constructor
  · intro h
    exact ⟨h tree (mem_nodes_self tree),
      fun child hchild node hnode ↦ h node (mem_nodes_of_mem_children hchild hnode)⟩
  · rintro ⟨hself, hchildren⟩ node hnode
    rcases mem_nodes_iff.mp hnode with rfl | ⟨child, hchild, hnode⟩
    · exact hself
    · exact hchildren child hchild node hnode

/-! ## Children before parents -/

/-- A node of a tree with the nodes around it. -/
structure Place where
  /-- The node. -/
  node : Tree
  /-- The nodes it lies in, its parent first and the root last. -/
  above : List Tree

mutual

/-- The places of a tree that itself lies in some nodes, children before their parents and from left
to right. -/
def postorder (above : List Tree) : Tree → List Place
  | leaf k t => [⟨leaf k t, above⟩]
  | unary o t x s => postorder (unary o t x s :: above) x ++ [⟨unary o t x s, above⟩]
  | binary o t l r s =>
    postorder (binary o t l r s :: above) l ++ postorder (binary o t l r s :: above) r ++
      [⟨binary o t l r s, above⟩]
  | call n t args s => postorderAll (call n t args s :: above) args ++ [⟨call n t args s, above⟩]

def postorderAll (above : List Tree) : List Tree → List Place
  | [] => []
  | x :: xs => postorder above x ++ postorderAll above xs

end

theorem postorder_eq (above : List Tree) (tree : Tree) :
    postorder above tree = postorderAll (tree :: above) tree.children ++ [⟨tree, above⟩] := by
  cases tree with
  | leaf => rfl
  | unary => rw [postorder, children_unary, postorderAll, postorderAll, List.append_nil]
  | binary =>
    rw [postorder, children_binary, postorderAll, postorderAll, postorderAll, List.append_nil]
  | call => rw [postorder, children_call]

theorem postorderAll_eq (above xs : List Tree) :
    postorderAll above xs = xs.flatMap (postorder above) := by
  induction xs with
  | nil => rfl
  | cons x xs ih => rw [postorderAll, ih, List.flatMap_cons]

theorem mem_postorder_iff {above : List Tree} {tree : Tree} {p : Place} :
    p ∈ postorder above tree ↔
      (∃ child ∈ tree.children, p ∈ postorder (tree :: above) child) ∨ p = ⟨tree, above⟩ := by
  rw [postorder_eq, postorderAll_eq, List.mem_append, List.mem_flatMap, List.mem_singleton]

/-- A place holds nodes of the tree and those around the tree. -/
theorem mem_nodes_of_mem_postorder {above : List Tree} {tree : Tree} {p : Place}
    (h : p ∈ postorder above tree) :
    p.node ∈ nodes tree ∧ ∀ node ∈ p.above, node ∈ nodes tree ∨ node ∈ above := by
  induction tree using inductOnChildren generalizing above with
  | node tree ih =>
    rcases mem_postorder_iff.mp h with ⟨child, hchild, h⟩ | rfl
    · obtain ⟨hnode, habove⟩ := ih child hchild h
      refine ⟨mem_nodes_of_mem_children hchild hnode, fun node hmem ↦ ?_⟩
      rcases habove node hmem with hmem | hmem
      · exact .inl (mem_nodes_of_mem_children hchild hmem)
      rcases List.mem_cons.mp hmem with rfl | hmem
      · exact .inl (mem_nodes_self _)
      · exact .inr hmem
    · exact ⟨mem_nodes_self tree, fun node ↦ .inr⟩

/-- Both walks meet every node once, and the path to a node is as long as the node is deep. -/
theorem postorder_perm_preorder (tree : Tree) (above : List Tree) :
    ((postorder above tree).map fun p ↦ (p.above.length, p.node)).Perm
      (preorder above.length tree) := by
  induction tree using inductOnChildren generalizing above with
  | node tree ih =>
    have hchildren : ∀ xs : List Tree, (∀ x ∈ xs, x ∈ tree.children) →
        ((xs.flatMap (postorder (tree :: above))).map fun p ↦ (p.above.length, p.node)).Perm
          (xs.flatMap (preorder (above.length + 1))) := by
      intro xs hxs
      induction xs with
      | nil => exact .nil
      | cons x xs ihxs =>
        rw [List.flatMap_cons, List.flatMap_cons, List.map_append]
        have hx := ih x (hxs x List.mem_cons_self) (tree :: above)
        exact hx.append (ihxs fun y hy ↦ hxs y (List.mem_cons_of_mem _ hy))
    rw [postorder_eq, postorderAll_eq, preorder_eq, List.map_append]
    exact (List.perm_append_singleton _ _).trans ((hchildren _ fun _ h ↦ h).cons _)

theorem exists_mem_postorder {node tree : Tree} (h : node ∈ nodes tree) :
    ∃ p ∈ postorder [] tree, p.node = node := by
  obtain ⟨⟨depth, _⟩, hmem, rfl⟩ := List.mem_map.mp h
  obtain ⟨p, hp, hnode⟩ := List.mem_map.mp ((postorder_perm_preorder tree []).symm.subset hmem)
  exact ⟨p, hp, congrArg Prod.snd hnode⟩

end Tree

end DecimalFormula
