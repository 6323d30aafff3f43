import DecimalFormula.Proofs.Grammar.Derivation

/-!
# What a derivation keeps of its tokens

A tree holds the tokens it was derived from in their order, and leaves out nothing but parentheses
and commas (`DerivesWithin.inorder_eq`). Every node is built from a token of its own sort
(`DerivesWithin.wellBuilt`), so what is known of the tokens of a formula carries over to the nodes
of its tree.
-/

namespace DecimalFormula

namespace Tree

/-! ## The tokens of a tree -/

mutual

/-- The tokens at the nodes of a tree in the order in which a formula has them. -/
def inorder : Tree → List Token
  | leaf _ t => [t]
  | unary _ t x _ => t :: inorder x
  | binary _ t l r _ => inorder l ++ t :: inorder r
  | call _ t args _ => t :: inorderAll args

def inorderAll : List Tree → List Token
  | [] => []
  | x :: xs => inorder x ++ inorderAll xs

end

theorem inorderAll_eq (xs : List Tree) : inorderAll xs = xs.flatMap inorder := by
  induction xs with
  | nil => rfl
  | cons x xs ih => rw [inorderAll, ih, List.flatMap_cons]

theorem mem_inorder_iff_children {tree : Tree} {t : Token} :
    t ∈ inorder tree ↔ t = tree.token ∨ ∃ child ∈ tree.children, t ∈ inorder child := by
  cases tree with
  | leaf => simp [inorder, token]
  | unary => simp [inorder, token]
  | binary => simp [inorder, token, or_left_comm]
  | call => simp [inorder, inorderAll_eq, token]

theorem mem_inorder_iff {tree : Tree} {t : Token} :
    t ∈ inorder tree ↔ ∃ node ∈ nodes tree, node.token = t := by
  induction tree using inductOnChildren with
  | node tree ih =>
    rw [mem_inorder_iff_children]
    constructor
    · rintro (rfl | ⟨child, hchild, ht⟩)
      · exact ⟨tree, mem_nodes_self tree, rfl⟩
      · obtain ⟨node, hnode, rfl⟩ := (ih child hchild).mp ht
        exact ⟨node, mem_nodes_of_mem_children hchild hnode, rfl⟩
    · rintro ⟨node, hnode, rfl⟩
      rcases mem_nodes_iff.mp hnode with rfl | ⟨child, hchild, hnode⟩
      · exact .inl rfl
      · exact .inr ⟨child, hchild, (ih child hchild).mpr ⟨node, hnode, rfl⟩⟩

/-- A node is built from a token of its own sort. -/
def BuiltFromToken : Tree → Prop
  | leaf .number t => t.kind = .number
  | leaf .identifier t => t.kind = .identifier
  | unary o t _ _ => UnaryOp.ofKind? t.kind = some o
  | binary o t _ _ _ => BinaryOp.ofKind? t.kind = some o
  | call name t _ _ => t.kind = .function ∧ name = t.text

theorem BuiltFromToken.kind_ne_endOfInput {node : Tree} (h : node.BuiltFromToken) :
    node.token.kind ≠ .endOfInput := by
  intro hkind
  cases node with
  | leaf kind t => cases kind <;> cases hkind.symm.trans h
  | unary o t x span =>
    rw [BuiltFromToken, show t.kind = _ from hkind] at h
    cases h
  | binary o t l r span =>
    rw [BuiltFromToken, show t.kind = _ from hkind] at h
    cases h
  | call name t args span => cases hkind.symm.trans h.1

theorem BuiltFromToken.eq_call {node : Tree} (h : node.BuiltFromToken)
    (hkind : node.token.kind = .function) :
    ∃ args span, node = call node.token.text node.token args span := by
  cases node with
  | leaf kind t => cases kind <;> cases hkind.symm.trans h
  | unary o t x span =>
    rw [BuiltFromToken, show t.kind = _ from hkind] at h
    cases h
  | binary o t l r span =>
    rw [BuiltFromToken, show t.kind = _ from hkind] at h
    cases h
  | call name t args span =>
    obtain ⟨-, rfl⟩ := h
    exact ⟨args, span, rfl⟩

/-- Every node is built from a token of its own sort. -/
def WellBuilt (tree : Tree) : Prop := ∀ node ∈ nodes tree, node.BuiltFromToken

theorem wellBuilt_iff {tree : Tree} :
    tree.WellBuilt ↔ tree.BuiltFromToken ∧ ∀ child ∈ tree.children, child.WellBuilt :=
  forall_mem_nodes_iff

end Tree

/-! ## Tokens and trees of derivations -/

/-- Whether a token groups or separates and leaves no node. -/
def Token.isPunctuation (t : Token) : Bool :=
  t.kind == .leftParen || t.kind == .rightParen || t.kind == .comma

theorem Token.isPunctuation_eq_false {t : Token} (h : t.kind ≠ .leftParen ∧ t.kind ≠ .rightParen ∧
    t.kind ≠ .comma) : t.isPunctuation = false := by
  simpa [isPunctuation, and_assoc] using h

theorem Token.isPunctuation_eq_true {t : Token} (h : t.kind = .leftParen ∨ t.kind = .rightParen ∨
    t.kind = .comma) : t.isPunctuation = true := by
  simpa [isPunctuation, or_assoc] using h

namespace DerivesWithin

variable {n : Nat} {level : Level} {xs : List Token} {x : Tree}

/-- No token is lost, doubled or moved. -/
theorem inorder_eq (h : DerivesWithin n level xs x) :
    x.inorder = xs.filter fun t ↦ !t.isPunctuation := by
  induction h with
  | tighter _ _ ih => exact ih
  | @sign _ _ t o _ _ ht _ ih =>
    have hkeep : t.isPunctuation = false := Token.isPunctuation_eq_false <| by
      have := (Level.sign?_eq_some_iff.mp ht).1
      refine ⟨?_, ?_, ?_⟩ <;> rintro hk <;> rw [hk] at this <;> cases this
    rw [Tree.mkUnary, Tree.inorder, List.filter_cons_of_pos (by simp [hkeep]), ih]
  | @join _ _ _ _ t o _ _ _ ht _ ihx ihy =>
    have hkeep : t.isPunctuation = false := Token.isPunctuation_eq_false <| by
      have := (Level.operator?_eq_some_iff.mp ht).1
      refine ⟨?_, ?_, ?_⟩ <;> rintro hk <;> rw [hk] at this <;> cases this
    rw [Tree.mkBinary, Tree.inorder, List.filter_append,
      List.filter_cons_of_pos (by simp [hkeep]), ihx, ihy]
  | number hk | identifier hk => simp [Tree.inorder, Token.isPunctuation, hk]
  | parenthesized ht _ hu ih => simp [ih, Token.isPunctuation, ht, hu]
  | emptyCall hf ht hu => simp [Tree.inorder, Tree.inorderAll, Token.isPunctuation, hf, ht, hu]
  | @call _ f t xs x more u hf ht _ hcommas _ hu ihx ihmore =>
    have hmore : (furtherTokens more).filter (fun t ↦ !t.isPunctuation) =
        (more.map FurtherArgument.tree).flatMap Tree.inorder := by
      rw [furtherTokens, List.filter_flatMap, List.flatMap_map]
      refine List.flatMap_congr fun m hm ↦ ?_
      have hcomma := Token.isPunctuation_eq_true (.inr (.inr (hcommas m hm)))
      rw [List.filter_cons_of_neg (by simp [hcomma]), ← ihmore m hm]
    rw [Tree.inorder, Tree.inorderAll, Tree.inorderAll_eq, ihx, ← hmore]
    simp [Token.isPunctuation, hf, ht, hu]

theorem wellBuilt (h : DerivesWithin n level xs x) : x.WellBuilt := by
  induction h with
  | tighter _ _ ih => exact ih
  | sign ht _ ih =>
    exact Tree.wellBuilt_iff.mpr ⟨(Level.sign?_eq_some_iff.mp ht).1, by simpa using ih⟩
  | join _ ht _ ihx ihy =>
    exact Tree.wellBuilt_iff.mpr
      ⟨(Level.operator?_eq_some_iff.mp ht).1, by simpa using ⟨ihx, ihy⟩⟩
  | number hk | identifier hk => exact Tree.wellBuilt_iff.mpr ⟨hk, by simp⟩
  | parenthesized _ _ _ ih => exact ih
  | emptyCall hf _ _ => exact Tree.wellBuilt_iff.mpr ⟨⟨hf, rfl⟩, by simp⟩
  | call hf _ _ _ _ _ ihx ihmore =>
    exact Tree.wellBuilt_iff.mpr ⟨⟨hf, rfl⟩, by simpa using ⟨ihx, ihmore⟩⟩

theorem token_mem (h : DerivesWithin n level xs x) {node : Tree} (hnode : node ∈ x.nodes) :
    node.token ∈ xs := by
  have := Tree.mem_inorder_iff.mpr ⟨node, hnode, rfl⟩
  rw [h.inorder_eq] at this
  exact (List.mem_filter.mp this).1

theorem exists_node (h : DerivesWithin n level xs x) {t : Token} (ht : t ∈ xs)
    (hkeep : t.isPunctuation = false) :
    ∃ node ∈ x.nodes, node.token = t ∧ node.BuiltFromToken := by
  have hmem : t ∈ x.inorder := by
    rw [h.inorder_eq]
    exact List.mem_filter.mpr ⟨ht, by simp [hkeep]⟩
  obtain ⟨node, hnode, rfl⟩ := Tree.mem_inorder_iff.mp hmem
  exact ⟨node, hnode, rfl, h.wellBuilt node hnode⟩

theorem isEnd_eq_false (h : DerivesWithin n level xs x) {t : Token} (ht : t ∈ xs) :
    t.isEnd = false := by
  rw [Token.isEnd_eq_false_iff]
  intro hkind
  obtain ⟨node, -, rfl, hbuilt⟩ := h.exists_node ht (by simp [Token.isPunctuation, hkind])
  exact hbuilt.kind_ne_endOfInput hkind

theorem exists_call (h : DerivesWithin n level xs x) {t : Token} (ht : t ∈ xs)
    (hkind : t.kind = .function) : ∃ args span, .call t.text t args span ∈ x.nodes := by
  obtain ⟨node, hnode, rfl, hbuilt⟩ := h.exists_node ht (by simp [Token.isPunctuation, hkind])
  obtain ⟨args, span, hcall⟩ := hbuilt.eq_call hkind
  exact ⟨args, span, hcall ▸ hnode⟩

end DerivesWithin

end DecimalFormula
