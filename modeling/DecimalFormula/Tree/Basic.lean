import DecimalFormula.Operator

/-!
# Trees of formulas

A tree is what a formula means, without its parentheses and blanks. Every node keeps the token it
was built from, which an error in that node points at, and every node of more than one token keeps
the span of all its tokens.

A span is stored and not computed from the children: a tree may be changed by hand, and then its
nodes go on pointing at the text they came from. Only the functions `mkUnary` and `mkBinary` compute
spans, and equality of trees takes them into account.
-/

namespace DecimalFormula

/-- What a leaf stands for. -/
inductive LeafKind
  | number
  | identifier
deriving DecidableEq, Repr, Inhabited

/-- The name of a kind of leaf in listings of trees. -/
def LeafKind.name : LeafKind → String
  | number => "Number"
  | identifier => "Identifier"

/-- A formula as a tree. -/
inductive Tree
  /-- A number or an identifier. -/
  | leaf (kind : LeafKind) (token : Token)
  /-- An operator in front of its operand. -/
  | unary (operator : UnaryOp) (token : Token) (operand : Tree) (span : Span)
  /-- An operator between its operands. -/
  | binary (operator : BinaryOp) (token : Token) (left right : Tree) (span : Span)
  /-- A function applied to its arguments. -/
  | call (name : String) (token : Token) (args : List Tree) (span : Span)
deriving Repr

namespace Tree

/-! ## Parts of a node -/

instance : Inhabited Tree := ⟨leaf default default⟩

/-- The token a node was built from. -/
def token : Tree → Token
  | leaf _ t | unary _ t _ _ | binary _ t _ _ _ | call _ t _ _ => t

/-- The span of a node with all that belongs to it. -/
def span : Tree → Span
  | leaf _ t => t.span
  | unary _ _ _ s | binary _ _ _ _ s | call _ _ _ s => s

/-- The trees directly below a node, from left to right. -/
def children : Tree → List Tree
  | leaf _ _ => []
  | unary _ _ x _ => [x]
  | binary _ _ l r _ => [l, r]
  | call _ _ args _ => args

/-- The name of the sort of a node. -/
def sort : Tree → String
  | leaf .. => "leaf"
  | unary .. => "unary"
  | binary .. => "binary"
  | call .. => "general"

/-- What tells a node from others of its sort. -/
def label : Tree → String
  | leaf kind _ => kind.name
  | unary operator _ _ _ => operator.name
  | binary operator _ _ _ _ => operator.name
  | call name _ _ _ => name

/-! ## Building nodes -/

/-- An operator applied to one operand. -/
def mkUnary (operator : UnaryOp) (token : Token) (operand : Tree) : Tree :=
  unary operator token operand (token.span.merge operand.span)

/-- An operator applied to two operands. -/
def mkBinary (operator : BinaryOp) (token : Token) (left right : Tree) : Tree :=
  binary operator token left right (left.span.merge right.span)

/-! ## Induction -/

/-- To show something of every tree, show it of every node whose children have it. -/
@[elab_as_elim, induction_eliminator]
theorem induct {motive : Tree → Prop} (leaf : ∀ kind token, motive (leaf kind token))
    (unary : ∀ operator token operand span, motive operand →
      motive (unary operator token operand span))
    (binary : ∀ operator token left right span, motive left → motive right →
      motive (binary operator token left right span))
    (call : ∀ name token args span, (∀ arg ∈ args, motive arg) → motive (call name token args span))
    (tree : Tree) : motive tree :=
  @Tree.rec motive (fun args ↦ ∀ arg ∈ args, motive arg) leaf unary binary call (by simp)
    (fun _ _ head tail ↦ List.forall_mem_cons.mpr ⟨head, tail⟩) tree

/-! ## Equality -/

mutual

/-- Whether two trees agree in everything, spans included. -/
def same : Tree → Tree → Bool
  | leaf k t, leaf k' t' => k == k' && t == t'
  | unary o t x s, unary o' t' x' s' => o == o' && t == t' && same x x' && s == s'
  | binary o t l r s, binary o' t' l' r' s' =>
    o == o' && t == t' && same l l' && same r r' && s == s'
  | call n t args s, call n' t' args' s' => n == n' && t == t' && sameAll args args' && s == s'
  | _, _ => false

/-- Whether two lists hold the same trees in the same order. -/
def sameAll : List Tree → List Tree → Bool
  | [], [] => true
  | x :: xs, y :: ys => same x y && sameAll xs ys
  | _, _ => false

end

mutual

theorem same_iff : ∀ a b : Tree, same a b = true ↔ a = b
  | leaf .., b => by cases b <;> simp [same]
  | unary _ _ x _, b => by cases b <;> simp [same, same_iff x, and_assoc]
  | binary _ _ l r _, b => by cases b <;> simp [same, same_iff l, same_iff r, and_assoc]
  | call _ _ args _, b => by cases b <;> simp [same, sameAll_iff args, and_assoc]

theorem sameAll_iff : ∀ xs ys : List Tree, sameAll xs ys = true ↔ xs = ys
  | [], ys => by cases ys <;> simp [sameAll]
  | x :: xs, ys => by cases ys <;> simp [sameAll, same_iff x, sameAll_iff xs]

end

instance : DecidableEq Tree := fun a b ↦ decidable_of_iff _ (same_iff a b)

/-! ## Walking over a tree -/

mutual

/-- The nodes of a tree with their depths, every node before its children. -/
def preorder (depth : Nat) : Tree → List (Nat × Tree)
  | leaf k t => [(depth, leaf k t)]
  | unary o t x s => (depth, unary o t x s) :: preorder (depth + 1) x
  | binary o t l r s =>
    (depth, binary o t l r s) :: (preorder (depth + 1) l ++ preorder (depth + 1) r)
  | call n t args s => (depth, call n t args s) :: preorderAll (depth + 1) args

/-- The nodes of several trees, one tree after the other. -/
def preorderAll (depth : Nat) : List Tree → List (Nat × Tree)
  | [] => []
  | x :: xs => preorder depth x ++ preorderAll depth xs

end

/-- Some names and another one, which is put behind them unless it is there. -/
def addName (names : List String) (name : String) : List String :=
  if names.contains name then names else names ++ [name]

mutual

/-- Adds the names at the identifiers of a tree to some names, from left to right. -/
def collectNames : Tree → List String → List String
  | leaf .number _, names => names
  | leaf .identifier t, names => addName names t.text
  | unary _ _ x _, names => collectNames x names
  | binary _ _ l r _, names => collectNames r (collectNames l names)
  | call _ _ args _, names => collectNamesAll args names

/-- Adds the names at the identifiers of several trees to some names. -/
def collectNamesAll : List Tree → List String → List String
  | [], names => names
  | x :: xs, names => collectNamesAll xs (collectNames x names)

end

/-- The names a tree reads, each once, in the order of their first use. -/
def identifiers (tree : Tree) : List String := tree.collectNames []

/-! ## Changing a tree by hand -/

/-- The tree with one of its children replaced. The spans of the node stay as they are, and a child
that does not exist cannot be replaced. -/
def replaceChild (tree : Tree) (index : Nat) (child : Tree) : Tree :=
  match tree, index with
  | unary o t _ s, 0 => unary o t child s
  | binary o t _ r s, 0 => binary o t child r s
  | binary o t l _ s, 1 => binary o t l child s
  | call n t args s, i => call n t (args.set i child) s
  | tree, _ => tree

/-- The tree without its last argument, if it is a call. -/
def dropLastArgument : Tree → Tree
  | call n t args s => call n t args.dropLast s
  | tree => tree

end Tree

end DecimalFormula
