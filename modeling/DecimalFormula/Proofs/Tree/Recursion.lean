import DecimalFormula.Evaluation
import DecimalFormula.Proofs.Tree.Height
import DecimalFormula.Tree.Text

/-!
# How deep functions recurse on trees

A function that calls itself at the children of a node is taken apart here. What it does at a node
is a step, which is given a `Tree.Layer`: the node with the results of these calls in the places of
its children. Carried out with a bound on the calls that may be open at a time, the recursion comes
to a result exactly if the tree is not higher than the bound (`Tree.foldWithin_isSome_iff`), and
then it is the result of the function (`Tree.foldWithin_eq_some`).

Evaluation, both ways to write a tree, the names in it and copying it are such functions
(`Tree.recursesWithin_of_height_le`).
-/

namespace DecimalFormula

namespace Tree

/-! ## Layers -/

/-- A node with something else in the places of its children. -/
inductive Layer (α : Type)
  | leaf (kind : LeafKind) (token : Token)
  | unary (operator : UnaryOp) (token : Token) (operand : α) (span : Span)
  | binary (operator : BinaryOp) (token : Token) (left right : α) (span : Span)
  | call (name : String) (token : Token) (args : List α) (span : Span)

namespace Layer

variable {α β : Type}

def map (f : α → β) : Layer α → Layer β
  | leaf kind token => leaf kind token
  | unary operator token x span => unary operator token (f x) span
  | binary operator token l r span => binary operator token (f l) (f r) span
  | call name token args span => call name token (args.map f) span

/-- The same with results that may be missing. It takes all of them. -/
def mapM (f : α → Option β) : Layer α → Option (Layer β)
  | leaf kind token => some (leaf kind token)
  | unary operator token x span => (f x).map fun y ↦ unary operator token y span
  | binary operator token l r span =>
    (f l).bind fun y ↦ (f r).map fun z ↦ binary operator token y z span
  | call name token args span => (args.mapM f).map fun ys ↦ call name token ys span

def tree : Layer Tree → Tree
  | leaf kind token => .leaf kind token
  | unary operator token x span => .unary operator token x span
  | binary operator token l r span => .binary operator token l r span
  | call name token args span => .call name token args span

end Layer

def layer : Tree → Layer Tree
  | leaf kind token => .leaf kind token
  | unary operator token x span => .unary operator token x span
  | binary operator token l r span => .binary operator token l r span
  | call name token args span => .call name token args span

/-! ## Calls -/

section Fold

variable {α : Type} {step : Layer α → α} {f : Tree → α}

/-- The function takes this step at every node. -/
def FoldsBy (f : Tree → α) (step : Layer α → α) : Prop :=
  ∀ tree, f tree = step (tree.layer.map f)

/-- A recursion carried out in calls of which at most `depth` may be open at a time. There is no
result if that is too few. -/
def foldWithin (step : Layer α → α) : Nat → Tree → Option α
  | 0, _ => none
  | depth + 1, tree => (tree.layer.mapM (foldWithin step depth)).map step

theorem mapM_eq_some {f : Tree → α} {g : Tree → Option α} {xs : List Tree}
    (h : ∀ x ∈ xs, g x = some (f x)) : xs.mapM g = some (xs.map f) := by
  induction xs with
  | nil => rfl
  | cons x xs ih =>
    obtain ⟨hx, hxs⟩ := List.forall_mem_cons.mp h
    rw [List.mapM_cons, hx, ih hxs]
    rfl

theorem mapM_isSome_iff {g : Tree → Option α} {xs : List Tree} :
    (xs.mapM g).isSome = true ↔ ∀ x ∈ xs, (g x).isSome = true := by
  induction xs with
  | nil => simp
  | cons x xs ih =>
    rw [List.mapM_cons, List.forall_mem_cons, ← ih]
    cases g x <;> cases xs.mapM g <;> simp

theorem mapM_layer_eq_some {tree : Tree} {g : Tree → Option α}
    (h : ∀ child ∈ tree.children, g child = some (f child)) :
    tree.layer.mapM g = some (tree.layer.map f) := by
  cases tree with
  | leaf => rfl
  | unary operator token x span =>
    rw [layer, Layer.mapM, h x (by simp)]
    rfl
  | binary operator token l r span =>
    rw [layer, Layer.mapM, h l (by simp), h r (by simp)]
    rfl
  | call name token args span =>
    have hargs : args.mapM g = some (args.map f) := mapM_eq_some h
    rw [layer, Layer.mapM, hargs]
    rfl

theorem mapM_layer_isSome_iff {tree : Tree} {g : Tree → Option α} :
    (tree.layer.mapM g).isSome = true ↔ ∀ child ∈ tree.children, (g child).isSome = true := by
  cases tree with
  | leaf => simp [layer, Layer.mapM]
  | unary => simp [layer, Layer.mapM]
  | binary operator token l r span =>
    cases hl : g l <;> cases hr : g r <;> simp [layer, Layer.mapM, hl, hr]
  | call =>
    rw [layer, Layer.mapM, Option.isSome_map, mapM_isSome_iff, children_call]

/-- The calls that are open at a time are as many as the tree is high. -/
theorem foldWithin_isSome_iff {tree : Tree} {depth : Nat} :
    (foldWithin step depth tree).isSome = true ↔ tree.height ≤ depth := by
  induction depth generalizing tree with
  | zero =>
    have hpos := tree.height_pos
    exact ⟨fun h ↦ (by cases h), fun h ↦ absurd h (by omega)⟩
  | succ depth ih =>
    rw [foldWithin, Option.isSome_map, mapM_layer_isSome_iff, height_le_succ_iff]
    exact forall₂_congr fun child _ ↦ ih

/-- If they may be open, the recursion comes to the result of the function. -/
theorem foldWithin_eq_some (hf : FoldsBy f step) {tree : Tree} {depth : Nat}
    (h : tree.height ≤ depth) : foldWithin step depth tree = some (f tree) := by
  induction depth generalizing tree with
  | zero => exact absurd tree.height_pos (by omega)
  | succ depth ih =>
    rw [height_le_succ_iff] at h
    rw [foldWithin, mapM_layer_eq_some fun child hchild ↦ ih (h child hchild), hf tree]
    rfl

end Fold

/-! ## The steps of some functions -/

/-- A tree is evaluated from the values and errors of its children. -/
def evaluateStep (registry : Registry) (bindings : Bindings) :
    Layer (Except EvalError Decimal) → Except EvalError Decimal
  | .leaf kind token => located token (leafStep bindings kind token.text)
  | .unary operator token x _ => (x.mapError (.through token)).map operator.apply
  | .binary operator token l r _ =>
    (l.mapError (.through token)).bind fun x ↦
      (r.mapError (.through token)).bind fun y ↦ located token (binaryStep operator x y)
  | .call name token args _ =>
    ((args.mapM id).mapError (.through token)).bind fun values ↦
      located token (callStep registry name values)

/-- A tree is written from the texts of its children. -/
def renderStep : Layer String → String
  | .leaf kind token => renderLeaf kind token
  | .unary operator _ x _ => "(" ++ operator.literal ++ x ++ ")"
  | .binary operator _ l r _ => "(" ++ l ++ " " ++ operator.literal ++ " " ++ r ++ ")"
  | .call name _ args _ => name ++ "(" ++ ", ".intercalate args ++ ")"

/-- The words of a tree are those of its children and one of its own. -/
def wordsStep : Layer (List String) → List String
  | .leaf kind token => [renderLeaf kind token]
  | .unary operator _ x _ => x ++ [operator.word]
  | .binary operator _ l r _ => l ++ r ++ [operator.literal]
  | .call name _ args _ => args.flatten ++ [name ++ "/" ++ toString args.length]

/-- The names in a tree are added by its children, one after the other, or its own is. -/
def collectNamesStep : Layer (List String → List String) → List String → List String
  | .leaf .number _, names => names
  | .leaf .identifier token, names => addName names token.text
  | .unary _ _ x _, names => x names
  | .binary _ _ l r _, names => r (l names)
  | .call _ _ args _, names => args.foldl (fun names add ↦ add names) names

theorem evaluateAll_eq (registry : Registry) (bindings : Bindings) (xs : List Tree) :
    evaluateAll registry bindings xs = (xs.map (evaluate registry bindings)).mapM id := by
  induction xs with
  | nil => rfl
  | cons x xs ih =>
    rw [evaluateAll, ih, List.map_cons, List.mapM_cons]
    cases evaluate registry bindings x with
    | error e => rfl
    | ok v => cases (xs.map (evaluate registry bindings)).mapM id <;> rfl

theorem evaluate_foldsBy (registry : Registry) (bindings : Bindings) :
    FoldsBy (evaluate registry bindings) (evaluateStep registry bindings)
  | leaf .. | unary .. | binary .. => by rw [evaluate]; rfl
  | call .. => by rw [evaluate, evaluateAll_eq]; rfl

theorem render_foldsBy : FoldsBy render renderStep
  | leaf .. | unary .. | binary .. => by rw [render]; rfl
  | call .. => by rw [render, renderAll_eq]; rfl

theorem words_foldsBy : FoldsBy words wordsStep
  | leaf .. | unary .. | binary .. => by rw [words]; rfl
  | call .. => by rw [words, wordsAll_eq, layer, Layer.map, wordsStep, List.length_map]; rfl

theorem collectNamesAll_eq (xs : List Tree) (names : List String) :
    collectNamesAll xs names = (xs.map collectNames).foldl (fun names add ↦ add names) names := by
  induction xs generalizing names with
  | nil => rfl
  | cons x xs ih => rw [collectNamesAll, ih, List.map_cons, List.foldl_cons]

theorem collectNames_foldsBy : FoldsBy collectNames collectNamesStep
  | leaf .number _ | leaf .identifier _ | unary .. | binary .. => rfl
  | call _ _ args _ => funext (collectNamesAll_eq args)

/-- A copy is put together from copies of the children, and is the same tree. -/
theorem id_foldsBy : FoldsBy id Layer.tree
  | leaf .. | unary .. | binary .. => rfl
  | call .. => by rw [layer, Layer.map, List.map_id]; rfl

/-- These functions come to their results with no more than so many of their calls open at a
time. -/
structure RecursesWithin (depth : Nat) (tree : Tree) : Prop where
  /-- Its evaluation, to a value or an error. -/
  evaluate (registry : Registry) (bindings : Bindings) :
    foldWithin (evaluateStep registry bindings) depth tree =
      some (tree.evaluate registry bindings)
  /-- Its text with all parentheses. -/
  render : foldWithin renderStep depth tree = some tree.render
  /-- Its text in reverse Polish notation. -/
  reversePolish : (foldWithin wordsStep depth tree).map (" ".intercalate ·) =
    some tree.reversePolish
  /-- The names it reads. -/
  identifiers : (foldWithin collectNamesStep depth tree).map (· []) = some tree.identifiers
  /-- A copy of it. -/
  copy : foldWithin Layer.tree depth tree = some tree

theorem recursesWithin_of_height_le {tree : Tree} {depth : Nat} (h : tree.height ≤ depth) :
    tree.RecursesWithin depth where
  evaluate registry bindings := foldWithin_eq_some (evaluate_foldsBy registry bindings) h
  render := foldWithin_eq_some render_foldsBy h
  reversePolish := by
    rw [foldWithin_eq_some words_foldsBy h]
    rfl
  identifiers := by
    rw [foldWithin_eq_some collectNames_foldsBy h]
    rfl
  copy := foldWithin_eq_some id_foldsBy h

end Tree

end DecimalFormula
