import DecimalFormula.Proofs.Printing.Text
import DecimalFormula.Proofs.ReversePolish.Words

/-!
# A stack machine for reverse Polish notation

The machine reads instructions from left to right and keeps a stack of operands. What an operand is
and what an instruction does with operands is left open (`Interpretation`); it may fail, and then
the machine halts. It also halts when the stack holds too few operands.

Under every interpretation the instructions of a tree do one thing: they push what the tree is worth
there, whatever lies on the stack and whatever instructions follow
(`Interpretation.run_instructions`). Two interpretations are of interest. Under one an operand is a
tree, and a tree is worth itself but for its spans; under the other it is a decimal, and a tree is
worth its value. So the text in reverse Polish notation tells all there is to know of a tree
(`Engine.parse_reversePolish`).
-/

namespace DecimalFormula

/-! ## The machine -/

/-- What the instructions of the machine compute, or how they fail. -/
structure Interpretation (ε α : Type) where
  /-- What a leaf is worth. -/
  leaf : LeafKind → String → Except ε α
  /-- What an operator makes of one operand. -/
  unary : UnaryOp → α → Except ε α
  /-- What an operator makes of a left and a right operand. -/
  binary : BinaryOp → α → α → Except ε α
  /-- What a function makes of its arguments. -/
  call : String → List α → Except ε α

/-- Why the machine halts before its last instruction is done. -/
inductive Halt (ε : Type)
  /-- The stack holds fewer operands than the instruction takes. -/
  | underflow
  /-- The instruction fails. -/
  | failed (error : ε)
deriving DecidableEq, Repr

namespace Interpretation

variable {ε α : Type} (M : Interpretation ε α)

/-- The stack with one more operand, if there is one. -/
def push (outcome : Except ε α) (stack : List α) : Except (Halt ε) (List α) :=
  (outcome.mapError .failed).map (· :: stack)

/-- One instruction. The right operand and the last argument are on top of the stack. -/
def step : Instruction → List α → Except (Halt ε) (List α)
  | .leaf kind text, stack => push (M.leaf kind text) stack
  | .unary operator, x :: stack => push (M.unary operator x) stack
  | .binary operator, y :: x :: stack => push (M.binary operator x y) stack
  | .call name count, stack =>
    if count ≤ stack.length then
      push (M.call name (stack.take count).reverse) (stack.drop count)
    else .error .underflow
  | _, _ => .error .underflow

/-- One instruction after the other. -/
def run : List Instruction → List α → Except (Halt ε) (List α)
  | [], stack => .ok stack
  | i :: is, stack => (M.step i stack).bind (run is)

mutual

/-- What a tree is worth, operands from left to right. -/
def eval : Tree → Except ε α
  | .leaf kind token => M.leaf kind token.text
  | .unary operator _ operand _ => (eval operand).bind (M.unary operator)
  | .binary operator _ left right _ =>
    (eval left).bind fun x ↦ (eval right).bind (M.binary operator x)
  | .call name _ args _ => (evalAll args).bind (M.call name)

/-- What several trees are worth. -/
def evalAll : List Tree → Except ε (List α)
  | [] => .ok []
  | x :: xs => (eval x).bind fun value ↦ (evalAll xs).map (value :: ·)

end

/-! ## Running the instructions of a tree -/

variable {M}

@[simp] theorem bind_push_ok {β : Type} (value : α) (stack : List α)
    (next : List α → Except (Halt ε) β) :
    (push (.ok value) stack).bind next = next (value :: stack) := rfl

theorem length_of_evalAll {xs : List Tree} {values : List α} (h : M.evalAll xs = .ok values) :
    values.length = xs.length := by
  induction xs generalizing values with
  | nil => cases h; rfl
  | cons x xs ih =>
    rw [evalAll] at h
    cases hx : M.eval x with
    | error e => rw [hx] at h; cases h
    | ok v =>
      cases hxs : M.evalAll xs with
      | error e => rw [hx, hxs] at h; cases h
      | ok vs =>
        rw [hx, hxs] at h
        cases h
        rw [List.length_cons, List.length_cons, ih hxs]

theorem step_call (name : String) (values stack : List α) :
    M.step (.call name values.length) (values.reverse ++ stack) =
      push (M.call name values) stack := by
  have hlength : values.length = values.reverse.length := List.length_reverse.symm
  rw [step, if_pos (by simp), hlength, List.take_left, List.drop_left, List.reverse_reverse]

private theorem run_flatMap_instructions {xs : List Tree}
    (h : ∀ x ∈ xs, ∀ rest stack, M.run (x.instructions ++ rest) stack =
      (push (M.eval x) stack).bind (M.run rest)) (rest : List Instruction) (stack : List α) :
    M.run (xs.flatMap Tree.instructions ++ rest) stack =
      ((M.evalAll xs).mapError .failed).bind fun values ↦
        M.run rest (values.reverse ++ stack) := by
  induction xs generalizing stack with
  | nil => rfl
  | cons x xs ih =>
    obtain ⟨hx, hxs⟩ := List.forall_mem_cons.mp h
    rw [List.flatMap_cons, List.append_assoc, hx, evalAll]
    cases hvalue : M.eval x with
    | error e => rfl
    | ok v =>
      rw [bind_push_ok, ih hxs]
      cases M.evalAll xs with
      | error e => rfl
      | ok vs => simp [Except.bind, Except.map, Except.mapError]

/-- By induction on the tree, whose children are run first. They leave what they are worth on the
stack for the instruction of the root, the last child on top. -/
theorem run_instructions (M : Interpretation ε α) (tree : Tree) (rest : List Instruction)
    (stack : List α) :
    M.run (tree.instructions ++ rest) stack = (push (M.eval tree) stack).bind (M.run rest) := by
  induction tree generalizing rest stack with
  | leaf kind t => rfl
  | unary o t x span ih =>
    rw [Tree.instructions_eq, Tree.children_unary, List.flatMap_singleton, List.append_assoc, ih,
      eval]
    cases M.eval x <;> rfl
  | binary o t l r span ihl ihr =>
    rw [Tree.instructions_eq, Tree.children_binary, List.flatMap_cons, List.flatMap_singleton,
      List.append_assoc, List.append_assoc, ihl, eval]
    cases M.eval l with
    | error e => rfl
    | ok x =>
      -- The left operand waits on the stack until the right one is there.
      rw [bind_push_ok, ihr]
      cases M.eval r <;> rfl
  | call name t args span ih =>
    rw [Tree.instructions_eq, Tree.children_call, List.append_assoc, run_flatMap_instructions ih,
      eval]
    cases hargs : M.evalAll args with
    | error e => rfl
    | ok values =>
      have hstep := step_call (M := M) name values stack
      rw [length_of_evalAll hargs] at hstep
      exact congrArg (·.bind (M.run rest)) hstep

theorem run_instructions_nil (M : Interpretation ε α) (tree : Tree) :
    M.run tree.instructions [] = ((M.eval tree).mapError .failed).map ([·]) := by
  have h := run_instructions M tree [] []
  rw [List.append_nil] at h
  rw [h]
  cases M.eval tree <;> rfl

/-! ## Operands that are trees -/

/-- The tree of a leaf. -/
def leafTree (kind : LeafKind) (text : String) : Tree :=
  match kind with
  | .number => .leaf .number ⟨.number, text, .emptyAt 0⟩
  | .identifier => .leaf .identifier ⟨.identifier, text, .emptyAt 0⟩

/-- Every instruction builds a node, which stands nowhere. -/
def trees : Interpretation Empty Tree where
  leaf kind text := .ok (leafTree kind text)
  unary operator x := .ok (.unary operator (.ofKind operator.kind) x (.emptyAt 0))
  binary operator x y := .ok (.binary operator (.ofKind operator.kind) x y (.emptyAt 0))
  call name args := .ok (.call name ⟨.function, name, .emptyAt 0⟩ args (.emptyAt 0))

private theorem evalAll_trees {xs : List Tree}
    (h : ∀ x ∈ xs, trees.eval x = .ok x.withoutSpans) :
    trees.evalAll xs = .ok (xs.map Tree.withoutSpans) := by
  induction xs with
  | nil => rfl
  | cons x xs ih =>
    obtain ⟨hx, hxs⟩ := List.forall_mem_cons.mp h
    rw [evalAll, hx, ih hxs]
    rfl

theorem eval_trees {registry : Registry} {tree : Tree} (h : tree.Readable registry) :
    trees.eval tree = .ok tree.withoutSpans := by
  -- The machine makes its own tokens. They are those of the tree, since each of these is legible and
  -- so has the text of its kind.
  induction tree with
  | leaf kind t =>
    obtain ⟨⟨hbuilt, -⟩, -⟩ := Tree.readable_iff.mp h
    obtain ⟨tokenKind, text, span⟩ := t
    cases kind with
    | number =>
      obtain rfl : tokenKind = .number := hbuilt
      rfl
    | identifier =>
      obtain rfl : tokenKind = .identifier := hbuilt
      rfl
  | unary o t x span ih =>
    obtain ⟨⟨hbuilt, hlegible⟩, hchildren⟩ := Tree.readable_iff.mp h
    have htoken : t.withoutSpan = .ofKind o.kind := by
      rw [UnaryOp.kind_of_ofKind? hbuilt]
      exact hlegible.withoutSpan_eq_ofKind (UnaryOp.isNamedByWord_of_ofKind? hbuilt)
    rw [eval, ih (hchildren x (by simp)), Tree.withoutSpans, htoken]
    rfl
  | binary o t l r span ihl ihr =>
    obtain ⟨⟨hbuilt, hlegible⟩, hchildren⟩ := Tree.readable_iff.mp h
    have htoken : t.withoutSpan = .ofKind o.kind := by
      rw [BinaryOp.kind_of_ofKind? hbuilt]
      exact hlegible.withoutSpan_eq_ofKind (BinaryOp.isNamedByWord_of_ofKind? hbuilt)
    rw [eval, ihl (hchildren l (by simp)), ihr (hchildren r (by simp)), Tree.withoutSpans, htoken]
    rfl
  | call name t args span ih =>
    obtain ⟨⟨⟨hkind, rfl⟩, -⟩, hchildren⟩ := Tree.readable_iff.mp h
    have htoken : t.withoutSpan = ⟨.function, t.text, .emptyAt 0⟩ := by
      rw [Token.withoutSpan, hkind]
    rw [eval, evalAll_trees fun x hx ↦ ih x hx (hchildren x hx), Tree.withoutSpans, htoken,
      Tree.withoutSpansAll_eq]
    rfl

/-! ## Operands that are decimals -/

/-- A number pushes its text as a decimal, an identifier the text bound to it. Operators are applied
and functions called. -/
def decimals (registry : Registry) (bindings : Bindings) : Interpretation EvalCause Decimal where
  leaf kind text :=
    let written := match kind with
      | .number => some text
      | .identifier => bindings.get? text
    match written with
    | none => .error (.missingIdentifier text)
    | some written => (Decimal.readValue? written).elim (.error (.malformedDecimal written)) .ok
  unary operator x := .ok (operator.apply x)
  binary operator x y := (operator.apply x y).mapError .operation
  call name values := (registry.call name values).mapError (.call name)

variable {registry : Registry} {bindings : Bindings}

theorem leaf_decimals (registry : Registry) (bindings : Bindings) (kind : LeafKind)
    (text : String) :
    (decimals registry bindings).leaf kind text = leafStep bindings kind text := by
  cases kind with
  | number =>
    dsimp only [decimals, leafStep, readDecimal]
    cases Decimal.readValue? text <;> rfl
  | identifier =>
    dsimp only [decimals, leafStep]
    cases bindings.get? text with
    | none => rfl
    | some bound =>
      dsimp only [readDecimal]
      cases Decimal.readValue? bound <;> rfl

private theorem evalAll_decimals {xs : List Tree}
    (h : ∀ x ∈ xs, (decimals registry bindings).eval x =
      (x.evaluate registry bindings).mapError EvalError.cause) :
    (decimals registry bindings).evalAll xs =
      (Tree.evaluateAll registry bindings xs).mapError EvalError.cause := by
  induction xs with
  | nil => rfl
  | cons x xs ih =>
    obtain ⟨hx, hxs⟩ := List.forall_mem_cons.mp h
    rw [evalAll, hx, ih hxs, Tree.evaluateAll]
    cases x.evaluate registry bindings with
    | error e => rfl
    | ok v => cases Tree.evaluateAll registry bindings xs <;> rfl

theorem eval_decimals (registry : Registry) (bindings : Bindings) (tree : Tree) :
    (decimals registry bindings).eval tree =
      (tree.evaluate registry bindings).mapError EvalError.cause := by
  have hlocated (t : Token) (outcome : Except EvalCause Decimal) :
      (located t outcome).mapError EvalError.cause = outcome := by cases outcome <;> rfl
  induction tree with
  | leaf kind t => rw [eval, Tree.evaluate, hlocated, leaf_decimals]
  | unary o t x span ih =>
    rw [eval, Tree.evaluate, ih]
    cases x.evaluate registry bindings <;> rfl
  | binary o t l r span ihl ihr =>
    rw [eval, Tree.evaluate, ihl, ihr]
    cases l.evaluate registry bindings with
    | error e => rfl
    | ok x =>
      cases r.evaluate registry bindings with
      | error e => rfl
      | ok y => exact (hlocated t (binaryStep o x y)).symm
  | call name t args span ih =>
    rw [eval, Tree.evaluate, evalAll_decimals ih]
    cases Tree.evaluateAll registry bindings args with
    | error e => rfl
    | ok values => exact (hlocated t (callStep registry name values)).symm

end Interpretation

/-! ## Trees that were read from formulas -/

open Interpretation

theorem Tree.run_trees {registry : Registry} {tree : Tree} (h : tree.Readable registry) :
    trees.run tree.instructions [] = .ok [tree.withoutSpans] := by
  rw [run_instructions_nil, eval_trees h]
  rfl

theorem Tree.withoutSpans_eq_of_reversePolish_eq {registry registry' : Registry}
    {tree tree' : Tree} (h : tree.Readable registry) (h' : tree'.Readable registry')
    (htext : tree.reversePolish = tree'.reversePolish) :
    tree.withoutSpans = tree'.withoutSpans := by
  have hinstructions : tree.instructions = tree'.instructions := by
    have hread := ofText?_reversePolish h
    rw [htext, ofText?_reversePolish h'] at hread
    exact (Option.some.inj hread).symm
  have hrun := run_trees h
  rw [hinstructions, run_trees h'] at hrun
  exact (List.singleton_inj.mp (Except.ok.inj hrun)).symm

/-- **Reverse Polish notation.** Let a tree be read from a formula. Its text in reverse Polish
notation, split at the blanks, is read as a program. Run on trees, the program never lacks an
operand and leaves one tree, which is equal but for the spans. Run on decimals, it leaves the value
of the tree and nothing else, and where the tree has none it halts with the cause of its error.
Trees that were read from formulas and have the same text in reverse Polish notation are equal but
for the spans. -/
theorem Engine.parse_reversePolish {e : Engine} {formula : String} {tree : Tree}
    (h : e.parse formula = .ok tree) :
    (∃ program, Instruction.ofText? tree.reversePolish = some program ∧
      trees.run program [] = .ok [tree.withoutSpans] ∧
      ∀ bindings, (decimals e.registry bindings).run program [] =
        ((tree.evaluate e.registry bindings).mapError fun error ↦ .failed error.cause).map
          fun value ↦ [value]) ∧
    ∀ (other : Engine) (formula' : String) (tree' : Tree), other.parse formula' = .ok tree' →
      tree'.reversePolish = tree.reversePolish → tree'.withoutSpans = tree.withoutSpans := by
  have hreadable := readable_of_parse h
  refine ⟨⟨tree.instructions, Tree.ofText?_reversePolish hreadable, Tree.run_trees hreadable,
    fun bindings ↦ ?_⟩, fun other formula' tree' h' htext ↦ ?_⟩
  · rw [run_instructions_nil, eval_decimals]
    cases tree.evaluate e.registry bindings <;> rfl
  · exact Tree.withoutSpans_eq_of_reversePolish_eq (readable_of_parse h') hreadable htext

/-- The sum of a sign and a call is built from its six words. -/
theorem Engine.parse_reversePolish_sign_in_sum :
    let tree : Tree := .mkBinary .add ⟨.plus, "+", ⟨2, 3⟩⟩
      (.mkUnary .minus ⟨.minus, "-", ⟨0, 1⟩⟩ (.leaf .number ⟨.number, "2", ⟨1, 2⟩⟩))
      (.call "MAX" ⟨.function, "MAX", ⟨3, 6⟩⟩
        [.leaf .identifier ⟨.identifier, "x", ⟨8, 9⟩⟩, .leaf .number ⟨.number, "1", ⟨11, 12⟩⟩]
        ⟨3, 13⟩)
    Engine.standard.parse "-2+MAX(\x7bx\x7d,1)" = .ok tree ∧
    ∃ program, Instruction.ofText? "2 neg \x7bx\x7d 1 MAX/2 +" = some program ∧
      trees.run program [] = .ok [tree.withoutSpans] := by
  intro tree
  have hparse : Engine.standard.parse "-2+MAX(\x7bx\x7d,1)" = .ok tree := by decide +kernel
  have htext : tree.reversePolish = "2 neg \x7bx\x7d 1 MAX/2 +" := by decide +kernel
  obtain ⟨⟨program, hprogram, hrun, -⟩, -⟩ := Engine.parse_reversePolish hparse
  rw [htext] at hprogram
  exact ⟨hparse, program, hprogram, hrun⟩

end DecimalFormula
