import DecimalFormula.Proofs.Engine.Reading
import Mathlib.Data.List.Basic

/-!
# Words in reverse Polish notation

A tree in reverse Polish notation is a row of words with single blanks between them, one word for
every node and children before their parents. A word by itself tells what it asks for
(`Instruction.ofWord?`): its first character decides whether it is a number, an identifier, or
neither. What is left is a function with the number of its arguments if a slash stands behind a
letter, and otherwise an operator. So `/` is no call, and the signs, which are words here, are none
of the operators `+` and `-`.

The words of a tree that was read from a formula contain no blank, so splitting the text at its
blanks gives back the words, and reading them the instructions (`Tree.ofText?_reversePolish`).
-/

namespace DecimalFormula

/-! ## Instructions -/

/-- What a word asks for. -/
inductive Instruction
  /-- A number or an identifier. -/
  | leaf (kind : LeafKind) (text : String)
  /-- An operator for one operand. -/
  | unary (operator : UnaryOp)
  /-- An operator for two operands. -/
  | binary (operator : BinaryOp)
  /-- A function for so many arguments. -/
  | call (name : String) (count : Nat)
deriving DecidableEq, Repr

namespace Instruction

/-- How an instruction is written. -/
def word : Instruction → String
  | leaf .number text => text
  | leaf .identifier text => "\x7b" ++ text ++ "\x7d"
  | unary operator => operator.word
  | binary operator => operator.literal
  | call name count => name ++ "/" ++ toString count

/-- The operators for one operand and for two. -/
def operators : List Instruction :=
  [UnaryOp.plus, .minus, .not].map unary ++
    [BinaryOp.or, .and, .equal, .notEqual, .greater, .greaterOrEqual, .less, .lessOrEqual, .add,
      .subtract, .multiply, .divide, .power].map binary

/-- A function name and a number of arguments with a slash between them. -/
def ofCall? (cs : List Char) : Option Instruction :=
  match cs.splitOn '/' with
  | [name, count] =>
    if count ≠ [] ∧ count.all Char.isDigit then
      some (call (.ofList name) (Nat.ofDigitChars 10 count 0))
    else none
  | _ => none

/-- The instruction that some characters are the word of. -/
def ofWord? : List Char → Option Instruction
  | [] => none
  | c :: cs =>
    if c.isDigit then some (leaf .number (.ofList (c :: cs)))
    else if c = '\x7b' ∧ cs.getLast? = some '\x7d' then
      some (leaf .identifier (.ofList cs.dropLast))
    else if c.isAlpha ∧ '/' ∈ cs then ofCall? (c :: cs)
    else operators.find? fun i ↦ i.word.toList = c :: cs

/-- The instructions of a text, whose words are separated by single blanks. -/
def ofText? (text : String) : Option (List Instruction) :=
  (text.toList.splitOn ' ').mapM ofWord?

/-! ### Reading a word -/

/-- The texts in an instruction are such as formulas have. -/
def Plain : Instruction → Prop
  | leaf .number text => Numeral text.toList
  | leaf .identifier text => ∀ c ∈ text.toList, continuesIdentifier c = true
  | unary _ | binary _ => True
  | call name _ => ∃ c cs, name.toList = c :: cs ∧ c.isAlpha = true ∧
      ∀ d ∈ c :: cs, continuesName d = true

theorem mem_operators_unary (operator : UnaryOp) : unary operator ∈ operators := by
  cases operator <;> decide

theorem mem_operators_binary (operator : BinaryOp) : binary operator ∈ operators := by
  cases operator <;> decide

theorem ofWord?_of_mem_operators {i : Instruction} (h : i ∈ operators) :
    ofWord? i.word.toList = some i ∧ ' ' ∉ i.word.toList := by
  revert h i
  decide

theorem ofCall?_word {name : String} (hname : '/' ∉ name.toList) (count : Nat) :
    ofCall? (call name count).word.toList = some (call name count) := by
  have hdigits : ∀ d ∈ Nat.toDigits 10 count, d.isDigit = true :=
    fun d ↦ Nat.isDigit_of_mem_toDigits (by decide) (by decide)
  have hslash : '/' ∉ Nat.toDigits 10 count := fun hmem ↦ absurd (hdigits _ hmem) (by decide)
  have hchars : (call name count).word.toList = name.toList ++ '/' :: Nat.toDigits 10 count := by
    simp [word]
  have hsplit : (call name count).word.toList.splitOn '/' =
      [name.toList, Nat.toDigits 10 count] := by
    rw [hchars, List.splitOn_append_cons_self_of_not_mem hname, List.splitOn_eq_singleton hslash]
  rw [ofCall?, hsplit]
  dsimp only
  rw [if_pos ⟨Nat.toDigits_ne_nil, List.all_eq_true.mpr hdigits⟩, Nat.ofDigitChars_ten_toDigits,
    String.ofList_toList]

theorem ofWord?_word {i : Instruction} (h : i.Plain) : ofWord? i.word.toList = some i := by
  cases i with
  | leaf kind text =>
    cases kind with
    | number =>
      have hnumeral : Numeral text.toList := h
      obtain ⟨c, cs, hchars⟩ := List.exists_cons_of_ne_nil hnumeral.ne_nil
      rw [hchars] at hnumeral
      rw [word, hchars, ofWord?, if_pos hnumeral.isDigit_head, ← hchars, String.ofList_toList]
    | identifier =>
      have hchars : (leaf .identifier text).word.toList = '\x7b' :: (text.toList ++ ['\x7d']) := by
        simp [word]
      rw [hchars, ofWord?, if_neg (by decide), if_pos ⟨rfl, List.getLast?_concat⟩,
        List.dropLast_concat, String.ofList_toList]
  | unary operator => exact (ofWord?_of_mem_operators (mem_operators_unary operator)).1
  | binary operator => exact (ofWord?_of_mem_operators (mem_operators_binary operator)).1
  | call name count =>
    obtain ⟨c, cs, hname, hc, hcs⟩ := h
    have hslash : '/' ∉ name.toList := by
      rw [hname]
      exact fun hmem ↦ absurd (hcs _ hmem) (by decide)
    have hbrace : c ≠ '\x7b' := by
      rintro rfl
      exact absurd hc (by decide)
    have hchars : (call name count).word.toList = c :: (cs ++ '/' :: Nat.toDigits 10 count) := by
      simp [word, hname]
    rw [hchars, ofWord?, if_neg (by simp [isDigit_eq_false_of_isAlpha hc]),
      if_neg (fun hidentifier ↦ hbrace hidentifier.1), if_pos ⟨hc, by simp⟩, ← hchars,
      ofCall?_word hslash]

theorem blank_not_mem_word {i : Instruction} (h : i.Plain) : ' ' ∉ i.word.toList := by
  cases i with
  | leaf kind text =>
    cases kind with
    | number =>
      have hnumeral : Numeral text.toList := h
      intro hmem
      rcases hnumeral.isDigit_or_eq_point _ hmem with hdigit | hpoint
      · exact absurd hdigit (by decide)
      · exact absurd hpoint (by decide)
    | identifier =>
      intro hmem
      have hmem : ' ' ∈ text.toList := by simpa [word] using hmem
      exact absurd (h _ hmem) (by decide)
  | unary operator => exact (ofWord?_of_mem_operators (mem_operators_unary operator)).2
  | binary operator => exact (ofWord?_of_mem_operators (mem_operators_binary operator)).2
  | call name count =>
    obtain ⟨c, cs, hname, -, hcs⟩ := h
    intro hmem
    have hmem : ' ' ∈ c :: cs ∨ ' ' ∈ Nat.toDigits 10 count := by
      simpa [word, hname, or_assoc] using hmem
    rcases hmem with hmem | hmem
    · exact absurd (hcs _ hmem) (by decide)
    · exact absurd (Nat.isDigit_of_mem_toDigits (by decide) (by decide) hmem) (by decide)

theorem mapM_ofWord?_word {is : List Instruction} (h : ∀ i ∈ is, i.Plain) :
    (is.map fun i ↦ i.word.toList).mapM ofWord? = some is := by
  induction is with
  | nil => rfl
  | cons i is ih =>
    obtain ⟨hi, his⟩ := List.forall_mem_cons.mp h
    rw [List.map_cons, List.mapM_cons, ofWord?_word hi, ih his]
    rfl

theorem ofText?_intercalate {is : List Instruction} (hne : is ≠ []) (h : ∀ i ∈ is, i.Plain) :
    ofText? (" ".intercalate (is.map word)) = some is := by
  have hchars : (" ".intercalate (is.map word)).toList =
      [' '].intercalate (is.map fun i ↦ i.word.toList) := by
    simp [Function.comp_def]
  have hblank : ∀ cs ∈ is.map fun i ↦ i.word.toList, ' ' ∉ cs :=
    List.forall_mem_map.mpr fun i hi ↦ blank_not_mem_word (h i hi)
  rw [ofText?, hchars, List.splitOn_intercalate ' ' hblank (by simpa using hne),
    mapM_ofWord?_word h]

end Instruction

/-! ## The instructions of a tree -/

namespace Tree

variable {registry : Registry} {tree node : Tree}

/-- The instruction of the root. -/
def instruction : Tree → Instruction
  | leaf kind t => .leaf kind t.text
  | unary operator _ _ _ => .unary operator
  | binary operator _ _ _ _ => .binary operator
  | call name _ args _ => .call name args.length

/-- The instructions of all nodes, children before their parents. -/
def instructions (tree : Tree) : List Instruction :=
  (postorder [] tree).map fun p ↦ p.node.instruction

private theorem map_instruction_postorder (tree : Tree) (above above' : List Tree) :
    (postorder above tree).map (fun p ↦ p.node.instruction) =
      (postorder above' tree).map fun p ↦ p.node.instruction := by
  induction tree using inductOnChildren generalizing above above' with
  | node tree ih =>
    rw [postorder_eq, postorder_eq, postorderAll_eq, postorderAll_eq, List.map_append,
      List.map_append, List.map_flatMap, List.map_flatMap]
    congr 1
    exact List.flatMap_congr fun child hchild ↦ ih child hchild _ _

theorem instructions_eq (tree : Tree) :
    instructions tree = tree.children.flatMap instructions ++ [tree.instruction] := by
  rw [instructions, postorder_eq, postorderAll_eq, List.map_append, List.map_flatMap]
  congr 1
  exact List.flatMap_congr fun child _ ↦ map_instruction_postorder child _ _

theorem instructions_ne_nil (tree : Tree) : instructions tree ≠ [] := by
  rw [instructions_eq]
  simp

theorem words_eq_children (tree : Tree) :
    words tree = tree.children.flatMap words ++ [tree.instruction.word] := by
  cases tree with
  | leaf kind t => cases kind <;> rfl
  | unary => rw [words, children_unary, List.flatMap_singleton]; rfl
  | binary => rw [words, children_binary, List.flatMap_cons, List.flatMap_singleton]; rfl
  | call => rw [words, children_call, wordsAll_eq]; rfl

theorem words_eq (tree : Tree) : words tree = (instructions tree).map Instruction.word := by
  induction tree using inductOnChildren with
  | node tree ih =>
    rw [words_eq_children, instructions_eq, List.map_append, List.map_flatMap,
      List.flatMap_congr ih, List.map_singleton]

theorem plain_instruction (hbuilt : node.BuiltFromToken)
    (hlegible : node.token.Legible registry) : node.instruction.Plain := by
  have hlexeme : Lexeme registry node.token.kind node.token.text node.token.render.toList :=
    hlegible
  cases node with
  | leaf kind t =>
    rw [token] at hlexeme
    cases kind with
    | number =>
      rw [show t.kind = .number from hbuilt] at hlexeme
      obtain ⟨hnumeral, htext, -⟩ := hlexeme.numeral_of_number
      rw [← String.toList_inj, String.toList_ofList] at htext
      have hplain : Numeral t.text.toList := htext ▸ hnumeral
      exact hplain
    | identifier =>
      rw [show t.kind = .identifier from hbuilt] at hlexeme
      obtain ⟨c, cs, -, htext, hc, hcs⟩ := hlexeme.name_of_identifier
      rw [← String.toList_inj, String.toList_ofList] at htext
      have hplain : ∀ d ∈ t.text.toList, continuesIdentifier d = true :=
        htext ▸ forall_continuesIdentifier hc hcs
      exact hplain
  | unary | binary => exact trivial
  | call name t args span =>
    obtain ⟨hkind, rfl⟩ := hbuilt
    rw [token, hkind] at hlexeme
    obtain ⟨c, cs, -, htext, hc, hcs, -⟩ := hlexeme.name_of_function
    rw [← String.toList_inj, String.toList_ofList] at htext
    have hupper : ∀ d ∈ (c :: cs).map Char.toUpper, continuesName d = true :=
      List.forall_mem_map.mpr fun d hd ↦
        continuesName_toUpper (forall_continuesName hc hcs d hd)
    exact ⟨c.toUpper, cs.map Char.toUpper, htext, isAlpha_toUpper hc, hupper⟩

theorem plain_of_mem_instructions (h : tree.Readable registry) :
    ∀ i ∈ instructions tree, i.Plain := by
  refine List.forall_mem_map.mpr fun p hp ↦ ?_
  have hnode := (mem_nodes_of_mem_postorder hp).1
  exact plain_instruction (h.1 _ hnode) (h.2 _ hnode)

/-- **Reading the words.** The text of a tree in reverse Polish notation is split and read as the
instructions of the tree. -/
theorem ofText?_reversePolish (h : tree.Readable registry) :
    Instruction.ofText? tree.reversePolish = some tree.instructions := by
  rw [reversePolish, words_eq]
  exact Instruction.ofText?_intercalate (instructions_ne_nil tree) (plain_of_mem_instructions h)

end Tree

end DecimalFormula
