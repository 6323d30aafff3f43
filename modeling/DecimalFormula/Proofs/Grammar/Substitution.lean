import DecimalFormula.Proofs.Evaluation.Order
import DecimalFormula.Proofs.Grammar.Shape
import DecimalFormula.Proofs.Parsing.Soundness
import Mathlib.Data.List.Chain

/-!
# Numbers in place of identifiers

An identifier can be replaced by a number wherever it occurs. Both are primaries by themselves, so
the tokens of a formula derive the tree with the number then (`DerivesWithin.substitute`), and that
tree is worth what the old one is worth if the identifier is bound to the number
(`Tree.evaluate_substitute`).

In a text it matters what stands next to the identifier, as a number could grow together with
another one. By the grammar no operand stands directly behind another
(`DerivesWithin.isChain_apart`).
-/

namespace DecimalFormula

variable {name value : String} {registry : Registry} {bindings : Bindings}

/-! ## Tokens -/

/-- The token with a number in place of an identifier, if it is the identifier of this name. -/
def Token.substitute (name value : String) (t : Token) : Token :=
  if t.kind = .identifier ∧ t.text = name then { t with kind := .number, text := value } else t

theorem Token.substitute_of_kind_ne {t : Token} (h : t.kind ≠ .identifier) :
    t.substitute name value = t :=
  if_neg fun hsame ↦ h hsame.1

/-- Whether tokens of this kind are operands by themselves. -/
def TokenKind.isOperand (kind : TokenKind) : Bool := kind == .number || kind == .identifier

/-- At most one of two neighbours is an operand by itself. -/
def Token.Apart (t u : Token) : Prop := ¬ (t.kind.isOperand = true ∧ u.kind.isOperand = true)

/-! ## Trees -/

namespace Tree

mutual

/-- The tree with a number at all leaves that are the identifier of this name. -/
def substitute (name value : String) : Tree → Tree
  | leaf .number t => leaf .number t
  | leaf .identifier t =>
    if t.text = name then leaf .number { t with kind := .number, text := value }
    else leaf .identifier t
  | unary o t x span => unary o t (substitute name value x) span
  | binary o t l r span => binary o t (substitute name value l) (substitute name value r) span
  | call f t args span => call f t (substituteAll name value args) span

def substituteAll (name value : String) : List Tree → List Tree
  | [] => []
  | x :: xs => substitute name value x :: substituteAll name value xs

end

theorem substituteAll_eq (name value : String) (xs : List Tree) :
    substituteAll name value xs = xs.map (substitute name value) := by
  induction xs with
  | nil => rfl
  | cons x xs ih => rw [substituteAll, ih, List.map_cons]

@[simp] theorem span_substitute (tree : Tree) : (tree.substitute name value).span = tree.span := by
  cases tree with
  | leaf kind t =>
    cases kind with
    | number => rfl
    | identifier =>
      rw [substitute]
      split <;> rfl
  | unary | binary | call => rfl

@[simp] theorem substitute_mkUnary (o : UnaryOp) (t : Token) (x : Tree) :
    (mkUnary o t x).substitute name value = mkUnary o t (x.substitute name value) := by
  rw [mkUnary, substitute, mkUnary, span_substitute]

@[simp] theorem substitute_mkBinary (o : BinaryOp) (t : Token) (l r : Tree) :
    (mkBinary o t l r).substitute name value =
      mkBinary o t (l.substitute name value) (r.substitute name value) := by
  rw [mkBinary, substitute, mkBinary, span_substitute, span_substitute]

theorem children_substitute (tree : Tree) :
    (tree.substitute name value).children = tree.children.map (substitute name value) := by
  cases tree with
  | leaf kind t =>
    cases kind with
    | number => rfl
    | identifier =>
      rw [substitute]
      split <;> rfl
  | unary | binary => rfl
  | call => rw [substitute, children_call, children_call, substituteAll_eq]

theorem callAccepted_substitute {tree : Tree} (h : tree.CallAccepted registry) :
    (tree.substitute name value).CallAccepted registry := by
  cases tree with
  | leaf kind t =>
    cases kind with
    | number => trivial
    | identifier =>
      rw [substitute]
      split <;> trivial
  | unary | binary => trivial
  | call => rwa [substitute, CallAccepted, substituteAll_eq, List.length_map]

/-- A number is no call, and every call keeps the number of its arguments. -/
theorem Accepted.substitute {tree : Tree} (h : tree.Accepted registry) :
    (tree.substitute name value).Accepted registry := by
  induction tree using inductOnChildren with
  | node tree ih =>
    obtain ⟨hcall, hchildren⟩ := accepted_iff.mp h
    refine accepted_iff.mpr ⟨callAccepted_substitute hcall, ?_⟩
    rw [children_substitute]
    exact List.forall_mem_map.mpr fun child hchild ↦ ih child hchild (hchildren child hchild)

/-! ## Values -/

theorem leafStep_insert (bindings : Bindings) (text : String) :
    leafStep (bindings.insert name value) .identifier text =
      if text = name then leafStep bindings .number value
      else leafStep bindings .identifier text := by
  simp only [leafStep, NameMap.get?_insert]
  by_cases hname : text = name
  · rw [if_pos hname, if_pos hname]
  · rw [if_neg hname, if_neg hname]

/-- The tree with the number has the value, or the error, that the
tree has if the identifier is bound to the number. -/
theorem evaluate_substitute (registry : Registry) (bindings : Bindings) (tree : Tree) :
    (tree.substitute name value).evaluate registry bindings =
      tree.evaluate registry (bindings.insert name value) := by
  induction tree with
  | leaf kind t =>
    cases kind with
    | number => rfl
    | identifier =>
      rw [substitute, evaluate, leafStep_insert]
      split <;> rfl
  | unary o t x span ih => rw [substitute, evaluate, evaluate, ih]
  | binary o t l r span ihl ihr => rw [substitute, evaluate, evaluate, ihl, ihr]
  | call f t args span ih =>
    have hargs : evaluateAll registry bindings (args.map (substitute name value)) =
        evaluateAll registry (bindings.insert name value) args :=
      evaluateAll_congr (List.forall₂_map_left_iff.mpr (List.forall₂_same.mpr ih))
    rw [substitute, evaluate, evaluate, substituteAll_eq, hargs]

end Tree

/-! ## Derivations -/

def FurtherArgument.substitute (name value : String) (m : FurtherArgument) : FurtherArgument :=
  ⟨m.comma, m.tokens.map (Token.substitute name value), m.tree.substitute name value⟩

theorem map_substitute_furtherTokens {more : List FurtherArgument}
    (hcommas : ∀ m ∈ more, m.comma.kind = .comma) :
    (furtherTokens more).map (Token.substitute name value) =
      furtherTokens (more.map (FurtherArgument.substitute name value)) := by
  rw [furtherTokens, furtherTokens, List.map_flatMap, List.flatMap_map]
  refine List.flatMap_congr fun m hm ↦ ?_
  have hcomma : m.comma.kind ≠ .identifier := by
    rw [hcommas m hm]
    decide
  rw [List.map_cons, Token.substitute_of_kind_ne hcomma, FurtherArgument.substitute]

/-- Operands stay apart on both sides of another token. -/
theorem isChain_apart_append_cons {ts us : List Token} {t : Token} (hts : ts.IsChain Token.Apart)
    (ht : t.kind.isOperand = false) (hus : us.IsChain Token.Apart) :
    (ts ++ t :: us).IsChain Token.Apart := by
  refine List.isChain_append.mpr ⟨hts, List.isChain_cons.mpr ⟨fun u _ ↦ ?_, hus⟩, ?_⟩
  · exact fun h ↦ absurd h.1 (by simp [ht])
  · rintro u - v ⟨⟩ h
    exact absurd h.2 (by simp [ht])

theorem isChain_apart_furtherTokens {ts : List Token} {more : List FurtherArgument}
    (hts : ts.IsChain Token.Apart) (hcommas : ∀ m ∈ more, m.comma.kind = .comma)
    (hmore : ∀ m ∈ more, m.tokens.IsChain Token.Apart) :
    (ts ++ furtherTokens more).IsChain Token.Apart := by
  induction more generalizing ts with
  | nil => rwa [furtherTokens, List.flatMap_nil, List.append_nil]
  | cons m more ih =>
    obtain ⟨hcomma, hcommas⟩ := List.forall_mem_cons.mp hcommas
    obtain ⟨hm, hmore⟩ := List.forall_mem_cons.mp hmore
    rw [furtherTokens, List.flatMap_cons, List.cons_append]
    exact isChain_apart_append_cons hts (by rw [hcomma]; rfl) (ih hm hcommas hmore)

theorem Level.kind_of_sign? {level : Level} {kind : TokenKind} {o : UnaryOp}
    (h : level.sign? kind = some o) : kind.isOperand = false ∧ kind ≠ .identifier := by
  have hkind := (sign?_eq_some_iff.mp h).1
  constructor
  · cases kind <;> first | rfl | cases hkind
  · rintro rfl
    cases hkind

theorem Level.kind_of_operator? {level : Level} {kind : TokenKind} {o : BinaryOp}
    (h : level.operator? kind = some o) : kind.isOperand = false ∧ kind ≠ .identifier := by
  have hkind := (operator?_eq_some_iff.mp h).1
  constructor
  · cases kind <;> first | rfl | cases hkind
  · rintro rfl
    cases hkind

namespace DerivesWithin

variable {n : Nat} {level : Level} {body : List Token} {tree : Tree}

theorem substitute (h : DerivesWithin n level body tree) (name value : String) :
    DerivesWithin n level (body.map (Token.substitute name value))
      (tree.substitute name value) := by
  have hkeep {t : Token} {kind : TokenKind} (ht : t.kind = kind) (hkind : kind ≠ .identifier) :
      t.substitute name value = t :=
    Token.substitute_of_kind_ne (ht ▸ hkind)
  -- Only identifiers are replaced, and by tokens that can stand in their places. All others keep
  -- their kinds, on which alone the grammar depends.
  induction h with
  | tighter hlevel _ ih => exact .tighter hlevel ih
  | sign ht _ ih =>
    rw [List.map_cons, hkeep rfl (Level.kind_of_sign? ht).2, Tree.substitute_mkUnary]
    exact .sign ht ih
  | join _ ht _ ihx ihy =>
    rw [List.map_append, List.map_cons, hkeep rfl (Level.kind_of_operator? ht).2,
      Tree.substitute_mkBinary]
    exact .join ihx ht ihy
  | number ht =>
    rw [List.map_singleton, hkeep ht (by decide)]
    exact .number ht
  | @identifier _ t ht =>
    rw [List.map_singleton, Tree.substitute, Token.substitute]
    by_cases hname : t.text = name
    · rw [if_pos hname, if_pos ⟨ht, hname⟩]
      exact .number rfl
    · rw [if_neg hname, if_neg fun h ↦ hname h.2]
      exact .identifier ht
  | parenthesized ht _ hu ih =>
    rw [List.map_cons, List.map_append, List.map_singleton, hkeep ht (by decide),
      hkeep hu (by decide)]
    exact .parenthesized ht ih hu
  | emptyCall hf ht hu =>
    rw [List.map_cons, List.map_cons, List.map_singleton, hkeep hf (by decide),
      hkeep ht (by decide), hkeep hu (by decide)]
    exact .emptyCall hf ht hu
  | @call _ f t xs x more u hf ht _ hcommas _ hu ihx ihmore =>
    have htrees : (x :: more.map FurtherArgument.tree).map (Tree.substitute name value) =
        x.substitute name value ::
          (more.map (FurtherArgument.substitute name value)).map FurtherArgument.tree := by
      rw [List.map_cons, List.map_map, List.map_map]
      rfl
    rw [List.map_cons, List.map_cons, List.map_append, List.map_append, List.map_singleton,
      map_substitute_furtherTokens hcommas, hkeep hf (by decide), hkeep ht (by decide),
      hkeep hu (by decide), Tree.substitute, Tree.substituteAll_eq, htrees]
    exact .call hf ht ihx (List.forall_mem_map.mpr hcommas) (List.forall_mem_map.mpr ihmore) hu

theorem isChain_apart (h : DerivesWithin n level body tree) : body.IsChain Token.Apart := by
  have hdelimiter {t : Token} {kind : TokenKind} (ht : t.kind = kind)
      (hkind : kind.isOperand = false) : t.kind.isOperand = false := ht ▸ hkind
  induction h with
  | tighter _ _ ih => exact ih
  | sign ht _ ih => exact isChain_apart_append_cons .nil (Level.kind_of_sign? ht).1 ih
  | join _ ht _ ihx ihy => exact isChain_apart_append_cons ihx (Level.kind_of_operator? ht).1 ihy
  | number | identifier => exact .singleton _
  | parenthesized ht _ hu ih =>
    exact isChain_apart_append_cons .nil (hdelimiter ht rfl)
      (isChain_apart_append_cons ih (hdelimiter hu rfl) .nil)
  | emptyCall hf ht hu =>
    exact isChain_apart_append_cons .nil (hdelimiter hf rfl) <|
      isChain_apart_append_cons .nil (hdelimiter ht rfl) (.singleton _)
  | call hf ht _ hcommas _ hu ihx ihmore =>
    exact isChain_apart_append_cons .nil (hdelimiter hf rfl) <|
      isChain_apart_append_cons .nil (hdelimiter ht rfl) <|
      isChain_apart_append_cons (isChain_apart_furtherTokens ihx hcommas ihmore)
        (hdelimiter hu rfl) .nil

end DerivesWithin

end DecimalFormula
