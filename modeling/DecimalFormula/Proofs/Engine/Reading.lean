import DecimalFormula.Engine
import DecimalFormula.Proofs.Parsing.Derivability
import DecimalFormula.Proofs.Scanning.Run

/-!
# From a formula to its tree

A formula is read in two steps, and both are characterised: it has a tree exactly if it can be
scanned and its tokens derive the tree within the limit, with calls the registry accepts
(`Engine.parse_eq_ok_iff`).

Two facts about a formula pass from its tokens to the nodes of its tree. Every node is built from a
token of its own sort, and every token can be read in a text again (`Tree.Readable`). That a
function name is registered and that a number has a value are parts of the second.
-/

namespace DecimalFormula

/-- A lexeme is one under any registry that has its name, if it is that of a function. -/
theorem Lexeme.of_contains {registry registry' : Registry} {kind : TokenKind} {text : String}
    {cs : List Char} (h : Lexeme registry kind text cs)
    (hcontains : kind = .function → registry'.contains text = true) :
    Lexeme registry' kind text cs := by
  cases h with
  | symbol h => exact .symbol h
  | openOperator h => exact .openOperator h
  | closedOperator h => exact .closedOperator h
  | number hcs hread => exact .number hcs hread
  | identifier hc hcs => exact .identifier hc hcs
  | function hc hcs => exact .function hc hcs (hcontains rfl)

/-! ## Trees of formulas -/

namespace Tree

variable {registry : Registry} {tree : Tree}

/-- The nodes of a tree are built from tokens of their own sorts that can be read in a text. -/
def Readable (registry : Registry) (tree : Tree) : Prop :=
  tree.WellBuilt ∧ ∀ node ∈ tree.nodes, node.token.Legible registry

theorem readable_iff : tree.Readable registry ↔
    (tree.BuiltFromToken ∧ tree.token.Legible registry) ∧
      ∀ child ∈ tree.children, child.Readable registry := by
  rw [Readable, wellBuilt_iff, forall_mem_nodes_iff]
  constructor
  · rintro ⟨⟨hbuilt, hbuilts⟩, hlegible, hlegibles⟩
    exact ⟨⟨hbuilt, hlegible⟩, fun child h ↦ ⟨hbuilts child h, hlegibles child h⟩⟩
  · rintro ⟨⟨hbuilt, hlegible⟩, hchildren⟩
    exact ⟨⟨hbuilt, fun child h ↦ (hchildren child h).1⟩, hlegible,
      fun child h ↦ (hchildren child h).2⟩

theorem readable_of_derivesWithin {n : Nat} {level : Level} {body : List Token}
    (h : DerivesWithin n level body tree) (hbody : ∀ t ∈ body, t.Legible registry) :
    tree.Readable registry :=
  ⟨h.wellBuilt, fun _ hnode ↦ hbody _ (h.token_mem hnode)⟩

end Tree

/-! ## Reading a formula -/

namespace Lexer

variable {registry : Registry} {formula : String} {tokens : List Token}

theorem legible_of_scan (h : scan registry formula = .ok tokens) :
    ∀ t ∈ tokens, t.isEnd = false → t.Legible registry := by
  obtain ⟨body, c, hlexes, -, rfl⟩ := scan_eq_ok_iff.mp h
  intro t ht hend
  rcases List.mem_append.mp ht with ht | ht
  · exact hlexes.legible t ht
  · rw [List.mem_singleton.mp ht] at hend
    cases hend

theorem closed_of_scan (h : scan registry formula = .ok tokens) :
    TokenCursor.closed tokens = tokens := by
  obtain ⟨body, c, -, -, rfl⟩ := scan_eq_ok_iff.mp h
  exact TokenCursor.closed_append rfl

end Lexer

namespace Engine

variable {e : Engine} {formula : String} {tree : Tree} {tokens : List Token}

theorem parse_of_scan (h : Lexer.scan e.registry formula = .ok tokens) :
    e.parse formula = (Tree.ofTokens e.registry e.limit tokens).mapError (.parse formula) := by
  rw [parse, lex, h]
  rfl

theorem parse_of_scan_error {error : LexicalError}
    (h : Lexer.scan e.registry formula = .error error) :
    e.parse formula = .error (.lexical formula error) := by
  rw [parse, lex, h]
  rfl

theorem exists_of_parse_eq_error {error : Error} (h : e.parse formula = .error error) :
    (∃ lexical, Lexer.scan e.registry formula = .error lexical ∧
      error = .lexical formula lexical) ∨
    ∃ tokens parse, Lexer.scan e.registry formula = .ok tokens ∧
      Tree.ofTokens e.registry e.limit tokens = .error parse ∧ error = .parse formula parse := by
  cases hscan : Lexer.scan e.registry formula with
  | error lexical =>
    rw [parse_of_scan_error hscan] at h
    exact .inl ⟨lexical, rfl, (Except.error.inj h).symm⟩
  | ok tokens =>
    rw [parse_of_scan hscan] at h
    cases hparse : Tree.ofTokens e.registry e.limit tokens with
    | ok tree =>
      rw [hparse] at h
      cases h
    | error parse =>
      rw [hparse] at h
      exact .inr ⟨tokens, parse, rfl, hparse, (Except.error.inj h).symm⟩

theorem exists_of_evalFormula_eq_error {bindings : Bindings} {error : Error}
    (h : e.evalFormula bindings formula = .error error) : e.parse formula = .error error ∨
    ∃ tree evaluation, e.parse formula = .ok tree ∧
      tree.evaluate e.registry bindings = .error evaluation ∧
      error = .evaluation (some formula) evaluation := by
  rw [evalFormula] at h
  cases hparse : e.parse formula with
  | error parse =>
    rw [hparse] at h
    cases h
    exact .inl rfl
  | ok tree =>
    rw [hparse, Except.bind, evaluate] at h
    cases heval : tree.evaluate e.registry bindings with
    | ok value =>
      rw [heval] at h
      cases h
    | error evaluation =>
      rw [heval] at h
      exact .inr ⟨tree, evaluation, rfl, heval, (Except.error.inj h).symm⟩

/-- A formula has a tree exactly if its tokens leave nothing but blanks, and derive the tree within
the limit with calls that are accepted. -/
theorem parse_eq_ok_iff : e.parse formula = .ok tree ↔
    ∃ body c, Lexer.Lexes e.registry (.start formula.toList) body c ∧
      (∀ b ∈ c.rest, isBlank b = true) ∧ DerivesWithin e.limit .disjunction body tree ∧
      tree.Accepted e.registry := by
  have hparse : ∀ {body c}, Lexer.Lexes e.registry (.start formula.toList) body c →
      (∀ b ∈ c.rest, isBlank b = true) → (e.parse formula = .ok tree ↔
        DerivesWithin e.limit .disjunction body tree ∧ tree.Accepted e.registry) := by
    intro body c hlexes hblanks
    have hend : (Token.endAt (.ofNat (byteLength formula.toList))).isEnd = true := rfl
    rw [parse_of_scan (Lexer.scan_eq_ok_iff.mpr ⟨body, c, hlexes, hblanks, rfl⟩),
      ← Tree.ofTokens_append_eq_ok_iff hlexes.isEnd_eq_false hend]
    cases Tree.ofTokens e.registry e.limit (body ++ [_]) <;>
      simp [Except.mapError]
  constructor
  · intro h
    cases hscan : Lexer.scan e.registry formula with
    | error error =>
      rw [parse_of_scan_error hscan] at h
      cases h
    | ok tokens =>
      obtain ⟨body, c, hlexes, hblanks, -⟩ := Lexer.scan_eq_ok_iff.mp hscan
      exact ⟨body, c, hlexes, hblanks, (hparse hlexes hblanks).mp h⟩
  · rintro ⟨body, c, hlexes, hblanks, hderives⟩
    exact (hparse hlexes hblanks).mpr hderives

theorem readable_of_parse (h : e.parse formula = .ok tree) : tree.Readable e.registry := by
  obtain ⟨body, c, hlexes, -, hderives, -⟩ := parse_eq_ok_iff.mp h
  exact Tree.readable_of_derivesWithin hderives hlexes.legible

theorem accepted_of_parse (h : e.parse formula = .ok tree) : tree.Accepted e.registry := by
  obtain ⟨body, c, -, -, -, haccepted⟩ := parse_eq_ok_iff.mp h
  exact haccepted

end Engine

end DecimalFormula
