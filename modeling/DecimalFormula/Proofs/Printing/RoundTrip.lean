import DecimalFormula.Proofs.Printing.Text

/-!
# Printing and reading again

The text of a tree that was read from a formula is read as the same tree, but for the spans
(`Engine.parse_render`). The parentheses of the text are paid for by the limit: nine levels for
every node on a longest path always do.

A tree is therefore known from its text, whatever formulas and registries it came from. Two trees
with one text are compared under a third registry, which permits the names of both.
-/

namespace DecimalFormula

namespace Tree

variable {registry : Registry} {tree : Tree}

theorem children_withoutSpans (tree : Tree) :
    (withoutSpans tree).children = tree.children.map withoutSpans := by
  cases tree with
  | call => rw [withoutSpans, children_call, children_call, withoutSpansAll_eq]
  | _ => rfl

theorem callAccepted_withoutSpans :
    (withoutSpans tree).CallAccepted registry ↔ tree.CallAccepted registry := by
  cases tree with
  | call => rw [withoutSpans, CallAccepted, CallAccepted, withoutSpansAll_eq, List.length_map]
  | _ => exact Iff.rfl

theorem accepted_withoutSpans :
    (withoutSpans tree).Accepted registry ↔ tree.Accepted registry := by
  induction tree using inductOnChildren with
  | node tree ih =>
    rw [accepted_iff, accepted_iff, callAccepted_withoutSpans, children_withoutSpans,
      List.forall_mem_map]
    exact and_congr_right' (forall₂_congr ih)

theorem exists_parse_render (hreadable : tree.Readable registry)
    (haccepted : tree.Accepted registry) {limit : Nat} (hlimit : 9 * tree.height ≤ limit) :
    ∃ x, (Engine.mk registry limit).parse tree.render = .ok x ∧
      x.withoutSpans = tree.withoutSpans := by
  have hpos := height_pos tree
  have hends : TokenKind.number.EndsAt [] := by simp [TokenKind.EndsAt]
  obtain ⟨us, n, hlexes, hwords⟩ := spells_render hreadable hends 0
  rw [List.append_nil] at hlexes
  have hrederives : Rederives limit .disjunction tree :=
    (rederives hreadable.1 (n := limit - 7) (by omega)).of_primary
      (by rw [show Level.disjunction.rank = 0 from rfl]; omega)
  obtain ⟨x, hx, hsame⟩ := hrederives us hwords
  refine ⟨x, Engine.parse_eq_ok_iff.mpr ⟨us, _, hlexes, List.forall_mem_nil _, hx, ?_⟩, hsame⟩
  rwa [← accepted_withoutSpans, hsame, accepted_withoutSpans]

/-- A tree that is readable under some registry is so wherever the names in it are permitted. -/
theorem readable_permitting (h : tree.Readable registry) {names : List String}
    (hnames : ∀ node ∈ tree.nodes, node.token.text ∈ names) :
    tree.Readable (.permitting names) := by
  refine ⟨h.1, fun node hnode ↦ (h.2 node hnode).of_contains fun _ ↦ ?_⟩
  rw [← Registry.arity?_isSome, Registry.arity?_permitting (hnames node hnode)]
  rfl

theorem withoutSpans_eq_of_render_eq {registry' : Registry} {tree' : Tree}
    (h : tree.Readable registry) (h' : tree'.Readable registry')
    (hrender : tree.render = tree'.render) : tree.withoutSpans = tree'.withoutSpans := by
  have hnames : ∀ node ∈ tree.nodes ++ tree'.nodes,
      node.token.text ∈ (tree.nodes ++ tree'.nodes).map fun node ↦ node.token.text :=
    fun node hnode ↦ List.mem_map_of_mem hnode
  have hleft := fun node hnode ↦ hnames node (List.mem_append_left _ hnode)
  have hright := fun node hnode ↦ hnames node (List.mem_append_right _ hnode)
  -- One engine reads both texts, so it gives one answer.
  obtain ⟨x, hx, hsamex⟩ := exists_parse_render (readable_permitting h hleft)
    (accepted_permitting h.1 hleft) (Nat.mul_le_mul_left 9 (Nat.le_max_left _ tree'.height))
  obtain ⟨y, hy, hsamey⟩ := exists_parse_render (readable_permitting h' hright)
    (accepted_permitting h'.1 hright) (Nat.mul_le_mul_left 9 (Nat.le_max_right tree.height _))
  rw [hrender, hy] at hx
  cases hx
  exact hsamex.symm.trans hsamey

theorem render_eq_of_withoutSpans_eq {x y : Tree} (h : x.withoutSpans = y.withoutSpans) :
    x.render = y.render := by
  rw [← render_withoutSpans x, h, render_withoutSpans]

theorem reversePolish_eq_of_withoutSpans_eq {x y : Tree} (h : x.withoutSpans = y.withoutSpans) :
    x.reversePolish = y.reversePolish := by
  rw [reversePolish, reversePolish, ← words_withoutSpans x, h, words_withoutSpans]

theorem evaluate_eq_of_withoutSpans_eq {x y : Tree} (h : x.withoutSpans = y.withoutSpans)
    (registry : Registry) (bindings : Bindings) :
    (x.evaluate registry bindings).mapError EvalError.withoutSpans =
      (y.evaluate registry bindings).mapError EvalError.withoutSpans := by
  rw [← evaluate_withoutSpans, h, evaluate_withoutSpans]

end Tree

/-- **The round trip.** The text of a tree that was read from a formula is read under the same
registry, by every limit of nine levels for each node on a longest path, as a tree that is equal but
for the spans. It is written alike, in parentheses and in reverse Polish notation, and under any
bindings it has the same value or an error with the same cause and the same operators in its frames.
Trees that were read from formulas and have the same text are equal but for the spans. -/
theorem Engine.parse_render {e : Engine} {formula : String} {tree : Tree}
    (h : e.parse formula = .ok tree) :
    (∀ limit, 9 * tree.height ≤ limit →
      ∃ reread, (Engine.mk e.registry limit).parse tree.render = .ok reread ∧
        reread.withoutSpans = tree.withoutSpans ∧
        reread.render = tree.render ∧ reread.reversePolish = tree.reversePolish ∧
        ∀ bindings, (reread.evaluate e.registry bindings).mapError EvalError.withoutSpans =
          (tree.evaluate e.registry bindings).mapError EvalError.withoutSpans) ∧
    ∀ (other : Engine) (formula' : String) (tree' : Tree), other.parse formula' = .ok tree' →
      tree'.render = tree.render → tree'.withoutSpans = tree.withoutSpans := by
  have hreadable := readable_of_parse h
  refine ⟨fun limit hlimit ↦ ?_, fun other formula' tree' h' hrender ↦ ?_⟩
  · obtain ⟨reread, hparse, hsame⟩ :=
      Tree.exists_parse_render hreadable (accepted_of_parse h) hlimit
    exact ⟨reread, hparse, hsame, Tree.render_eq_of_withoutSpans_eq hsame,
      Tree.reversePolish_eq_of_withoutSpans_eq hsame,
      Tree.evaluate_eq_of_withoutSpans_eq hsame e.registry⟩
  · exact Tree.withoutSpans_eq_of_render_eq (readable_of_parse h') hreadable hrender

/-- The formula `MAX(-{x}, 2)` is printed with parentheses around its sign and read again. -/
theorem Engine.parse_render_sign_in_call :
    let tree : Tree := .call "MAX" ⟨.function, "MAX", ⟨0, 3⟩⟩
      [.mkUnary .minus ⟨.minus, "-", ⟨4, 5⟩⟩ (.leaf .identifier ⟨.identifier, "x", ⟨6, 7⟩⟩),
        .leaf .number ⟨.number, "2", ⟨10, 11⟩⟩] ⟨0, 12⟩
    Engine.standard.parse "MAX(-\x7bx\x7d, 2)" = .ok tree ∧
    ∃ reread, (Engine.mk .standard 27).parse "MAX((-\x7bx\x7d), 2)" = .ok reread ∧
      reread.withoutSpans = tree.withoutSpans := by
  intro tree
  have hparse : Engine.standard.parse "MAX(-\x7bx\x7d, 2)" = .ok tree := by decide +kernel
  have hrender : tree.render = "MAX((-\x7bx\x7d), 2)" := by decide +kernel
  obtain ⟨reread, hreread, hsame, -⟩ := (Engine.parse_render hparse).1 27 (by decide)
  rw [hrender] at hreread
  exact ⟨hparse, reread, hreread, hsame⟩

end DecimalFormula
