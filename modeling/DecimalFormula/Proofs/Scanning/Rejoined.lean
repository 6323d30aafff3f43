import DecimalFormula.Proofs.Scanning.Layout

/-!
# Tokens written out again

The tokens of any formula, whether it can be parsed or not, can be written out with a space between
two of them, and what is written is scanned as the same tokens (`Lexer.scan_rejoined`).

Each of them is written as a lexeme of its own (`Lexeme.legible`). The space is what keeps them
apart: `1` and `2` would be one number without it, `>` and `=` one operator. It ends every lexeme
and belongs to none, because the text of a token has no blank in it.
-/

namespace DecimalFormula

/-- Tokens as a formula: what each of them is written as, with a space between two. The end of input
is left out, as there is nothing to be written for it. -/
def rejoined (tokens : List Token) : String :=
  " ".intercalate ((tokens.filter fun t ↦ !t.isEnd).map Token.render)

theorem rejoined_append_endAt {body : List Token} (h : ∀ t ∈ body, t.isEnd = false) (n : UInt32) :
    rejoined (body ++ [.endAt n]) = " ".intercalate (body.map Token.render) := by
  have hbody : body.filter (fun t ↦ !t.isEnd) = body :=
    List.filter_eq_self.mpr fun t ht ↦ by rw [h t ht, Bool.not_false]
  have hend : [Token.endAt n].filter (fun t ↦ !t.isEnd) = [] := rfl
  rw [rejoined, List.filter_append, hbody, hend, List.append_nil]

theorem SameWords.rejoined_eq {us ts : List Token} (h : SameWords us ts) :
    rejoined us = rejoined ts := by
  have hwords (ts : List Token) : rejoined (ts.map Token.withoutSpan) = rejoined ts := by
    rw [rejoined, rejoined, List.filter_map, List.map_map]
    rfl
  rw [← hwords us, h, hwords ts]

namespace Lexer

variable {registry : Registry} {formula : String} {ts tokens : List Token}

/-- By induction on the tokens: the first ends at the space behind it, and the space goes with the
second. -/
theorem spells_rejoined (h : ∀ t ∈ ts, t.Legible registry) :
    Spells registry (" ".intercalate (ts.map Token.render)).toList ts [] := by
  induction ts with
  | nil => exact .nil
  | cons t ts ih =>
    obtain ⟨ht, hts⟩ := List.forall_mem_cons.mp h
    cases ts with
    | nil => exact .lexeme ht fun _ hc ↦ by cases hc
    | cons u us =>
      have hchars : (" ".intercalate ((t :: u :: us).map Token.render)).toList =
          t.render.toList ++ ' ' :: (" ".intercalate ((u :: us).map Token.render)).toList := by
        simp
      have hfirst : Spells registry t.render.toList [t]
          (' ' :: (" ".intercalate ((u :: us).map Token.render)).toList ++ []) :=
        .lexeme ht (TokenKind.endsAt_of_blank rfl _ _)
      rw [hchars]
      exact hfirst.append ((ih hts).blank (List.cons_ne_nil u us))

theorem exists_scan_rejoined (h : scan registry formula = .ok tokens) :
    ∃ tokens', scan registry (rejoined tokens) = .ok tokens' ∧ SameWords tokens' tokens := by
  obtain ⟨body, _, hlexes, -, rfl⟩ := scan_eq_ok_iff.mp h
  rw [rejoined_append_endAt hlexes.isEnd_eq_false]
  obtain ⟨us, n, hus, hwords⟩ := spells_rejoined hlexes.legible 0
  rw [List.append_nil] at hus
  exact ⟨_, scan_of_blanks hus (List.forall_mem_nil _), hwords.append rfl⟩

/-- **Tokens are scanned again.** If a formula is scanned, so is what its tokens are written as with
single spaces between them, and the tokens are the same in kind and text, the end of input
included. -/
theorem scan_rejoined (h : scan registry formula = .ok tokens) :
    ∃ tokens', scan registry (rejoined tokens) = .ok tokens' ∧
      tokens'.map Token.kind = tokens.map Token.kind ∧
      tokens'.map Token.text = tokens.map Token.text := by
  obtain ⟨tokens', hscan, hwords⟩ := exists_scan_rejoined h
  have hkinds := congrArg (List.map Token.kind) hwords
  have htexts := congrArg (List.map Token.text) hwords
  rw [List.map_map, List.map_map] at hkinds htexts
  exact ⟨tokens', hscan, hkinds, htexts⟩

/-- What is no formula is scanned again as well: the two operators do not become one. -/
theorem scan_rejoined_operators :
    let tokens : List Token := [⟨.greater, ">", ⟨0, 1⟩⟩, ⟨.equal, "=", ⟨2, 3⟩⟩,
      ⟨.identifier, "a", ⟨4, 5⟩⟩, ⟨.function, "ABS", ⟨6, 9⟩⟩, .endAt 9]
    scan .standard "> =\x7ba\x7dabs" = .ok tokens ∧ rejoined tokens = "> = \x7ba\x7d ABS" ∧
      ∃ tokens', scan .standard "> = \x7ba\x7d ABS" = .ok tokens' ∧
        tokens'.map Token.kind = [.greater, .equal, .identifier, .function, .endOfInput] ∧
        tokens'.map Token.text = [">", "=", "a", "ABS", ""] := by
  intro tokens
  have hscan : scan .standard "> =\x7ba\x7dabs" = .ok tokens := by
    decide +kernel
  exact ⟨hscan, rfl, scan_rejoined hscan⟩

/-- Written out a second time, the tokens look as they did before. -/
theorem rejoined_stable (h : scan registry formula = .ok tokens) {tokens' : List Token}
    (h' : scan registry (rejoined tokens) = .ok tokens') : rejoined tokens' = rejoined tokens := by
  obtain ⟨us, hscan, hwords⟩ := exists_scan_rejoined h
  rw [hscan] at h'
  cases h'
  exact hwords.rejoined_eq

end Lexer

end DecimalFormula
