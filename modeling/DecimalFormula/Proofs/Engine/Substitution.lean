import DecimalFormula.Proofs.Engine.Layout
import DecimalFormula.Proofs.Grammar.Substitution

/-!
# Writing a number for an identifier

Binding an identifier to a number and writing the number in its place come to the same: the new text
is read as the tree with the number at the leaves of the identifier, and under any bindings it has
the value that the old one has with the identifier bound (`Engine.substitute_identifier`).

The braces of an identifier keep it apart from anything, a number has none. Only digits and points
extend a number, though, and only numbers are extended by a digit, so it would have to stand next to
another number; and by the grammar there is no operand next to an operand
(`Piece.endsAt_substitute`).
-/

namespace DecimalFormula

variable {registry : Registry} {name value formula formula' : String} {p q : Piece}
  {ps : List Piece} {rest rest' : List Char} {n m : Nat}

/-! ## Characters next to a number -/

theorem TokenKind.extendedBy_of_isDigit {kind : TokenKind} {c : Char} (hkind : kind ≠ .number)
    (hc : c.isDigit = true) : kind.extendedBy c = false := by
  have halpha : c.isAlpha = false := by
    rw [← Bool.not_eq_true]
    intro halpha
    rw [isDigit_eq_false_of_isAlpha halpha] at hc
    cases hc
  have hother (d : Char) (hd : d.isDigit = false) : (c == d) = false := by
    refine beq_eq_false_iff_ne.mpr ?_
    rintro rfl
    rw [hc] at hd
    cases hd
  cases kind with
  | number => exact absurd rfl hkind
  | function => rw [extendedBy, continuesName, halpha, hother '.' rfl, Bool.or_false]
  | not | greater | less => exact hother '=' rfl
  | _ => rfl

/-- A number does not go on with the first character of another lexeme. -/
theorem Lexeme.number_extendedBy_head {kind : TokenKind} {text : String} {c : Char}
    {cs : List Char} (h : Lexeme registry kind text (c :: cs)) (hkind : kind ≠ .number) :
    TokenKind.number.extendedBy c = false := by
  have hoperator {kind : TokenKind} {operators : List (Char × TokenKind)}
      (hmem : (c, kind) ∈ operators)
      (hall : ∀ o ∈ operators, TokenKind.number.extendedBy o.1 = false) :
      TokenKind.number.extendedBy c = false := hall (c, kind) hmem
  generalize hchars : c :: cs = chars at h
  -- A number goes on with digits and a point. No symbol is one of these.
  cases h with
  | symbol h =>
    obtain ⟨rfl, -⟩ := List.cons.inj hchars
    rw [← Bool.not_eq_true, TokenKind.extendedBy, Bool.or_eq_true, beq_iff_eq]
    rintro (hdigit | rfl)
    · unfold TokenKind.ofSymbol? at h
      split at h <;> first | exact absurd hdigit (by decide) | cases h
    · cases h
  | openOperator h =>
    obtain ⟨rfl, -⟩ := List.cons.inj hchars
    exact hoperator h (by decide)
  | closedOperator h =>
    obtain ⟨rfl, -⟩ := List.cons.inj hchars
    exact hoperator h (by decide)
  | number => exact absurd rfl hkind
  | identifier =>
    obtain ⟨rfl, -⟩ := List.cons.inj hchars
    rfl
  | function hc =>
    obtain ⟨rfl, -⟩ := List.cons.inj hchars
    rw [TokenKind.extendedBy, isDigit_eq_false_of_isAlpha hc, Bool.false_or, beq_eq_false_iff_ne]
    rintro rfl
    cases hc

theorem Lexeme.exists_digit (h : Lexeme registry .number value value.toList) :
    ∃ c cs, value.toList = c :: cs ∧ c.isDigit = true := by
  obtain ⟨c, cs, hchars, -⟩ := h.exists_cons
  exact ⟨c, cs, hchars, (hchars ▸ h.numeral_of_number.1).isDigit_head⟩

/-! ## Pieces -/

/-- The piece with a number in place of the lexeme, if that is the identifier of this name. -/
def Piece.substitute (name value : String) (p : Piece) : Piece :=
  if p.kind = .identifier ∧ p.text = name then
    { p with kind := .number, text := value, lexeme := value.toList }
  else p

namespace Piece

@[simp] theorem blanks_substitute (p : Piece) : (p.substitute name value).blanks = p.blanks := by
  rw [substitute]
  split <;> rfl

theorem token_substitute (p : Piece) :
    ((p.substitute name value).token m).withoutSpan =
      ((p.token n).substitute name value).withoutSpan := by
  rw [substitute, Token.substitute]
  by_cases h : p.kind = .identifier ∧ p.text = name
  · rw [if_pos h, if_pos (by exact h)]
    rfl
  · rw [if_neg h, if_neg (by exact h)]
    rfl

theorem Stands.substitute (h : p.Stands registry rest)
    (hvalue : Lexeme registry .number value value.toList)
    (hends : (p.substitute name value).kind.EndsAt rest') :
    (p.substitute name value).Stands registry rest' := by
  refine ⟨by simpa using h.blank, ?_, hends⟩
  rw [Piece.substitute]
  split
  · exact hvalue
  · exact h.lexeme

/-- A piece still ends where the next one starts, unless both are operands. -/
theorem endsAt_substitute (hp : p.kind.EndsAt (q.chars ++ rest)) (hq : q.Stands registry rest)
    (hvalue : Lexeme registry .number value value.toList)
    (hapart : (p.token n).Apart (q.token m)) :
    (p.substitute name value).kind.EndsAt ((q.substitute name value).chars ++ rest') := by
  rw [chars, List.append_assoc, blanks_substitute]
  cases hblanks : q.blanks with
  | cons b bs => exact TokenKind.endsAt_of_blank (hq.blank b (by simp [hblanks])) _ _
  | nil =>
    rw [chars, hblanks] at hp
    by_cases hname : q.kind = .identifier ∧ q.text = name
    · -- A number comes next now, and the piece in front of it is none.
      have hoperand : p.kind.isOperand = false := by
        refine Bool.eq_false_iff.mpr fun h ↦ hapart ⟨h, ?_⟩
        rw [show (q.token m).kind = .identifier from hname.1]
        rfl
      have hother : p.kind ≠ .identifier ∧ p.kind ≠ .number := by
        constructor <;> intro h <;> rw [h] at hoperand <;> cases hoperand
      obtain ⟨c, cs, hchars, hc⟩ := hvalue.exists_digit
      rw [substitute, substitute, if_pos hname, if_neg fun h ↦ hother.1 h.1, hchars]
      exact TokenKind.endsAt_cons (TokenKind.extendedBy_of_isDigit hother.2 hc)
    · obtain ⟨c, cs, hchars, -⟩ := hq.lexeme.exists_cons
      rw [hchars] at hp
      rw [substitute, substitute, if_neg hname, hchars]
      split
      · next hident =>
        -- The piece is a number now, and no number comes next.
        have hother : q.kind ≠ .number := by
          refine fun h ↦ hapart ⟨?_, ?_⟩
          · rw [show (p.token n).kind = .identifier from hident.1]
            rfl
          · rw [show (q.token m).kind = .number from h]
            rfl
        have hlexeme := hq.lexeme
        rw [hchars] at hlexeme
        exact TokenKind.endsAt_cons (hlexeme.number_extendedBy_head hother)
      · exact TokenKind.endsAt_cons (hp c rfl)

end Piece

/-! ## Rows -/

/-- By induction on the row. What stands behind the last piece is blank, and nothing goes on with
that. -/
theorem Row.substitute (h : Row registry rest ps) (hrest : ∀ b ∈ rest, isBlank b = true)
    (hvalue : Lexeme registry .number value value.toList)
    (hapart : (tokensAt n ps).IsChain Token.Apart) :
    Row registry rest (ps.map (Piece.substitute name value)) := by
  induction h generalizing n with
  | nil => exact .nil
  | @cons p ps hp hps ih =>
    rw [tokensAt] at hapart
    refine .cons (hp.substitute hvalue ?_) (ih hapart.of_cons)
    cases hps with
    | nil =>
      cases rest with
      | nil => exact fun c hc ↦ by cases hc
      | cons b bs => exact TokenKind.endsAt_of_blank (hrest b List.mem_cons_self) _ _
    | cons hq hqs =>
      rw [tokensAt, List.isChain_cons_cons] at hapart
      have hends := hp.ends
      rw [spelling_cons, List.append_assoc] at hends
      rw [List.map_cons, spelling_cons, List.append_assoc]
      exact Piece.endsAt_substitute hends hq hvalue hapart.1

theorem sameWords_tokensAt_substitute (n m : Nat) (ps : List Piece) :
    SameWords (tokensAt m (ps.map (Piece.substitute name value)))
      ((tokensAt n ps).map (Token.substitute name value)) := by
  induction ps generalizing n m with
  | nil => rfl
  | cons p ps ih =>
    rw [List.map_cons, tokensAt, tokensAt, List.map_cons, SameWords, List.map_cons, List.map_cons,
      ih, Piece.token_substitute]

/-! ## Formulas -/

/-- A formula with a number in place of every lexeme that is the identifier of this name. -/
def Substituted (registry : Registry) (name value formula formula' : String) : Prop :=
  ∃ ps blanks, Split registry formula ps blanks [] ∧
    formula'.toList = spelling (ps.map (Piece.substitute name value)) ++ blanks

theorem Lexer.lexeme_of_scan {span : Span} {stop : UInt32}
    (h : scan registry value = .ok [⟨.number, value, span⟩, .endAt stop]) :
    Lexeme registry .number value value.toList := by
  obtain ⟨pieces, blanks, hsplit, htokens⟩ := scan_eq_ok_iff_split.mp h
  cases hsplit.row with
  | nil => cases htokens
  | @cons p ps hp hps =>
    obtain ⟨htoken, -⟩ := List.cons.inj htokens
    obtain ⟨hkind, htext, -⟩ := Token.mk.inj htoken
    have hlexeme := hp.lexeme
    rw [← hkind, ← htext] at hlexeme
    have hchars : value.toList = p.lexeme := by
      rw [hlexeme.numeral_of_number.2.1, String.toList_ofList]
    rwa [← hchars] at hlexeme

namespace Engine

variable {e : Engine} {tree : Tree}

theorem substituted_iff {blanks : List Char} (h : Split registry formula ps blanks []) :
    Substituted registry name value formula formula' ↔
      formula' = .ofList (spelling (ps.map (Piece.substitute name value)) ++ blanks) := by
  rw [← String.toList_inj, String.toList_ofList]
  constructor
  · rintro ⟨qs, blanks', hsplit, hchars⟩
    obtain ⟨rfl, rfl⟩ := Lexer.split_unique h hsplit
    exact hchars
  · exact fun hchars ↦ ⟨ps, blanks, h, hchars⟩

/-- The tokens of the new text derive the tree with the number. -/
theorem shape_substitute (name : String) {blanks : List Char}
    (hsplit : Split e.registry formula ps blanks [])
    (hderives : DerivesWithin e.limit .disjunction (tokensAt 0 ps) tree)
    (haccepted : tree.Accepted e.registry)
    (hvalue : Lexeme e.registry .number value value.toList) :
    e.shape (.ofList (spelling (ps.map (Piece.substitute name value)) ++ blanks)) =
      .ok (tree.substitute name value).withoutSpans := by
  have hrow : Row e.registry (blanks ++ []) (ps.map (Piece.substitute name value)) := by
    refine hsplit.row.substitute ?_ hvalue hderives.isChain_apart
    simpa using hsplit.blank
  have hsplit' : Split e.registry
      (.ofList (spelling (ps.map (Piece.substitute name value)) ++ blanks))
      (ps.map (Piece.substitute name value)) blanks [] := by
    refine ⟨?_, hrow, hsplit.blank⟩
    rw [String.toList_ofList, List.append_nil]
  exact shape_of_sameWords (Lexer.scan_eq_ok_iff_split.mpr ⟨_, _, hsplit', rfl⟩)
    (sameWords_tokensAt_substitute 0 0 ps) (hderives.substitute name value) haccepted.substitute

/-- **Binding is writing.** Let a formula be read as a tree, and let a text be scanned as one number
with nothing around it. There is one text that has the number in place of every lexeme of the
formula that is a certain identifier. Within the same limit it is read as the tree with the number
at the leaves of that identifier, but for the spans. Under any bindings its value is the one that
the formula has if in these bindings the identifier is bound to the number; or if there is none,
its error has the same cause and the same operators in its frames. -/
theorem substitute_identifier (h : e.parse formula = .ok tree) (name : String) {value : String}
    {span : Span} {stop : UInt32}
    (hvalue : Lexer.scan e.registry value = .ok [⟨.number, value, span⟩, .endAt stop]) :
    ∃ formula', (∀ text, Substituted e.registry name value formula text ↔ text = formula') ∧
      (∃ tree', e.parse formula' = .ok tree' ∧
        tree'.withoutSpans = (tree.substitute name value).withoutSpans) ∧
      ∀ bindings, e.outcome bindings formula' =
        e.outcome (bindings.insert name value) formula := by
  obtain ⟨body, c, hlexes, hblanks, hderives, haccepted⟩ := parse_eq_ok_iff.mp h
  obtain ⟨ps, hchars, hrow, rfl, -⟩ := Lexer.lexes_iff.mp hlexes
  have hsplit : Split e.registry formula ps c.rest [] := by
    refine ⟨?_, ?_, hblanks⟩
    · rwa [List.append_nil]
    · rwa [List.append_nil]
  have hshape := shape_substitute name hsplit hderives haccepted
    (Lexer.lexeme_of_scan hvalue)
  refine ⟨_, fun text ↦ substituted_iff hsplit, ?_, fun bindings ↦ ?_⟩
  · rw [shape] at hshape
    generalize e.parse _ = answer at hshape ⊢
    cases answer with
    | error error => cases hshape
    | ok tree' => exact ⟨tree', rfl, Except.ok.inj hshape⟩
  · have hevaluate : e.evaluate bindings (tree.substitute name value).withoutSpans =
        e.evaluate (bindings.insert name value) tree.withoutSpans := by
      rw [evaluate, evaluate, Tree.evaluate_withoutSpans, Tree.evaluate_withoutSpans,
        Tree.evaluate_substitute]
    rw [outcome_eq, outcome_eq, hshape, shape_of_parse h]
    exact hevaluate

/-- With `1.5` for both occurrences of `x`, the difference `{x} -{x}` is that of two numbers. -/
theorem substitute_identifier_difference :
    let formula := "\x7bx\x7d -\x7bx\x7d"
    let x : Tree := .leaf .identifier ⟨.identifier, "x", ⟨1, 2⟩⟩
    let y : Tree := .leaf .identifier ⟨.identifier, "x", ⟨6, 7⟩⟩
    let tree : Tree := .mkBinary .subtract ⟨.minus, "-", ⟨4, 5⟩⟩ x y
    standard.parse formula = .ok tree ∧
      Lexer.scan standard.registry "1.5" = .ok [⟨.number, "1.5", ⟨0, 3⟩⟩, .endAt 3] ∧
      Substituted standard.registry "x" "1.5" formula "1.5 -1.5" ∧
      (∃ tree', standard.parse "1.5 -1.5" = .ok tree' ∧
        tree'.withoutSpans = (tree.substitute "x" "1.5").withoutSpans) ∧
      standard.outcome .empty "1.5 -1.5" = standard.outcome (.insert .empty "x" "1.5") formula := by
  intro formula x y tree
  have hparse : standard.parse formula = .ok tree := by decide +kernel
  have hvalue : Lexer.scan standard.registry "1.5" =
      .ok [⟨.number, "1.5", ⟨0, 3⟩⟩, .endAt 3] := by decide +kernel
  have hnone : ∀ b ∈ ([] : List Char), isBlank b = true := List.forall_mem_nil _
  have hlexeme : Lexeme standard.registry .identifier "x" ['\x7b', 'x', '\x7d'] :=
    @Lexeme.identifier _ 'x' [] rfl (List.forall_mem_nil _)
  have hsplit : Split standard.registry "\x7bx\x7d -\x7bx\x7d"
      [⟨[], .identifier, "x", ['\x7b', 'x', '\x7d']⟩, ⟨[' '], .minus, "-", ['-']⟩,
        ⟨[], .identifier, "x", ['\x7b', 'x', '\x7d']⟩] [] [] := by
    refine ⟨rfl, .cons ⟨hnone, hlexeme, fun _ _ ↦ rfl⟩ <|
      .cons ⟨List.forall_mem_singleton.mpr rfl, .symbol rfl, fun _ _ ↦ rfl⟩ <|
      .cons ⟨hnone, hlexeme, fun _ _ ↦ rfl⟩ .nil, hnone⟩
  have hsubstituted : Substituted standard.registry "x" "1.5" formula "1.5 -1.5" :=
    ⟨_, _, hsplit, rfl⟩
  obtain ⟨formula', hiff, htree, houtcome⟩ := substitute_identifier hparse "x" hvalue
  obtain rfl := (hiff _).mp hsubstituted
  exact ⟨hparse, hvalue, hsubstituted, htree, houtcome .empty⟩

end Engine

end DecimalFormula
