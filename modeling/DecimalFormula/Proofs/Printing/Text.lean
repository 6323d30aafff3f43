import DecimalFormula.Proofs.Engine.Reading
import DecimalFormula.Proofs.Printing.Tokens

/-!
# The text of a printed tree

The text of a tree is scanned as its printed tokens (`Tree.spells_render`). What has to be seen for
that is that no lexeme of the text runs into the next one. Only three sorts of lexeme could: a
number, behind which a closing parenthesis, a comma or a blank stands, a function name, behind which
an opening parenthesis stands, and an operator that an equals sign would extend, behind which a
blank or an operand stands.
-/

namespace DecimalFormula

theorem List.intercalate_cons_eq_flatMap {α : Type} (s l : List α) (ls : List (List α)) :
    s.intercalate (l :: ls) = l ++ ls.flatMap (s ++ ·) := by
  induction ls generalizing l with
  | nil => rw [List.intercalate_singleton, List.flatMap_nil, List.append_nil]
  | cons l' ls ih =>
    rw [List.intercalate_cons_cons, ih, List.flatMap_cons, List.append_assoc, List.append_assoc]

/-! ## Operators -/

theorem UnaryOp.isNamedByWord_of_ofKind? {kind : TokenKind} {o : UnaryOp}
    (h : UnaryOp.ofKind? kind = some o) : kind.isNamedByWord = false := by
  cases kind <;> first | rfl | cases h

theorem BinaryOp.isNamedByWord_of_ofKind? {kind : TokenKind} {o : BinaryOp}
    (h : BinaryOp.ofKind? kind = some o) : kind.isNamedByWord = false := by
  cases kind <;> first | rfl | cases h

theorem TokenKind.endsAt_of_ne_equals {kind : TokenKind} {c : Char} {rest : List Char}
    (hkind : kind.isNamedByWord = false) (hc : c ≠ '=') : kind.EndsAt (c :: rest) := by
  have hequals : (c == '=') = false := beq_eq_false_iff_ne.mpr hc
  refine endsAt_cons ?_
  cases kind <;> first | rfl | exact hequals | cases hkind

namespace Lexeme

variable {registry : Registry} {kind : TokenKind} {text : String} {cs : List Char}

theorem exists_cons_ne_equals (h : Lexeme registry kind text cs)
    (hkind : kind.isNamedByWord = true) : ∃ c ds, cs = c :: ds ∧ c ≠ '=' := by
  rcases h.kind_of_isNamedByWord hkind with rfl | rfl | rfl
  · obtain ⟨hnumeral, -⟩ := h.numeral_of_number
    obtain ⟨c, ds, rfl⟩ := List.exists_cons_of_ne_nil hnumeral.ne_nil
    refine ⟨c, ds, rfl, ?_⟩
    rintro rfl
    exact absurd hnumeral.isDigit_head (by decide)
  · obtain ⟨c, ds, rfl, -⟩ := h.name_of_identifier
    exact ⟨_, _, rfl, by decide⟩
  · obtain ⟨c, ds, rfl, -, hc, -⟩ := h.name_of_function
    refine ⟨c, ds, rfl, ?_⟩
    rintro rfl
    exact absurd hc (by decide)

theorem of_legible {t : Token} (h : t.Legible registry) (hkind : t.kind.isNamedByWord = false) :
    Lexeme registry t.kind t.text t.kind.literal.toList := by
  have hlex := h
  rw [Token.Legible, (eq_literal h hkind).2] at hlex
  exact hlex

end Lexeme

/-- Where it stands apart, an operator or delimiter is known from its kind. -/
theorem Token.Legible.withoutSpan_eq_ofKind {registry : Registry} {t : Token}
    (h : t.Legible registry) (hkind : t.kind.isNamedByWord = false) :
    t.withoutSpan = .ofKind t.kind := by
  rw [withoutSpan, (Lexeme.eq_literal h hkind).1, ofKind]

namespace Tree

variable {registry : Registry} {tree : Tree} {rest : List Char}

theorem renderLeaf_eq {kind : LeafKind} {t : Token} (h : (leaf kind t).BuiltFromToken) :
    renderLeaf kind t = t.render := by
  cases kind with
  | number => rw [renderLeaf, Token.render, show t.kind = .number from h]
  | identifier => rw [renderLeaf, Token.render, show t.kind = .identifier from h]

/-! ## Texts as characters -/

theorem toList_render_unary (o : UnaryOp) (t : Token) (x : Tree) (span : Span) :
    (render (unary o t x span)).toList =
      '(' :: (o.literal.toList ++ ((render x).toList ++ [')'])) := by
  simp [render]

theorem toList_render_binary (o : BinaryOp) (t : Token) (l r : Tree) (span : Span) :
    (render (binary o t l r span)).toList =
      '(' :: ((render l).toList ++ ' ' :: (o.literal.toList ++
        ' ' :: ((render r).toList ++ [')']))) := by
  simp [render]

theorem toList_render_call (name : String) (t : Token) (args : List Tree) (span : Span) :
    (render (call name t args span)).toList =
      name.toList ++ '(' ::
        ([',', ' '].intercalate (args.map fun x ↦ (render x).toList) ++ [')']) := by
  simp [render, renderAll_eq, Function.comp_def]

theorem exists_render_cons (h : tree.Readable registry) :
    ∃ c cs, (render tree).toList = c :: cs ∧ c ≠ '=' := by
  obtain ⟨⟨hbuilt, hlegible⟩, -⟩ := readable_iff.mp h
  cases tree with
  | leaf kind t =>
    rw [render, renderLeaf_eq hbuilt]
    refine Lexeme.exists_cons_ne_equals hlegible ?_
    cases kind <;> (rw [token, show t.kind = _ from hbuilt]; rfl)
  | unary o t x span => exact ⟨'(', _, toList_render_unary o t x span, by decide⟩
  | binary o t l r span => exact ⟨'(', _, toList_render_binary o t l r span, by decide⟩
  | call name t args span =>
    obtain ⟨hkind, rfl⟩ := hbuilt
    have hrender : t.render = t.text := by rw [Token.render, hkind]
    have hlex : Lexeme registry t.kind t.text t.render.toList := hlegible
    obtain ⟨c, cs, hchars, hc⟩ := hlex.exists_cons_ne_equals (by rw [hkind]; rfl)
    have hcall := toList_render_call t.text t args span
    rw [hrender] at hchars
    rw [hchars, List.cons_append] at hcall
    exact ⟨c, _, hcall, hc⟩

theorem printed_ne_nil (tree : Tree) : printed tree ≠ [] := by
  cases tree <;> simp [printed]

/-! ## Scanning them -/

theorem spells_symbol {c : Char} (kind : TokenKind) (h : TokenKind.ofSymbol? c = some kind) :
    Lexer.Spells registry [c] [.ofKind kind] rest := by
  obtain ⟨-, hliteral, hextended⟩ := TokenKind.of_symbol h
  have hlex : Lexeme registry kind kind.literal [c] := by
    rw [hliteral]
    exact .symbol h
  exact .lexeme hlex fun d _ ↦ hextended d

/-- If every one of some trees is scanned from its text, so are all with commas between them. -/
theorem spells_commaSeparated (xs : List Tree)
    (h : ∀ x ∈ xs, ∀ rest, TokenKind.number.EndsAt rest →
      Lexer.Spells registry (render x).toList (printed x) rest)
    (hrest : TokenKind.number.EndsAt rest) :
    Lexer.Spells registry ([',', ' '].intercalate (xs.map fun x ↦ (render x).toList))
      (commaSeparated (xs.map printed)) rest := by
  have hfurther : ∀ ys : List Tree, (∀ y ∈ ys, y ∈ xs) →
      Lexer.Spells registry ((ys.map fun x ↦ (render x).toList).flatMap ([',', ' '] ++ ·))
        ((ys.map printed).flatMap (.ofKind .comma :: ·)) rest ∧
      TokenKind.number.EndsAt
        ((ys.map fun x ↦ (render x).toList).flatMap ([',', ' '] ++ ·) ++ rest) := by
    intro ys hys
    induction ys with
    | nil => exact ⟨.nil, hrest⟩
    | cons y ys ih =>
      obtain ⟨hy, hys⟩ := List.forall_mem_cons.mp hys
      obtain ⟨hspells, hends⟩ := ih hys
      refine ⟨?_, TokenKind.endsAt_cons rfl⟩
      have hhead := ((h y hy _ hends).blank (printed_ne_nil y)).append hspells
      exact (spells_symbol .comma rfl).append hhead
  cases xs with
  | nil => exact .nil
  | cons x xs =>
    rw [List.map_cons, List.map_cons, List.intercalate_cons_eq_flatMap, commaSeparated]
    obtain ⟨hspells, hends⟩ := hfurther xs fun y hy ↦ List.mem_cons_of_mem x hy
    exact (h x List.mem_cons_self _ hends).append hspells

/-- By induction on the tree. Whatever may follow a number may follow any tree. -/
theorem spells_render (h : tree.Readable registry) (hrest : TokenKind.number.EndsAt rest) :
    Lexer.Spells registry (render tree).toList (printed tree) rest := by
  have hclose : ∀ cs, TokenKind.number.EndsAt (')' :: cs) := fun cs ↦ TokenKind.endsAt_cons rfl
  have hblank : ∀ cs, TokenKind.number.EndsAt (' ' :: cs) := fun cs ↦ TokenKind.endsAt_cons rfl
  induction tree generalizing rest with
  | leaf kind t =>
    obtain ⟨⟨hbuilt, hlegible⟩, -⟩ := readable_iff.mp h
    rw [render, renderLeaf_eq hbuilt]
    have hends : t.kind.EndsAt rest := by
      cases kind with
      | number =>
        rw [show t.kind = .number from hbuilt]
        exact hrest
      | identifier =>
        rw [show t.kind = .identifier from hbuilt]
        exact fun _ _ ↦ rfl
    exact .lexeme hlegible hends
  | unary o t x span ih =>
    obtain ⟨⟨hbuilt, hlegible⟩, hchildren⟩ := readable_iff.mp h
    have hx : x.Readable registry := hchildren x (by simp)
    have hword := UnaryOp.isNamedByWord_of_ofKind? hbuilt
    have hsign := Lexeme.of_legible hlegible hword
    -- No operand starts with the equals sign that would make another operator of `!`.
    obtain ⟨c, cs, hchars, hc⟩ := exists_render_cons hx
    rw [toList_render_unary, ← UnaryOp.literal_of_ofKind? hbuilt]
    refine (spells_symbol .leftParen rfl).append <| .append (.lexeme hsign ?_) <|
      .append (ih hx (hclose _)) (spells_symbol _ rfl)
    rw [hchars]
    exact TokenKind.endsAt_of_ne_equals hword hc
  | binary o t l r span ihl ihr =>
    obtain ⟨⟨hbuilt, hlegible⟩, hchildren⟩ := readable_iff.mp h
    have hword := BinaryOp.isNamedByWord_of_ofKind? hbuilt
    have hoperator := Lexeme.of_legible (t := t) hlegible hword
    rw [toList_render_binary, ← BinaryOp.literal_of_ofKind? hbuilt]
    have hr := Lexer.Spells.append (ihr (hchildren r (by simp)) (hclose rest))
      (spells_symbol .rightParen rfl)
    have htail := Lexer.Spells.append
      (.lexeme hoperator (TokenKind.endsAt_of_ne_equals hword (by decide : ' ' ≠ '=')))
      (hr.blank (by simp))
    exact (spells_symbol .leftParen rfl).append <|
      .append (ihl (hchildren l (by simp)) (hblank _)) (htail.blank (by simp))
  | call name t args span ih =>
    obtain ⟨⟨⟨hkind, rfl⟩, hlegible⟩, hchildren⟩ := readable_iff.mp h
    have hrender : t.render = t.text := by rw [Token.render, hkind]
    have hlex : Lexeme registry t.kind t.text t.render.toList := hlegible
    have hargs := spells_commaSeparated args
      (fun x hx _ hrest ↦ ih x hx (hchildren x hx) hrest) (hclose rest)
    rw [toList_render_call, printed, printedAll_eq, ← hrender]
    refine .append (.lexeme hlex ?_) <| (spells_symbol .leftParen rfl).append <|
      .append hargs (spells_symbol _ rfl)
    rw [hkind]
    exact TokenKind.endsAt_cons rfl

end Tree

end DecimalFormula
