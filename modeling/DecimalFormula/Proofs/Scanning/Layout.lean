import DecimalFormula.Proofs.Scanning.Decomposition
import Mathlib.Data.List.Forall2

/-!
# Blanks and letter case

A formula can be laid out in another way: blanks are put in where no lexeme goes on, and letters of
function names are written in the other case (`Relaid`). It is scanned as the same tokens then,
except for where they stand (`Relaid.exists_scan`).

Nothing has to be known of how lexemes are read for that, only where they end. A lexeme that ends in
front of some characters also ends in front of a blank, and whether it goes on with a letter does
not depend on the case of the letter (`TokenKind.extendedBy_toUpper`).
-/

namespace DecimalFormula

/-! ## Letter case -/

theorem toUpper_eq_self_or_isAlpha (c : Char) :
    c.toUpper = c ∨ c.isAlpha = true ∧ c.toUpper.isAlpha = true := by
  by_cases hlower : 'a'.val ≤ c.val ∧ c.val ≤ 'z'.val
  · have hlow : 97 ≤ c.toNat := UInt32.le_iff_toNat_le.mp hlower.1
    have hhigh : c.toNat ≤ 122 := UInt32.le_iff_toNat_le.mp hlower.2
    have halpha : c.isAlpha = true := isAlpha_iff_toNat.mpr (.inr ⟨hlow, hhigh⟩)
    exact .inr ⟨halpha, isAlpha_toUpper halpha⟩
  · exact .inl (Text.toUpper_of_not_lower hlower)

theorem isAlpha_toUpper_eq (c : Char) : c.toUpper.isAlpha = c.isAlpha := by
  rcases toUpper_eq_self_or_isAlpha c with hsame | ⟨halpha, hupper⟩
  · rw [hsame]
  · rw [halpha, hupper]

theorem TokenKind.extendedBy_toUpper (kind : TokenKind) (c : Char) :
    kind.extendedBy c.toUpper = kind.extendedBy c := by
  rcases toUpper_eq_self_or_isAlpha c with hsame | ⟨halpha, hupper⟩
  · rw [hsame]
  have hletter : ∀ d : Char, d.isAlpha = true → kind.extendedBy d = (kind == .function) := by
    intro d hd
    have hdigit := isDigit_eq_false_of_isAlpha hd
    have hother : ∀ e : Char, e.isAlpha = false → (d == e) = false := by
      intro e he
      refine beq_eq_false_iff_ne.mpr ?_
      rintro rfl
      rw [hd] at he
      cases he
    cases kind <;> simp [extendedBy, continuesName, hd, hdigit, hother]
  rw [hletter c halpha, hletter _ hupper]

theorem continuesName_toUpper_eq (c : Char) : continuesName c.toUpper = continuesName c :=
  TokenKind.function.extendedBy_toUpper c

theorem Lexeme.of_toUpper_eq {registry : Registry} {text : String} {cs ds : List Char}
    (h : Lexeme registry .function text cs)
    (hcase : ds.map Char.toUpper = cs.map Char.toUpper) :
    Lexeme registry .function text ds := by
  obtain ⟨c, cs, rfl, rfl, hc, hcs, hcontains⟩ := h.name_of_function
  obtain ⟨d, ds, rfl, hd, hds⟩ := List.map_eq_cons_iff.mp hcase
  rw [← hcase] at hcontains ⊢
  refine .function ?_ (fun e he ↦ ?_) hcontains
  · rwa [← isAlpha_toUpper_eq, hd, isAlpha_toUpper_eq]
  · have hmem : e.toUpper ∈ cs.map Char.toUpper := hds ▸ List.mem_map_of_mem he
    obtain ⟨e', he', hsame⟩ := List.mem_map.mp hmem
    rw [← continuesName_toUpper_eq, ← hsame, continuesName_toUpper_eq]
    exact hcs e' he'

/-! ## Pieces -/

/-- A piece in another layout: with more blanks, or with a function name in other letter case. -/
structure Piece.Relaid (p q : Piece) : Prop where
  /-- The kind of the token is the same. -/
  kind : q.kind = p.kind
  /-- The text of the token is the same. -/
  text : q.text = p.text
  /-- Something may have been put in between the blanks. -/
  blanks : p.blanks.Sublist q.blanks
  /-- What was put in are blanks. -/
  blank : ∀ b ∈ q.blanks, isBlank b = true
  /-- Only function names may be written otherwise. -/
  lexeme : q.lexeme = p.lexeme ∨
    p.kind = .function ∧ q.lexeme.map Char.toUpper = p.lexeme.map Char.toUpper

namespace Piece

variable {registry : Registry} {p q : Piece} {rest rest' : List Char}

theorem Relaid.refl (h : ∀ b ∈ p.blanks, isBlank b = true) : p.Relaid p :=
  ⟨rfl, rfl, .refl _, h, .inl rfl⟩

theorem Relaid.stands (h : p.Relaid q) (hp : p.Stands registry rest)
    (hends : p.kind.EndsAt rest') : q.Stands registry rest' := by
  refine ⟨h.blank, ?_, h.kind ▸ hends⟩
  rw [h.kind, h.text]
  rcases h.lexeme with hsame | ⟨hkind, hcase⟩
  · exact hsame ▸ hp.lexeme
  · have hlexeme := hp.lexeme
    rw [hkind] at hlexeme ⊢
    exact hlexeme.of_toUpper_eq hcase

theorem Relaid.endsAt (h : p.Relaid q) (hp : p.Stands registry rest) {kind : TokenKind}
    (hkind : kind.EndsAt (p.chars ++ rest)) : kind.EndsAt (q.chars ++ rest') := by
  rw [chars, List.append_assoc]
  cases hblanks : q.blanks with
  | cons b bs => exact TokenKind.endsAt_of_blank (h.blank b (by simp [hblanks])) _ _
  | nil =>
    -- Nothing was put in, so the first letter of the lexeme is ahead, if in another case.
    have hnil : p.blanks = [] := List.sublist_nil.mp (hblanks ▸ h.blanks)
    have hcase : q.lexeme.map Char.toUpper = p.lexeme.map Char.toUpper := by
      rcases h.lexeme with hsame | ⟨-, hcase⟩
      · rw [hsame]
      · exact hcase
    obtain ⟨c, cs, hchars, -⟩ := hp.lexeme.exists_cons
    rw [hchars] at hcase
    obtain ⟨d, ds, hchars', hd, -⟩ := List.map_eq_cons_iff.mp hcase
    rw [chars, hnil, hchars] at hkind
    rw [hchars']
    refine TokenKind.endsAt_cons ?_
    rw [← TokenKind.extendedBy_toUpper, hd, TokenKind.extendedBy_toUpper]
    exact hkind c rfl

end Piece

/-! ## Rows -/

variable {registry : Registry} {ps qs : List Piece} {rest rest' : List Char}

/-- Pieces in another layout are in order as well, in front of anything that lexemes end at. By
induction on the row, from its end: what stands in front of a piece ends there in both layouts. -/
theorem Row.relaid (h : Row registry rest ps) (hps : List.Forall₂ Piece.Relaid ps qs)
    (hrest : ∀ kind : TokenKind, kind.EndsAt rest → kind.EndsAt rest') :
    Row registry rest' qs ∧
      ∀ kind : TokenKind, kind.EndsAt (spelling ps ++ rest) →
        kind.EndsAt (spelling qs ++ rest') := by
  induction hps with
  | nil => exact ⟨.nil, hrest⟩
  | @cons p q ps qs hpq _ ih =>
    cases h with
    | cons hp hps =>
      obtain ⟨hqs, hends⟩ := ih hps
      refine ⟨.cons (hpq.stands hp (hends _ hp.ends)) hqs, fun kind hkind ↦ ?_⟩
      rw [spelling_cons, List.append_assoc] at hkind ⊢
      exact hpq.endsAt hp hkind

theorem Row.blank_of_mem (h : Row registry rest ps) :
    ∀ p ∈ ps, ∀ b ∈ p.blanks, isBlank b = true := by
  induction h with
  | nil => exact List.forall_mem_nil _
  | cons hp _ ih => exact List.forall_mem_cons.mpr ⟨hp.blank, ih⟩

theorem Row.of_endsAt (h : Row registry rest ps)
    (hrest : ∀ kind : TokenKind, kind.EndsAt rest → kind.EndsAt rest') : Row registry rest' ps :=
  (h.relaid (List.forall₂_same.mpr fun p hp ↦ .refl (h.blank_of_mem p hp)) hrest).1

/-- But for their spans the tokens of pieces depend on kinds and texts alone. -/
theorem map_withoutSpan_tokensAt (n : Nat) (ps : List Piece) :
    (tokensAt n ps).map Token.withoutSpan = ps.map fun p ↦ ⟨p.kind, p.text, .emptyAt 0⟩ := by
  induction ps generalizing n with
  | nil => rfl
  | cons p ps ih =>
    rw [tokensAt, List.map_cons, List.map_cons, ih]
    rfl

theorem sameWords_tokensAt (n m : Nat) (ps : List Piece) :
    SameWords (tokensAt n ps) (tokensAt m ps) := by
  rw [SameWords, map_withoutSpan_tokensAt, map_withoutSpan_tokensAt]

theorem sameWords_tokensAt_of_relaid (h : List.Forall₂ Piece.Relaid ps qs) (n m : Nat) :
    SameWords (tokensAt n qs) (tokensAt m ps) := by
  rw [SameWords, map_withoutSpan_tokensAt, map_withoutSpan_tokensAt]
  induction h with
  | nil => rfl
  | cons hpq _ ih => rw [List.map_cons, List.map_cons, ih, hpq.kind, hpq.text]

theorem Lexer.Spells.of_row (h : Row registry rest ps) :
    Lexer.Spells registry (spelling ps) (tokensAt 0 ps) rest :=
  fun n ↦ ⟨tokensAt n ps, n + byteLength (spelling ps),
    Lexer.lexes_iff.mpr ⟨ps, rfl, h, rfl, rfl⟩, sameWords_tokensAt n 0 ps⟩

/-! ## Formulas -/

/-- A formula in another layout: blanks may be put in in front of its first lexeme, behind its last
one and between two of them, and letters of function names be written in the other case. -/
def Relaid (registry : Registry) (formula formula' : String) : Prop :=
  ∃ ps qs blanks blanks', Split registry formula ps blanks [] ∧ List.Forall₂ Piece.Relaid ps qs ∧
    blanks.Sublist blanks' ∧ (∀ b ∈ blanks', isBlank b = true) ∧
    formula'.toList = spelling qs ++ blanks'

theorem Relaid.exists_scan {formula formula' : String} (h : Relaid registry formula formula') :
    ∃ tokens tokens', Lexer.scan registry formula = .ok tokens ∧
      Lexer.scan registry formula' = .ok tokens' ∧ SameWords tokens' tokens := by
  obtain ⟨ps, qs, blanks, blanks', hsplit, hps, -, hblanks, hchars⟩ := h
  have hends (kind : TokenKind) : kind.EndsAt blanks' := by
    cases blanks' with
    | nil => exact fun _ h ↦ by cases h
    | cons b bs => exact TokenKind.endsAt_of_blank (hblanks b List.mem_cons_self) _ _
  have hsplit' : Split registry formula' qs blanks' [] := by
    refine ⟨by rw [hchars, List.append_nil], ?_, hblanks⟩
    rw [List.append_nil]
    exact (hsplit.row.relaid hps fun kind _ ↦ hends kind).1
  exact ⟨_, _, Lexer.scan_eq_ok_iff_split.mpr ⟨ps, blanks, hsplit, rfl⟩,
    Lexer.scan_eq_ok_iff_split.mpr ⟨qs, blanks', hsplit', rfl⟩,
    (sameWords_tokensAt_of_relaid hps 0 0).append rfl⟩

end DecimalFormula
