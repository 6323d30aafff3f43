import DecimalFormula.Proofs.Scanning.Coverage
import DecimalFormula.Proofs.Scanning.Decomposition
import Mathlib.Data.List.Chain

/-!
# Nothing is lost in scanning

The span of a token covers the characters its text comes from. They are the text, but for the letter
case of function names. Between one token and the next stand blanks, and the braces of identifiers.
So a formula can be put together again from its tokens and the blanks, and the places of the tokens
are where they were taken from (`Lexer.scan_is_lossless`).

The proof goes along the pieces of the formula. What it carries is the token in front of what is
left: the characters up to the end of its span, with its closing brace if it has one, have been seen
(`Lexer.isChain_follows`).
-/

namespace DecimalFormula

/-! ## Braces -/

/-- What stands in front of the span of a token of this kind. -/
def TokenKind.opening : TokenKind → List Char
  | .identifier => ['\x7b']
  | _ => []

/-- What stands behind the span of a token of this kind. -/
def TokenKind.closing : TokenKind → List Char
  | .identifier => ['\x7d']
  | _ => []

/-- The text of a token of this kind whose span covers these characters. -/
def TokenKind.textOf (kind : TokenKind) (cs : List Char) : String :=
  if kind = .function then Text.upper (.ofList cs) else .ofList cs

variable {registry : Registry} {kind : TokenKind} {text : String} {cs : List Char}

theorem TokenKind.no_braces (h : kind ≠ .identifier) : kind.opening = [] ∧ kind.closing = [] := by
  cases kind <;> first | exact ⟨rfl, rfl⟩ | exact absurd rfl h

theorem Lexeme.exists_inner (h : Lexeme registry kind text cs) :
    ∃ inner, inner ≠ [] ∧ cs = kind.opening ++ (inner ++ kind.closing) ∧
      text = kind.textOf inner := by
  have hplain (hword : kind.isNamedByWord = false ∨ kind = .number) (hne : cs ≠ [])
      (htext : text = .ofList cs) : ∃ inner, inner ≠ [] ∧
      cs = kind.opening ++ (inner ++ kind.closing) ∧ text = kind.textOf inner := by
    obtain ⟨hopening, hclosing⟩ : kind.opening = [] ∧ kind.closing = [] := by
      refine TokenKind.no_braces ?_
      rintro rfl
      rcases hword with h | h <;> cases h
    have hkind : kind ≠ .function := by
      rintro rfl
      rcases hword with h | h <;> cases h
    refine ⟨cs, hne, ?_, ?_⟩
    · rw [hopening, hclosing, List.nil_append, List.append_nil]
    · rw [TokenKind.textOf, if_neg hkind, htext]
  cases h with
  | symbol h => exact hplain (.inl (TokenKind.of_symbol h).1) (List.cons_ne_nil _ _) rfl
  | openOperator h => exact hplain (.inl (TokenKind.of_openOperator h).1) (List.cons_ne_nil _ _) rfl
  | closedOperator h =>
    exact hplain (.inl (TokenKind.of_closedOperator h).1) (List.cons_ne_nil _ _) rfl
  | number h => exact hplain (.inr rfl) h.ne_nil rfl
  | @identifier c ds => exact ⟨c :: ds, List.cons_ne_nil _ _, rfl, rfl⟩
  | @function c ds =>
    refine ⟨c :: ds, List.cons_ne_nil _ _, ?_, ?_⟩
    · exact (List.append_nil _).symm
    · rw [TokenKind.textOf, if_pos rfl, Text.upper, String.toList_ofList]

theorem lexemeSpan_eq (kind : TokenKind) (n : Nat) (inner : List Char) :
    lexemeSpan kind n (kind.opening ++ (inner ++ kind.closing)) =
      .between (n + byteLength kind.opening) (n + byteLength kind.opening + byteLength inner) := by
  by_cases h : kind = .identifier
  · subst h
    rw [lexemeSpan, if_pos rfl]
    have hlength : byteLength ('\x7b' :: (inner ++ ['\x7d'])) = byteLength inner + 2 :=
      Lexer.byteLength_braced inner
    have hopening : byteLength TokenKind.identifier.opening = 1 := rfl
    show Span.between _ (n + byteLength ('\x7b' :: (inner ++ ['\x7d'])) - 1) = _
    rw [hlength, hopening]
    congr 1
    omega
  · obtain ⟨hopening, hclosing⟩ := TokenKind.no_braces h
    rw [lexemeSpan, if_neg h, hopening, hclosing, List.nil_append, List.append_nil,
      byteLength_nil, Nat.add_zero]

/-! ## Tokens and what they come from -/

namespace Token

/-- The text of a token comes from what its span covers, which is nothing at the end only. -/
def ComesFrom (source : String) (t : Token) : Prop :=
  ∃ inner, t.span.Covers source inner ∧ t.text = t.kind.textOf inner ∧
    (t.kind ≠ .endOfInput → inner ≠ [])

/-- Between two offsets of a source stand blanks, with some characters in front of and behind
them. -/
def IsGap (source : String) (start stop : UInt32) (left right : List Char) : Prop :=
  ∃ blanks, (∀ b ∈ blanks, b = ' ' ∨ b = '\t') ∧
    Span.slice source ⟨start, stop⟩ = .ofList (left ++ (blanks ++ right))

/-- A token comes from characters behind another token. -/
structure Behind (source : String) (t u : Token) : Prop where
  /-- They do not overlap. -/
  stop_le : t.span.stop ≤ u.span.start
  /-- The ends of the second are in order. -/
  start_le : u.span.start ≤ u.span.stop
  /-- The second is what stands there. -/
  comesFrom : u.ComesFrom source

/-- Nothing is lost between two tokens. -/
structure Follows (source : String) (t u : Token) : Prop extends Behind source t u where
  /-- Between them stand blanks, and the braces that belong to them. -/
  gap : IsGap source t.span.stop u.span.start t.kind.closing u.kind.opening

variable {source : String} {t u : Token}

theorem ComesFrom.within (hsize : source.utf8ByteSize < UInt32.size) (h : t.ComesFrom source) :
    t.span.Within source := by
  obtain ⟨inner, hcovers, -⟩ := h
  exact hcovers.within hsize

theorem ComesFrom.text_eq (hsize : source.utf8ByteSize < UInt32.size) (h : t.ComesFrom source) :
    t.text = if t.kind = .function then Text.upper (t.span.slice source)
      else t.span.slice source := by
  obtain ⟨inner, hcovers, htext, -⟩ := h
  rw [htext, hcovers.slice_eq hsize, TokenKind.textOf]

theorem follows_of_chars (hsize : source.utf8ByteSize < UInt32.size)
    (pre blanks inner post : List Char)
    (hstop : t.span.stop = .ofNat (byteLength pre)) (hblanks : ∀ b ∈ blanks, isBlank b = true)
    (hsource : source.toList =
      pre ++ (t.kind.closing ++ (blanks ++ u.kind.opening)) ++ (inner ++ post))
    (hspan : u.span = .between (byteLength (pre ++ (t.kind.closing ++ (blanks ++ u.kind.opening))))
      (byteLength (pre ++ (t.kind.closing ++ (blanks ++ u.kind.opening))) + byteLength inner))
    (htext : u.text = u.kind.textOf inner) (hne : u.kind ≠ .endOfInput → inner ≠ []) :
    t.Follows source u := by
  have hfrom : u.ComesFrom source := ⟨inner, ⟨_, post, hsource, hspan⟩, htext, hne⟩
  have hgap : Span.Covers source ⟨t.span.stop, u.span.start⟩
      (t.kind.closing ++ (blanks ++ u.kind.opening)) := by
    refine ⟨pre, inner ++ post, ?_, ?_⟩
    · rw [hsource, List.append_assoc]
    · rw [hstop, hspan, Span.start_between, ← byteLength_append]
      rfl
  refine ⟨⟨(hgap.within hsize).start_le, (hfrom.within hsize).start_le, hfrom⟩, blanks, ?_,
    hgap.slice_eq hsize⟩
  exact fun b hb ↦ isBlank_iff.mp (hblanks b hb)

instance (source : String) : Trans (Behind source) (Behind source) (Behind source) where
  trans h h' :=
    ⟨UInt32.le_trans h.stop_le (UInt32.le_trans h.start_le h'.stop_le), h'.start_le, h'.comesFrom⟩

end Token

namespace Lexer

open Token

variable {formula : String} {tokens : List Token} {blanks : List Char}

section

variable (hsize : formula.utf8ByteSize < UInt32.size)

include hsize

/-- **The invariant.** Behind a token whose span, with its closing brace, is the last that was seen,
the tokens of the pieces that are left follow each other, and the end of input comes last. -/
theorem isChain_follows {pieces : List Piece} (hrow : Row registry blanks pieces)
    (hblanks : ∀ b ∈ blanks, isBlank b = true) (t : Token) (pre : List Char)
    (hstop : t.span.stop = .ofNat (byteLength pre))
    (hchars : formula.toList = pre ++ t.kind.closing ++ (spelling pieces ++ blanks)) :
    List.IsChain (Follows formula)
      (t :: (tokensAt (byteLength (pre ++ t.kind.closing)) pieces ++
        [.endAt (.ofNat (byteLength formula.toList))])) := by
  -- By induction on the pieces. What moves along is the text `pre` in front of the next piece,
  -- which ends where the span of the last token does.
  induction hrow generalizing t pre with
  | nil =>
    rw [tokensAt, List.nil_append, List.isChain_cons_cons]
    refine ⟨follows_of_chars hsize pre blanks [] [] hstop hblanks ?_ ?_ rfl (absurd rfl),
      .singleton _⟩
    · rw [hchars]
      simp [spelling, TokenKind.opening]
    · rw [hchars]
      simp [spelling, TokenKind.opening, endAt, Span.emptyAt, Span.between]
  | @cons p pieces hstands _ ih =>
    obtain ⟨inner, hne, hlexeme, htext⟩ := hstands.lexeme.exists_inner
    have hspan (n : Nat) : (p.token n).span = .between (n + byteLength (p.blanks ++ p.kind.opening))
        (n + byteLength (p.blanks ++ p.kind.opening) + byteLength inner) := by
      rw [Piece.token, hlexeme, lexemeSpan_eq, byteLength_append, Nat.add_assoc]
    have hsource : formula.toList = pre ++ (t.kind.closing ++ (p.blanks ++ p.kind.opening)) ++
        (inner ++ (p.kind.closing ++ (spelling pieces ++ blanks))) := by
      rw [hchars, spelling_cons, Piece.chars, hlexeme]
      simp only [List.append_assoc]
    have hnext : byteLength (pre ++ t.kind.closing) + byteLength p.chars =
        byteLength (pre ++ (t.kind.closing ++ (p.blanks ++ p.kind.opening)) ++ inner ++
          p.kind.closing) := by
      rw [Piece.chars, hlexeme]
      simp only [byteLength_append]
      omega
    rw [tokensAt, List.cons_append, List.isChain_cons_cons, hnext]
    refine ⟨follows_of_chars hsize pre p.blanks inner _ hstop hstands.blank hsource ?_ htext
      fun _ ↦ hne, ih _ _ ?_ ?_⟩
    · rw [hspan, ← byteLength_append, List.append_assoc]
      rfl
    · rw [hspan, ← byteLength_append, ← byteLength_append, Span.stop_between]
      simp only [List.append_assoc]
    · rw [hsource]
      simp only [List.append_assoc]
      rfl

/-- All tokens of a formula follow each other, the first of them from its start on. -/
theorem isChain_follows_of_scan (h : scan registry formula = .ok tokens) :
    List.IsChain (Follows formula) (endAt 0 :: tokens) := by
  obtain ⟨pieces, blanks, ⟨hchars, hrow, hblanks⟩, rfl⟩ := scan_eq_ok_iff_split.mp h
  rw [List.append_nil] at hchars hrow
  exact isChain_follows hsize hrow hblanks (endAt 0) [] rfl hchars

/-- None of them overlap, and each comes from the formula. -/
theorem pairwise_behind_of_scan (h : scan registry formula = .ok tokens) :
    (∀ t ∈ tokens, t.ComesFrom formula) ∧ tokens.Pairwise (Behind formula) := by
  have hbehind := (isChain_follows_of_scan hsize h).imp fun _ _ h ↦ h.toBehind
  obtain ⟨hfirst, hpairwise⟩ := List.pairwise_cons.mp hbehind.pairwise
  exact ⟨fun t ht ↦ (hfirst t ht).comesFrom, hpairwise⟩

end

/-- **Nothing is lost.** If a formula of less than 4 GiB is scanned, the last token and no other is
the end of input, without text and empty behind the last character. Every span lies in the formula,
between characters, and what it is about is the text of the token, or becomes it in upper case. Only
the last is empty. The spans stand one behind the other. Between them, and in front of the first,
there are blanks and the braces of identifiers only. -/
theorem scan_is_lossless (hsize : formula.utf8ByteSize < UInt32.size)
    (h : scan registry formula = .ok tokens) :
    (∃ body, tokens = body ++
        [⟨.endOfInput, "", .between formula.utf8ByteSize formula.utf8ByteSize⟩] ∧
      ∀ t ∈ body, t.kind ≠ .endOfInput ∧ t.span.start < t.span.stop) ∧
    (∀ t ∈ tokens, t.span.Within formula ∧
      t.text = if t.kind = .function then Text.upper (t.span.slice formula)
        else t.span.slice formula) ∧
    tokens.Pairwise (fun t u ↦ t.span.stop ≤ u.span.start) ∧
    (∀ t ∈ tokens.head?, IsGap formula 0 t.span.start [] t.kind.opening) ∧
    tokens.IsChain fun t u ↦
      IsGap formula t.span.stop u.span.start t.kind.closing u.kind.opening := by
  have hchain := isChain_follows_of_scan hsize h
  obtain ⟨hfrom, hpairwise⟩ := pairwise_behind_of_scan hsize h
  refine ⟨?_, fun t ht ↦ ⟨(hfrom t ht).within hsize, (hfrom t ht).text_eq hsize⟩,
    hpairwise.imp fun h ↦ h.stop_le, fun t ht ↦ ?_, hchain.tail.imp fun _ _ h ↦ h.gap⟩
  · obtain ⟨body, c, hlexes, -, rfl⟩ := scan_eq_ok_iff.mp h
    refine ⟨body, by rw [byteLength_toList]; rfl, fun t ht ↦ ?_⟩
    have hkind := Token.isEnd_eq_false_iff.mp (hlexes.isEnd_eq_false t ht)
    obtain ⟨inner, hcovers, -, hne⟩ := hfrom t (List.mem_append_left _ ht)
    exact ⟨hkind, hcovers.start_lt hsize (hne hkind)⟩
  · obtain ⟨rest, rfl⟩ := List.head?_eq_some_iff.mp ht
    exact (List.isChain_cons_cons.mp hchain).1.gap

/-- An identifier has its braces in the gaps around it. -/
theorem scan_is_lossless_identifier :
    let formula := "\x7ba\x7d "
    let tokens : List Token := [⟨.identifier, "a", ⟨1, 2⟩⟩, .endAt 4]
    formula.utf8ByteSize < UInt32.size ∧
      scan .standard formula = .ok tokens ∧ (Span.mk 1 2).Within formula ∧
      Span.slice formula ⟨1, 2⟩ = "a" ∧ IsGap formula 0 1 [] ['\x7b'] ∧
      IsGap formula 2 4 ['\x7d'] [] := by
  intro formula tokens
  have hlexeme : Lexeme .standard .identifier "a" ['\x7b', 'a', '\x7d'] :=
    .identifier rfl (List.forall_mem_nil _)
  have hchars : formula.toList = ['\x7b', 'a', '\x7d', ' '] := by decide
  have hsplit : Split .standard formula [⟨[], .identifier, "a", ['\x7b', 'a', '\x7d']⟩] [' '] [] :=
    ⟨hchars, .cons ⟨List.forall_mem_nil _, hlexeme, fun _ _ ↦ rfl⟩ .nil,
      List.forall_mem_singleton.mpr rfl⟩
  have hscan : scan .standard formula = .ok tokens :=
    scan_eq_ok_iff_split.mpr ⟨_, _, hsplit, by decide⟩
  have hsize : formula.utf8ByteSize < UInt32.size := by decide
  obtain ⟨-, hslices, -, hhead, hchain⟩ := scan_is_lossless hsize hscan
  obtain ⟨hwithin, htext⟩ := hslices _ List.mem_cons_self
  exact ⟨hsize, hscan, hwithin, htext.symm, hhead _ rfl, (List.isChain_cons_cons.mp hchain).1⟩

end Lexer

end DecimalFormula
