import DecimalFormula.Proofs.Scanning.Token
import DecimalFormula.Proofs.Tree.Spans

/-!
# All tokens of a formula

The scanner is asked for one token after the other (`Lexer.Lexes`). A formula is scanned exactly if
that comes to a place where only blanks are left; the answer is what was scanned on the way, and the
end of input (`Lexer.scan_eq_ok_iff`). Otherwise it comes to a place where no token can be scanned,
and the error met there is the answer (`Lexer.scan_eq_error_iff`).

`Lexer.Spells` forgets where the tokens stand, and is put together lexeme by lexeme. It always names
the characters that follow, because without them there is no telling where the last lexeme ends.
-/

namespace DecimalFormula

namespace Lexer

/-! ## One token after the other -/

/-- From a cursor to another these tokens are scanned, none of which is the end of input. -/
inductive Lexes (registry : Registry) : TextCursor → List Token → TextCursor → Prop
  | nil {c} : Lexes registry c [] c
  | cons {c t next ts c'} : scanToken registry c = (.ok t, next) → t.isEnd = false →
    Lexes registry next ts c' → Lexes registry c (t :: ts) c'

variable {registry : Registry} {c c' c'' next : TextCursor} {t : Token} {ts us tokens : List Token}

namespace Lexes

theorem trans (h : Lexes registry c ts c') (h' : Lexes registry c' us c'') :
    Lexes registry c (ts ++ us) c'' := by
  induction h with
  | nil => exact h'
  | cons hscan hend _ ih => exact .cons hscan hend (ih h')

theorem isEnd_eq_false (h : Lexes registry c ts c') : ∀ t ∈ ts, t.isEnd = false := by
  induction h with
  | nil => exact List.forall_mem_nil _
  | cons _ hend _ ih => exact List.forall_mem_cons.mpr ⟨hend, ih⟩

theorem legible (h : Lexes registry c ts c') : ∀ t ∈ ts, t.Legible registry := by
  induction h with
  | nil => exact List.forall_mem_nil _
  | cons hscan hend _ ih =>
    obtain ⟨_, _, _, _, hlex, -⟩ := scanToken_eq_iff.mp ⟨hscan, hend⟩
    exact List.forall_mem_cons.mpr ⟨hlex.legible, ih⟩

theorem length_eq (h : Lexes registry c ts c') :
    c'.position + byteLength c'.rest = c.position + byteLength c.rest := by
  induction h with
  | nil => rfl
  | cons hscan hend _ ih =>
    obtain ⟨blanks, cs, hrest, -, -, -, -, hposition⟩ := scanToken_eq_iff.mp ⟨hscan, hend⟩
    rw [ih, hrest, hposition, byteLength_append, byteLength_append, byteLength_append]
    omega

end Lexes

/-! ## Runs -/

theorem run_of_isEnd (h : scanToken registry c = (.ok t, next)) (hend : t.isEnd = true) :
    run registry c = ([t], none) := by
  rw [run]
  split
  · next hscan => rw [h] at hscan; cases hscan
  · next hscan => rw [h] at hscan; cases hscan; rw [dif_pos hend]

theorem run_of_token (h : scanToken registry c = (.ok t, next)) (hend : t.isEnd = false) :
    run registry c = (t :: (run registry next).1, (run registry next).2) := by
  rw [run]
  split
  · next hscan => rw [h] at hscan; cases hscan
  · next hscan => rw [h] at hscan; cases hscan; rw [dif_neg (by simp [hend])]

theorem run_of_lexes (h : Lexes registry c ts c') :
    run registry c = (ts ++ (run registry c').1, (run registry c').2) := by
  induction h with
  | nil => rfl
  | cons hscan hend _ ih => rw [run_of_token hscan hend, ih, List.cons_append]

theorem run_of_error {e : LexicalError} (h : (scanToken registry c).1 = .error e) :
    run registry c = ([], some e) := by
  rw [run]
  split
  · next hscan => rw [hscan] at h; cases h; rfl
  · next hscan => rw [hscan] at h; cases h

/-- Scanning comes to the end of input or to an error. -/
theorem exists_lexes (registry : Registry) (c : TextCursor) : ∃ body c',
    Lexes registry c body c' ∧ ((∀ b ∈ c'.rest, isBlank b = true) ∨
      ∃ e, (scanToken registry c').1 = .error e) := by
  induction c using run.induct registry with
  | case1 c e next hscan => exact ⟨[], c, .nil, .inr ⟨e, congrArg Prod.fst hscan⟩⟩
  | case2 c t next hscan hend => exact ⟨[], c, .nil, .inl (scanToken_isEnd_iff.mp ⟨hscan, hend⟩).1⟩
  | case3 c t next hscan hend ih =>
    rw [Bool.not_eq_true] at hend
    obtain ⟨body, c', hlexes, hlast⟩ := ih
    exact ⟨t :: body, c', .cons hscan hend hlexes, hlast⟩

/-! ### Whole formulas -/

variable {formula : String} {body : List Token} {e : LexicalError}

theorem scan_of_blanks (h : Lexes registry (.start formula.toList) body c)
    (hblanks : ∀ b ∈ c.rest, isBlank b = true) :
    scan registry formula = .ok (body ++ [.endAt (.ofNat (byteLength formula.toList))]) := by
  have hend : c.position + byteLength c.rest = byteLength formula.toList := by
    rw [h.length_eq, TextCursor.start, Nat.zero_add]
  obtain ⟨hlast, heof⟩ : scanToken registry c = (.ok _, _) ∧ _ :=
    scanToken_isEnd_iff.mpr ⟨hblanks, rfl, rfl⟩
  rw [scan, run_of_lexes h, run_of_isEnd hlast heof, hend]

theorem scan_of_error (h : Lexes registry (.start formula.toList) body c)
    (he : (scanToken registry c).1 = .error e) : scan registry formula = .error e := by
  rw [scan, run_of_lexes h, run_of_error he]

theorem scan_eq_ok_iff : scan registry formula = .ok tokens ↔
    ∃ body c', Lexes registry (.start formula.toList) body c' ∧
      (∀ b ∈ c'.rest, isBlank b = true) ∧
      tokens = body ++ [.endAt (.ofNat (byteLength formula.toList))] := by
  constructor
  · intro h
    obtain ⟨body, c', hlexes, hblanks | ⟨e, he⟩⟩ := exists_lexes registry (.start formula.toList)
    · rw [scan_of_blanks hlexes hblanks] at h
      cases h
      exact ⟨body, c', hlexes, hblanks, rfl⟩
    · rw [scan_of_error hlexes he] at h
      cases h
  · rintro ⟨body, c', hlexes, hblanks, rfl⟩
    exact scan_of_blanks hlexes hblanks

theorem scan_eq_error_iff : scan registry formula = .error e ↔
    ∃ body c', Lexes registry (.start formula.toList) body c' ∧
      (scanToken registry c').1 = .error e := by
  constructor
  · intro h
    obtain ⟨body, c', hlexes, hblanks | ⟨e', he⟩⟩ := exists_lexes registry (.start formula.toList)
    · rw [scan_of_blanks hlexes hblanks] at h
      cases h
    · rw [scan_of_error hlexes he] at h
      cases h
      exact ⟨body, c', hlexes, he⟩
  · rintro ⟨body, c', hlexes, he⟩
    exact scan_of_error hlexes he

/-! ## What characters spell -/

/-- Wherever they stand, the characters `cs` are scanned as the tokens `ts`, but for their spans, if
the characters `rest` follow. -/
def Spells (registry : Registry) (cs : List Char) (ts : List Token) (rest : List Char) : Prop :=
  ∀ n, ∃ us n', Lexes registry ⟨n, cs ++ rest⟩ us ⟨n', rest⟩ ∧ SameWords us ts

namespace Spells

variable {cs ds rest : List Char}

theorem nil : Spells registry [] [] rest := fun n ↦ ⟨[], n, .nil, rfl⟩

theorem append (h : Spells registry cs ts (ds ++ rest)) (h' : Spells registry ds us rest) :
    Spells registry (cs ++ ds) (ts ++ us) rest := by
  intro n
  obtain ⟨ts', n', hts, hwords⟩ := h n
  obtain ⟨us', n'', hus, hwords'⟩ := h' n'
  refine ⟨ts' ++ us', n'', ?_, hwords.append hwords'⟩
  rw [List.append_assoc]
  exact hts.trans hus

theorem lexeme (h : Lexeme registry t.kind t.text cs) (hends : t.kind.EndsAt rest) :
    Spells registry cs [t] rest := by
  intro n
  have hscan := scanToken_of_lexeme (n := n) (List.forall_mem_nil _) h hends
  exact ⟨_, _, .cons hscan (Token.isEnd_eq_false_iff.mpr h.kind_ne_endOfInput) .nil, rfl⟩

/-- A blank goes with the token behind it. -/
theorem blank (h : Spells registry cs ts rest) (hts : ts ≠ []) :
    Spells registry (' ' :: cs) ts rest := by
  intro n
  obtain ⟨us, n', hus, hwords⟩ := h (n + 1)
  refine ⟨us, n', ?_, hwords⟩
  -- Without a token behind it the blank would be left over.
  cases us with
  | nil => exact absurd (List.map_eq_nil_iff.mp hwords.symm) hts
  | cons u us =>
    cases hus with
    | cons hscan hend hus =>
      refine .cons ?_ hend hus
      rw [← hscan, scanToken, scanToken, List.cons_append, TextCursor.skip_cons (by rfl)]
      rfl

end Spells

end Lexer

end DecimalFormula
