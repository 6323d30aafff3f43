import DecimalFormula.Proofs.Grammar.Derivation
import Mathlib.Data.List.Nodup

/-!
# Which parenthesis closes a call

A tree keeps no parentheses, and yet the span of a call ends with one. `ClosesCall tokens name u`
says which, without mention of trees: `u` is the partner of the parenthesis behind the name. In a
derivation all parentheses have partners (`DerivesWithin.balanced`), which are determined by the
tokens alone (`Balanced.append_inj`).
-/

namespace DecimalFormula

/-- Tokens among which every parenthesis has its partner. -/
inductive Balanced : List Token → Prop
  | nil : Balanced []
  | other {t ts} : t.kind ≠ .leftParen → t.kind ≠ .rightParen → Balanced ts → Balanced (t :: ts)
  | group {t xs u ts} : t.kind = .leftParen → Balanced xs → u.kind = .rightParen → Balanced ts →
    Balanced (t :: (xs ++ u :: ts))

/-- Among some tokens one closes the call of a function name. -/
def ClosesCall (tokens : List Token) (name closing : Token) : Prop :=
  ∃ before opening inner after,
    tokens = before ++ name :: opening :: (inner ++ closing :: after) ∧
    name.kind = .function ∧ opening.kind = .leftParen ∧ Balanced inner ∧ closing.kind = .rightParen

variable {tokens xs ys : List Token} {t u v f : Token}

/-! ## Partners -/

namespace Balanced

theorem append (hxs : Balanced xs) (hys : Balanced ys) : Balanced (xs ++ ys) := by
  induction hxs with
  | nil => exact hys
  | other hleft hright _ ih => exact .other hleft hright ih
  | @group t xs u ts ht hxs hu _ _ ih =>
    rw [List.cons_append, List.append_assoc, List.cons_append]
    exact .group ht hxs hu ih

/-- What stands behind a first parenthesis is split in one way only at its partner. -/
theorem append_inj (hxs : Balanced xs) (hu : u.kind = .rightParen) (hys : Balanced ys)
    (hv : v.kind = .rightParen) {post post' : List Token}
    (h : xs ++ u :: post = ys ++ v :: post') : xs = ys ∧ u = v ∧ post = post' := by
  induction hxs generalizing ys u v post post' with
  | nil =>
    cases hys with
    | nil => exact ⟨rfl, List.cons.inj h⟩
    | other _ hright _ =>
      obtain ⟨rfl, -⟩ := List.cons.inj h
      exact absurd hu hright
    | group ht _ _ _ =>
      obtain ⟨rfl, -⟩ := List.cons.inj h
      cases hu.symm.trans ht
  | @other t ts hleft hright _ ih =>
    cases hys with
    | nil =>
      obtain ⟨rfl, -⟩ := List.cons.inj h
      exact absurd hv hright
    | other _ _ hys =>
      obtain ⟨rfl, htail⟩ := List.cons.inj h
      obtain ⟨rfl, hrest⟩ := ih hu hys hv htail
      exact ⟨rfl, hrest⟩
    | group ht _ _ _ =>
      obtain ⟨rfl, -⟩ := List.cons.inj h
      exact absurd ht hleft
  | @group t xs w ts ht _ hw _ ihxs ihts =>
    cases hys with
    | nil =>
      obtain ⟨rfl, -⟩ := List.cons.inj h
      cases hv.symm.trans ht
    | other hleft _ _ =>
      obtain ⟨rfl, -⟩ := List.cons.inj h
      exact absurd ht hleft
    | @group t' xs' w' ts' _ hxs' hw' hts' =>
      obtain ⟨rfl, htail⟩ := List.cons.inj h
      simp only [List.append_eq, List.append_assoc, List.cons_append] at htail
      -- First the group in front is split off, then what stands behind it is compared.
      obtain ⟨rfl, rfl, hbehind⟩ := ihxs hw hxs' hw' htail
      obtain ⟨rfl, hrest⟩ := ihts hu hts' hv hbehind
      exact ⟨rfl, hrest⟩

theorem singleton (hleft : t.kind ≠ .leftParen) (hright : t.kind ≠ .rightParen) : Balanced [t] :=
  .other hleft hright .nil

theorem furtherTokens {more : List FurtherArgument} (hcommas : ∀ m ∈ more, m.comma.kind = .comma)
    (hmore : ∀ m ∈ more, Balanced m.tokens) : Balanced (furtherTokens more) := by
  induction more with
  | nil => exact .nil
  | cons m more ih =>
    obtain ⟨hcomma, hcommas⟩ := List.forall_mem_cons.mp hcommas
    obtain ⟨hm, hmore⟩ := List.forall_mem_cons.mp hmore
    rw [DecimalFormula.furtherTokens, List.flatMap_cons]
    refine .append (.other ?_ ?_ hm) (ih hcommas hmore)
    · rw [hcomma]
      decide
    · rw [hcomma]
      decide

end Balanced

theorem Level.ne_of_sign? {level : Level} {kind kind' : TokenKind} {o : UnaryOp}
    (h : level.sign? kind = some o) (hkind : kind'.isOperator = false) : kind ≠ kind' := by
  rintro rfl
  have hsign := (sign?_eq_some_iff.mp h).1
  unfold UnaryOp.ofKind? at hsign
  split at hsign <;> first | cases hkind | cases hsign

theorem Level.ne_of_operator? {level : Level} {kind kind' : TokenKind} {o : BinaryOp}
    (h : level.operator? kind = some o) (hkind : kind'.isOperator = false) : kind ≠ kind' := by
  rintro rfl
  have hoperator := (operator?_eq_some_iff.mp h).1
  unfold BinaryOp.ofKind? at hoperator
  split at hoperator <;> first | cases hkind | cases hoperator

theorem DerivesWithin.balanced {n : Nat} {level : Level} {x : Tree}
    (h : DerivesWithin n level xs x) : Balanced xs := by
  induction h with
  | tighter _ _ ih => exact ih
  | sign ht _ ih => exact .other (Level.ne_of_sign? ht rfl) (Level.ne_of_sign? ht rfl) ih
  | join _ ht _ ihx ihy =>
    exact ihx.append (.other (Level.ne_of_operator? ht rfl) (Level.ne_of_operator? ht rfl) ihy)
  | number hk | identifier hk => exact .singleton (by rw [hk]; decide) (by rw [hk]; decide)
  | parenthesized ht _ hu ih => exact .group ht ih hu .nil
  | emptyCall hf ht hu =>
    exact .other (by rw [hf]; decide) (by rw [hf]; decide) (.group ht .nil hu .nil)
  | call hf ht _ hcommas _ hu ihx ihmore =>
    have hinner := ihx.append (.furtherTokens hcommas ihmore)
    exact .other (by rw [hf]; decide) (by rw [hf]; decide) (.group ht hinner hu .nil)

/-! ## Calls -/

namespace ClosesCall

theorem mono (h : ClosesCall xs f u) (hpart : xs <:+: tokens) : ClosesCall tokens f u := by
  obtain ⟨before, opening, inner, after, rfl, hrest⟩ := h
  obtain ⟨pre, post, rfl⟩ := hpart
  refine ⟨pre ++ before, opening, inner, after ++ post, ?_, hrest⟩
  simp only [List.append_assoc, List.cons_append]

/-- A call whose name stands but once among the tokens is closed by one of them only. -/
theorem unique (h : ClosesCall tokens f u) (h' : ClosesCall tokens f v) (hf : tokens.Nodup) :
    u = v := by
  obtain ⟨before, opening, inner, after, rfl, -, -, hinner, hu⟩ := h
  obtain ⟨before', opening', inner', after', heq, -, -, hinner', hv⟩ := h'
  have honce := (List.nodup_middle.mp hf).notMem
  rw [List.mem_append, not_or] at honce
  obtain ⟨rfl, -, htail⟩ := (List.append_cons_inj_of_notMem honce.1 honce.2).mp heq
  obtain ⟨rfl, hgroup⟩ := List.cons.inj htail
  exact (hinner.append_inj hu hinner' hv hgroup).2.1

end ClosesCall

end DecimalFormula
