import DecimalFormula.Proofs.Console.Agreement
import DecimalFormula.Proofs.Engine.Leaves
import DecimalFormula.Proofs.Parsing.Depth

/-!
# Results as bindings

What a formula comes to can be bound to a name as it is shown, and the name in braces then comes to
the same (`Console.results_are_bindings`). This is so for every decimal, as reading undoes writing
(`Decimal.readValue?_render`), with one exception: a text never is read as a negative zero.

In a session the result has to get through a line as well, which is split into words at white
space, and the name through the removal of its braces. There is neither white space nor a brace in
what a decimal is written as, nor in a name.
-/

namespace DecimalFormula

/-! ## Characters of results and names -/

theorem Text.isSpace_eq_false {c : Char} (hlow : 33 ≤ c.toNat) (hhigh : c.toNat ≤ 126) :
    isSpace c = false := by
  simp only [isSpace, Bool.or_eq_false_iff, Bool.and_eq_false_iff, decide_eq_false_iff_not,
    beq_eq_false_iff_ne]
  omega

theorem isSpace_of_isDigit {c : Char} (h : c.isDigit = true) : Text.isSpace c = false := by
  obtain ⟨hlow, hhigh⟩ := Char.isDigit_iff_toNat.mp h
  simp only [Char.reduceToNat] at hlow hhigh
  exact Text.isSpace_eq_false (by omega) (by omega)

theorem Decimal.isSpace_of_mem_render {d : Decimal} {c : Char} (h : c ∈ d.render.toList) :
    Text.isSpace c = false := by
  rw [render, String.toList_ofList, List.mem_append] at h
  rcases h with h | h
  · have hminus : c = '-' := by
      split at h
      · exact List.mem_singleton.mp h
      · cases h
    rw [hminus]
    rfl
  · rcases (numeral_unsignedDigits d.mantissa d.scale).1.isDigit_or_eq_point c h with hdigit | rfl
    · exact isSpace_of_isDigit hdigit
    · rfl

namespace IsIdentifierName

variable {cs : List Char} {c : Char}

theorem continuesIdentifier_of_mem (h : IsIdentifierName cs) (hc : c ∈ cs) :
    continuesIdentifier c = true := by
  cases h with
  | mk hstart hrest => exact forall_continuesIdentifier hstart hrest c hc

theorem ne_nil (h : IsIdentifierName cs) : cs ≠ [] := by
  cases h with
  | mk => exact List.cons_ne_nil _ _

theorem isSpace_of_mem (h : IsIdentifierName cs) (hc : c ∈ cs) : Text.isSpace c = false := by
  have hcontinues := h.continuesIdentifier_of_mem hc
  rw [continuesIdentifier, Char.isAlphanum, Bool.or_eq_true, Bool.or_eq_true, beq_iff_eq]
    at hcontinues
  rcases hcontinues with (halpha | hdigit) | rfl
  · have hrange := isAlpha_iff_toNat.mp halpha
    exact Text.isSpace_eq_false (by omega) (by omega)
  · exact isSpace_of_isDigit hdigit
  · rfl

theorem ne_of_mem {d : Char} (h : IsIdentifierName cs) (hc : c ∈ cs)
    (hd : continuesIdentifier d = false) : c ≠ d := by
  rintro rfl
  rw [h.continuesIdentifier_of_mem hc] at hd
  cases hd

theorem bareName_eq (h : IsIdentifierName cs) : Definition.bareName cs = cs := by
  have hopening : cs.dropWhile (· == '\x7b') = cs := by
    cases cs with
    | nil => rfl
    | cons c cs =>
      have hc : c ≠ '\x7b' := h.ne_of_mem List.mem_cons_self rfl
      exact List.dropWhile_cons_of_neg (by simpa using hc)
  rw [Definition.bareName, hopening]
  refine Text.dropTrailing_eq_self fun c hc ↦ ?_
  rw [beq_eq_false_iff_ne]
  exact h.ne_of_mem (List.mem_of_getLast? hc) rfl

end IsIdentifierName

/-- No formula has a value under a smaller limit. -/
theorem Engine.eight_le_limit_of_evalFormula {e : Engine} {bindings : Bindings} {formula : String}
    {v : Decimal} (h : e.evalFormula bindings formula = .ok v) : 8 ≤ e.limit := by
  rw [evalFormula] at h
  cases hparse : e.parse formula with
  | error error =>
    rw [hparse] at h
    cases h
  | ok tree =>
    obtain ⟨_, _, -, -, hderives, -⟩ := parse_eq_ok_iff.mp hparse
    exact hderives.eight_le

namespace Console

open Loop

variable {e : Engine} {name : String}

theorem isPlain_result (hname : IsIdentifierName name.toList) (v : Decimal) :
    Definition.IsPlain ⟨name, v.render⟩ where
  name _ hc := hname.isSpace_of_mem hc
  equals hmem := hname.ne_of_mem hmem rfl rfl
  bareName := by
    rw [hname.bareName_eq]
    exact hname.ne_nil
  value _ hc := v.isSpace_of_mem_render hc
  number := by
    rw [v.readValue?_render]
    rfl

theorem isFormula_braced (hname : IsIdentifierName name.toList) : Loop.IsFormula (braced name) := by
  have hchars : (braced name).toList = '\x7b' :: (name.toList ++ ['\x7d']) := by
    simp [braced]
  have hspace : ∀ c ∈ (braced name).toList, Text.isSpace c = false := by
    rw [hchars]
    refine List.forall_mem_cons.mpr ⟨rfl, List.forall_mem_append.mpr ⟨fun c hc ↦ ?_, ?_⟩⟩
    · exact hname.isSpace_of_mem hc
    · exact List.forall_mem_singleton.mpr rfl
  refine ⟨?_, Text.trim_eq_self hspace, fun hfeed ↦ ?_, ?_⟩
  · rw [Ne, ← String.toList_eq_nil_iff, hchars]
    exact List.cons_ne_nil _ _
  · exact absurd (hspace '\n' hfeed) (by decide)
  · rw [hchars, List.head?_cons]
    decide

theorem evalFormula_of_result (hlimit : 8 ≤ e.limit) (hname : IsIdentifierName name.toList)
    (v : Decimal) (bindings : Bindings) :
    e.evalFormula (bindings.set name v.render).2 (braced name) = .ok v.withoutZeroSign := by
  refine Engine.evalFormula_of_identifier hlimit hname ?_ v.readValue?_render
  rw [Bindings.set, NameMap.get?_insert, if_pos rfl]

/-- In a session the line that binds a name to a result writes nothing, and the line with the name
in braces writes the result. -/
theorem answersOf_events_result (hlimit : 8 ≤ e.limit) (hname : IsIdentifierName name.toList)
    (v : Decimal) (bindings : Bindings) :
    answersOf (Loop.values.events e bindings [setLine ⟨name, v.render⟩, braced name]) =
      [.print Loop.values.prompt, .print Loop.values.prompt, .line v.withoutZeroSign.render,
        .print Loop.values.prompt] := by
  have hsession := answersOf_events e (isFormula_braced hname)
    (List.forall_mem_singleton.mpr (isPlain_result hname v)) bindings
  have hbound : boundBy bindings ([(⟨name, v.render⟩ : Definition)].map Definition.bare) =
      (bindings.set name v.render).2 := by
    rw [List.map_singleton, Definition.bare, hname.bareName_eq, String.ofList_toList]
    rfl
  rw [hbound, evalFormula_of_result hlimit hname] at hsession
  exact hsession

/-- **Results can be bound.** Reading what a decimal is written as gives the decimal back, except
that a negative zero comes back as a zero of the same scale. So if a name is bound to a result as it
is shown, whatever else is bound, the name in braces comes to the result, with the same exception;
and so it does in a session that has one line for either. -/
theorem results_are_bindings :
    (∀ v : Decimal, Decimal.readValue? v.render = some v.withoutZeroSign ∧
      (v.withoutZeroSign = v ↔ v.negative = false ∨ v.mantissa ≠ 0)) ∧
    ∀ (e : Engine) (bindings : Bindings) (formula : String) (v : Decimal),
      e.evalFormula bindings formula = .ok v → ∀ name : String, IsIdentifierName name.toList →
        ∀ others : Bindings,
          e.evalFormula (others.set name v.render).2 (braced name) = .ok v.withoutZeroSign ∧
          answersOf (Loop.values.events e others [setLine ⟨name, v.render⟩, braced name]) =
            [.print Loop.values.prompt, .print Loop.values.prompt, .line v.withoutZeroSign.render,
              .print Loop.values.prompt] := by
  refine ⟨fun v ↦ ⟨v.readValue?_render, Decimal.withoutZeroSign_eq_self_iff⟩, ?_⟩
  intro e bindings formula v hvalue name hname others
  have hlimit := Engine.eight_le_limit_of_evalFormula hvalue
  exact ⟨evalFormula_of_result hlimit hname v others, answersOf_events_result hlimit hname v others⟩

/-- The sign of a result is kept, and so is its last zero. -/
theorem results_are_bindings_negative :
    let v : Decimal := ⟨true, 50, 2, by decide, by decide⟩
    Engine.standard.evalFormula .empty "-0.50" = .ok v ∧ IsIdentifierName "r".toList ∧
      v.render = "-0.50" ∧
      Engine.standard.evalFormula (Bindings.set .empty "r" "-0.50").2 "\x7br\x7d" = .ok v := by
  intro v
  have hvalue : Engine.standard.evalFormula .empty "-0.50" = .ok v := by decide +kernel
  have hname : IsIdentifierName "r".toList :=
    @IsIdentifierName.mk 'r' [] rfl (List.forall_mem_nil _)
  have hrender : v.render = "-0.50" := by decide +kernel
  obtain ⟨-, hbound⟩ := results_are_bindings
  obtain ⟨hresult, -⟩ := hbound _ _ _ v hvalue "r" hname .empty
  rw [hrender] at hresult
  exact ⟨hvalue, hname, hrender, hresult⟩

end Console

end DecimalFormula
