import DecimalFormula.Proofs.Console.Lines

/-!
# Definitions as options and as lines

A name can be defined by an option of the program, as one word with an equals sign, and by a line of
a session, as two words. The two take the braces off a name by the same rule, so they define the
same name, with one exception: of a name that consists of braces only nothing is left, which an
option rejects and a line binds (`Loop.binds_as_read`).

What a line binds is said by the step of the session (`Loop.Binds`), whatever is bound already.
-/

namespace DecimalFormula

/-! ## Names made of braces -/

namespace Definition

def BracesOnly (name : List Char) : Prop :=
  ∃ opening closing, name = List.replicate opening '\x7b' ++ List.replicate closing '\x7d'

variable {name : List Char}

theorem bareName_eq_nil_iff : bareName name = [] ↔ BracesOnly name := by
  rw [bareName, Text.dropTrailing_eq_nil_iff]
  constructor
  · intro hclosing
    have hfront : ∀ c ∈ name.takeWhile (· == '\x7b'), c = '\x7b' := by
      intro c hc
      simpa using List.all_eq_true.mp List.all_takeWhile c hc
    have hback : ∀ c ∈ name.dropWhile (· == '\x7b'), c = '\x7d' := by
      intro c hc
      simpa using hclosing c hc
    refine ⟨(name.takeWhile (· == '\x7b')).length, (name.dropWhile (· == '\x7b')).length, ?_⟩
    rw [← List.eq_replicate_of_mem hfront, ← List.eq_replicate_of_mem hback,
      List.takeWhile_append_dropWhile]
  · rintro ⟨opening, closing, rfl⟩ c hc
    rw [List.dropWhile_append_of_pos (by simp)] at hc
    rw [List.eq_of_mem_replicate ((List.dropWhile_sublist _).subset hc), beq_self_eq_true]

end Definition

/-! ## What a line binds -/

namespace Console.Loop

/-- The line writes nothing, and what is bound behind it is what was bound in front of it with the
definition added. -/
def Binds (line : String) (d : Definition) : Prop :=
  ∀ e b, Loop.values.step e b line = ([], some (b.insert d.name d.value))

variable {line name value : String} {d d' : Definition}

/-- Where nothing is bound, the change that a request makes is seen from what is bound then. -/
theorem Request.edit?_of_bindings_empty {request : Request}
    (h : request.bindings .empty = .insert .empty name value) :
    request.edit? = some (.bind name value) := by
  have hfound : (request.bindings .empty).get? name = some value := by
    rw [h, NameMap.get?_insert, if_pos rfl]
  rw [Request.bindings_eq] at hfound
  cases hedit : request.edit? with
  | none =>
    rw [hedit] at hfound
    cases hfound
  | some edit =>
    rw [hedit, Option.map_some, Option.getD_some, Edit.get?_apply] at hfound
    split at hfound
    · next hname =>
      cases edit with
      | bind n v => rw [show name = n from hname, Option.some.inj hfound]
      | unbind n => cases hfound
    · cases hfound

theorem Request.eq_set_of_edit? {request : Request}
    (h : request.edit? = some (.bind name value)) : request = .set name value := by
  cases request <;> cases h
  rfl

theorem binds_iff_edits : Binds line d ↔ Edits line (.bind d.name d.value) := by
  rw [Request.edits_iff]
  constructor
  · intro hbinds
    have hstep : (if Request.ofLine line = .exit then none
        else some ((Request.ofLine line).bindings .empty)) =
          some (.insert .empty d.name d.value) :=
      congrArg Prod.snd (hbinds .standard .empty)
    split at hstep
    · cases hstep
    · exact Request.edit?_of_bindings_empty (Option.some.inj hstep)
  · intro hedit e b
    simp only [step, Request.eq_set_of_edit? hedit]
    rfl

theorem Binds.unique (h : Binds line d) (h' : Binds line d') : d = d' := by
  have hedit := (binds_iff_edits.mp h).unique (binds_iff_edits.mp h')
  obtain ⟨hname, hvalue⟩ := Edit.bind.inj hedit
  cases d
  cases d'
  subst hname hvalue
  rfl

theorem binds_setLine (hname : Text.IsWord d.name.toList) (hvalue : Text.IsWord d.value.toList)
    (hnumber : (Decimal.readValue? d.value).isSome = true) : Binds (setLine d) d.bare := by
  obtain ⟨number, hnumber⟩ := Option.isSome_iff_exists.mp hnumber
  have hedit := Edits.set (words_setLine hname hvalue) (by rwa [String.ofList_toList])
  rw [String.ofList_toList] at hedit
  exact binds_iff_edits.mpr hedit

/-- **Options and lines.** A line binds the name without the braces around it. If anything is left
of the name then, an option is read as the same definition; if the name is made of braces only, the
line binds the empty name and the option is rejected. -/
theorem binds_as_read (hname : Text.IsWord d.name.toList) (hequals : '=' ∉ d.name.toList)
    (hvalue : Text.IsWord d.value.toList) (hnumber : (Decimal.readValue? d.value).isSome = true) :
    (∀ d', Binds (setLine d) d' ↔ d' = d.bare) ∧
    (¬ Definition.BracesOnly d.name.toList →
      ∀ d', Binds (setLine d) d' ↔ Definition.read d.text = .ok d') ∧
    (Definition.BracesOnly d.name.toList →
      Binds (setLine d) ⟨"", d.value⟩ ∧ Definition.read d.text = .error .emptyName) := by
  have hbinds : ∀ d', Binds (setLine d) d' ↔ d' = d.bare := by
    intro d'
    have hline := binds_setLine hname hvalue hnumber
    refine ⟨fun h ↦ h.unique hline, ?_⟩
    rintro rfl
    exact hline
  have hread := Definition.read_text hname.space hequals hvalue.space
  refine ⟨hbinds, fun hbraces d' ↦ ?_, fun hbraces ↦ ?_⟩
  · rw [← Definition.bareName_eq_nil_iff, ← List.isEmpty_iff] at hbraces
    rw [hbinds, hread, if_neg hbraces, Except.ok.injEq, eq_comm]
  · rw [← Definition.bareName_eq_nil_iff] at hbraces
    rw [hbinds, hread, if_pos (List.isEmpty_iff.mpr hbraces), Definition.bare, hbraces]
    exact ⟨rfl, rfl⟩

/-- One brace in front and two behind: both ways define `x`. -/
theorem binds_as_read_unbalanced :
    Binds (setLine ⟨"\x7bx\x7d\x7d", "1e5"⟩) ⟨"x", "1e5"⟩ ∧
      Definition.read "\x7bx\x7d\x7d=1e5" = .ok ⟨"x", "1e5"⟩ := by
  let d : Definition := ⟨"\x7bx\x7d\x7d", "1e5"⟩
  obtain ⟨hbinds, hread, -⟩ := binds_as_read (d := d) (by decide) (by decide) (by decide)
    (by decide +kernel)
  have hline : Binds (setLine d) ⟨"x", "1e5"⟩ := (hbinds _).mpr (by decide)
  have hbraces : ¬ Definition.BracesOnly d.name.toList := by
    rw [← Definition.bareName_eq_nil_iff]
    decide
  exact ⟨hline, (hread hbraces _).mp hline⟩

/-- A line binds a name that the option for it does not define: the empty one, between braces. -/
theorem binds_empty_name :
    let d : Definition := ⟨"\x7b\x7d", "5"⟩
    Text.IsWord d.name.toList ∧ '=' ∉ d.name.toList ∧ Text.IsWord d.value.toList ∧
      (Decimal.readValue? d.value).isSome = true ∧ Binds (setLine d) ⟨"", "5"⟩ ∧
      Definition.read d.text = .error .emptyName := by
  intro d
  have hname : Text.IsWord d.name.toList := by decide
  have hvalue : Text.IsWord d.value.toList := by decide
  have hnumber : (Decimal.readValue? d.value).isSome = true := by decide +kernel
  have hempty : d.bare = ⟨"", "5"⟩ := by decide
  exact ⟨hname, by decide, hvalue, hnumber, hempty ▸ binds_setLine hname hvalue hnumber, by decide⟩

end Console.Loop

end DecimalFormula
