import DecimalFormula.NameMap
import DecimalFormula.Proofs.Text.ByteOrder

/-!
# What a name map holds

A name map is told by what it answers for each name (`NameMap.eq_iff_get?`). The listing holds a
name if and only if a lookup finds it, each once, in the order of the bytes of the names
(`NameMap.mem_names_iff`, `NameMap.pairwise_names`).
-/

namespace DecimalFormula

/-! ## The last entry of a list -/

/-- One element more is the last of a sort, or it does not count and the last one stands before. -/
theorem exists_last_append_singleton_iff {α : Type} {l : List α} {a : α} {p q : α → Prop} :
    (∃ before x after, l ++ [a] = before ++ x :: after ∧ p x ∧ ∀ y ∈ after, q y) ↔
      p a ∨ (∃ before x after, l = before ++ x :: after ∧ p x ∧ ∀ y ∈ after, q y) ∧ q a := by
  constructor
  · rintro ⟨before, x, after, hl, hx, hafter⟩
    rcases List.eq_nil_or_concat after with rfl | ⟨after, last, rfl⟩
    · obtain ⟨-, hlast⟩ := List.append_inj' hl rfl
      rw [(List.cons.inj hlast).1]
      exact .inl hx
    · rw [List.concat_eq_append, ← List.cons_append, ← List.append_assoc] at hl
      obtain ⟨rfl, hlast⟩ := List.append_inj' hl rfl
      obtain rfl := (List.cons.inj hlast).1
      rw [List.concat_eq_append, List.forall_mem_append, List.forall_mem_singleton] at hafter
      exact .inr ⟨⟨before, x, after, rfl, hx, hafter.1⟩, hafter.2⟩
  · rintro (ha | ⟨⟨before, x, after, rfl, hx, hafter⟩, ha⟩)
    · exact ⟨l, a, [], rfl, ha, List.forall_mem_nil _⟩
    · refine ⟨before, x, after ++ [a], by rw [List.append_assoc, List.cons_append], hx, ?_⟩
      exact List.forall_mem_append.mpr ⟨hafter, List.forall_mem_singleton.mpr ha⟩

namespace NameMap

variable {α : Type} {m m' : NameMap α} {name : String}

theorem eq_iff_get? : m = m' ↔ ∀ name, m.get? name = m'.get? name :=
  ⟨fun h _ ↦ h ▸ rfl, ext_get?⟩

theorem eq_iff_entries : m = m' ↔ m.entries = m'.entries := by
  refine ⟨fun h ↦ h ▸ rfl, fun h ↦ ?_⟩
  cases m
  cases h
  rfl

/-! ## Listings -/

theorem mem_names_iff : name ∈ m.names ↔ ∃ value, m.get? name = some value := by
  rw [names, List.mem_map]
  constructor
  · rintro ⟨⟨n, value⟩, hmem, rfl⟩
    exact ⟨value, get?_eq_some_iff.mpr hmem⟩
  · rintro ⟨value, h⟩
    exact ⟨(name, value), get?_eq_some_iff.mp h, rfl⟩

theorem pairwise_entries (m : NameMap α) :
    m.entries.Pairwise fun a b ↦ Text.bytes a.1 < Text.bytes b.1 :=
  m.sorted.imp Text.bytes_lt_iff.mpr

theorem pairwise_names (m : NameMap α) :
    m.names.Pairwise fun a b ↦ Text.bytes a < Text.bytes b :=
  List.pairwise_map.mpr m.pairwise_entries

theorem length_names (m : NameMap α) : m.names.length = m.size :=
  List.length_map _

theorem isEmpty_iff_names : m.isEmpty = true ↔ m.names = [] := by
  rw [isEmpty, List.isEmpty_iff, names, List.map_eq_nil_iff]

end NameMap

end DecimalFormula
