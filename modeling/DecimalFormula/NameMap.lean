/-!
# Finite maps keyed by names

A name map is a list of entries in strictly increasing order of their names. The order is that of
code points, which is also the byte order of the UTF-8 encodings.

Keeping the entries sorted makes the representation canonical: two maps that answer every lookup
alike are equal (`NameMap.ext_get?`), whatever histories built them, and listing a map needs no
sorting. The order is a field of the type, so no operation can lose it.
-/

namespace DecimalFormula

universe u

/-- A finite map from names to values, as a strictly sorted list of entries. -/
structure NameMap (α : Type u) where
  /-- The entries, by increasing name. -/
  entries : List (String × α)
  /-- No two entries share a name, and they stand in order. -/
  sorted : entries.Pairwise (fun a b ↦ a.1 < b.1)
deriving DecidableEq

namespace NameMap

variable {α : Type u}

/-! ## Order of names -/

private theorem lt_of_not_lt {a b : String} (hne : a ≠ b) (h : ¬ a < b) : b < a :=
  Std.lt_of_le_of_ne (String.not_lt.mp h) (Ne.symm hne)

/-! ## Operations -/

def empty : NameMap α := ⟨[], .nil⟩

def get? (m : NameMap α) (name : String) : Option α := m.entries.lookup name

def contains (m : NameMap α) (name : String) : Bool := (m.get? name).isSome

/-- One pass to the place of the name: an entry of the same name is replaced. -/
def insertEntry (name : String) (value : α) : List (String × α) → List (String × α)
  | [] => [(name, value)]
  | (n, v) :: rest =>
    if name = n then (name, value) :: rest
    else if name < n then (name, value) :: (n, v) :: rest
    else (n, v) :: insertEntry name value rest

theorem mem_insertEntry {name : String} {value : α} {e : String × α} {l : List (String × α)} :
    e ∈ insertEntry name value l → e = (name, value) ∨ e ∈ l := by
  induction l with
  | nil => simp [insertEntry]
  | cons head rest ih =>
    obtain ⟨n, v⟩ := head
    rw [insertEntry]
    split
    · simp only [List.mem_cons]
      exact Or.imp_right Or.inr
    · split
      · simp
      · simp only [List.mem_cons]
        rintro (h | h)
        · exact .inr (.inl h)
        · exact (ih h).imp_right .inr

theorem pairwise_insertEntry (name : String) (value : α) {l : List (String × α)}
    (h : l.Pairwise (fun a b ↦ a.1 < b.1)) :
    (insertEntry name value l).Pairwise (fun a b ↦ a.1 < b.1) := by
  induction l with
  | nil => simp [insertEntry]
  | cons head rest ih =>
    obtain ⟨n, v⟩ := head
    rw [List.pairwise_cons] at h
    rw [insertEntry]
    split
    · next heq => exact List.pairwise_cons.mpr ⟨fun e he ↦ heq ▸ h.1 e he, h.2⟩
    · next hne =>
      split
      · next hlt =>
        refine List.pairwise_cons.mpr ⟨fun e he ↦ ?_, List.pairwise_cons.mpr h⟩
        rcases List.mem_cons.mp he with rfl | he
        · exact hlt
        · exact String.lt_trans hlt (h.1 e he)
      · next hnlt =>
        refine List.pairwise_cons.mpr ⟨fun e he ↦ ?_, ih h.2⟩
        rcases mem_insertEntry he with rfl | he
        · exact lt_of_not_lt hne hnlt
        · exact h.1 e he

/-- The map with a value put under a name, in place of the one that was there. -/
def insert (m : NameMap α) (name : String) (value : α) : NameMap α :=
  ⟨insertEntry name value m.entries, pairwise_insertEntry name value m.sorted⟩

def erase (m : NameMap α) (name : String) : NameMap α :=
  ⟨m.entries.filter fun e ↦ e.1 ≠ name, m.sorted.filter _⟩

/-- Entries put in one after the other, so the last of several with one name stays. -/
def ofList (entries : List (String × α)) : NameMap α :=
  entries.foldl (fun m e ↦ m.insert e.1 e.2) empty

/-- The names that have an entry, in increasing order. -/
def names (m : NameMap α) : List String := m.entries.map Prod.fst

def size (m : NameMap α) : Nat := m.entries.length

def isEmpty (m : NameMap α) : Bool := m.entries.isEmpty

instance : Inhabited (NameMap α) := ⟨empty⟩

/-! ## Lookups after each operation -/

private theorem lookup_cons_ite (n k : String) (v : α) (l : List (String × α)) :
    ((k, v) :: l).lookup n = if n = k then some v else l.lookup n := by
  by_cases h : n = k
  · simp [h]
  · rw [List.lookup_cons, if_neg h, beq_eq_false_iff_ne.mpr h]

@[simp] theorem get?_empty (name : String) : (empty : NameMap α).get? name = none := rfl

private theorem lookup_insertEntry (name : String) (value : α) (n : String)
    (l : List (String × α)) :
    (insertEntry name value l).lookup n = if n = name then some value else l.lookup n := by
  induction l with
  | nil => rw [insertEntry, lookup_cons_ite]
  | cons head rest ih =>
    obtain ⟨k, v⟩ := head
    rw [insertEntry]
    split
    · next heq =>
      rw [lookup_cons_ite, lookup_cons_ite, ← heq]
      split <;> rfl
    · next hne =>
      split
      · rw [lookup_cons_ite]
      · rw [lookup_cons_ite, lookup_cons_ite, ih]
        by_cases h : n = k
        · rw [if_pos h, if_pos h, if_neg (h ▸ Ne.symm hne)]
        · rw [if_neg h, if_neg h]

theorem get?_insert (m : NameMap α) (name : String) (value : α) (n : String) :
    (m.insert name value).get? n = if n = name then some value else m.get? n :=
  lookup_insertEntry name value n m.entries

private theorem lookup_filter_ne (name n : String) (l : List (String × α)) :
    (l.filter fun e ↦ e.1 ≠ name).lookup n = if n = name then none else l.lookup n := by
  induction l with
  | nil => simp
  | cons head rest ih =>
    obtain ⟨k, v⟩ := head
    rw [lookup_cons_ite]
    by_cases hk : k = name
    · rw [List.filter_cons_of_neg (by simpa using hk), ih, ← hk]
      split <;> rfl
    · rw [List.filter_cons_of_pos (by simpa using hk), lookup_cons_ite, ih]
      by_cases h : n = k
      · rw [if_pos h, if_pos h, if_neg (h ▸ hk)]
      · rw [if_neg h, if_neg h]

theorem get?_erase (m : NameMap α) (name n : String) :
    (m.erase name).get? n = if n = name then none else m.get? n :=
  lookup_filter_ne name n m.entries

/-! ## The map as a set of entries -/

private theorem lookup_eq_some_iff {l : List (String × α)}
    (h : l.Pairwise (fun a b ↦ a.1 < b.1)) {name : String} {value : α} :
    l.lookup name = some value ↔ (name, value) ∈ l := by
  induction l with
  | nil => simp
  | cons head rest ih =>
    obtain ⟨k, v⟩ := head
    rw [List.pairwise_cons] at h
    rw [lookup_cons_ite]
    by_cases hk : name = k
    · subst hk
      have hnot : (name, value) ∉ rest := fun he ↦ String.lt_irrefl name (h.1 (name, value) he)
      simp [hnot, eq_comm]
    · simp [hk, ih h.2]

theorem get?_eq_some_iff {m : NameMap α} {name : String} {value : α} :
    m.get? name = some value ↔ (name, value) ∈ m.entries :=
  lookup_eq_some_iff m.sorted

private theorem entries_eq_of_mem_iff {l₁ l₂ : List (String × α)}
    (h₁ : l₁.Pairwise (fun a b ↦ a.1 < b.1)) (h₂ : l₂.Pairwise (fun a b ↦ a.1 < b.1))
    (h : ∀ e, e ∈ l₁ ↔ e ∈ l₂) : l₁ = l₂ := by
  induction l₁ generalizing l₂ with
  | nil =>
    cases l₂ with
    | nil => rfl
    | cons b _ => exact absurd ((h b).mpr (by simp)) (by simp)
  | cons a t₁ ih =>
    cases l₂ with
    | nil => exact absurd ((h a).mp (by simp)) (by simp)
    | cons b t₂ =>
      rw [List.pairwise_cons] at h₁ h₂
      have hab : a = b := by
        rcases List.mem_cons.mp ((h a).mp (by simp)) with hab | ha
        · exact hab
        · rcases List.mem_cons.mp ((h b).mpr (by simp)) with hba | hb
          · exact hba.symm
          · exact absurd (String.lt_trans (h₁.1 b hb) (h₂.1 a ha)) (String.lt_irrefl _)
      subst hab
      have hnot₁ : a ∉ t₁ := fun he ↦ String.lt_irrefl _ (h₁.1 _ he)
      have hnot₂ : a ∉ t₂ := fun he ↦ String.lt_irrefl _ (h₂.1 _ he)
      rw [ih h₁.2 h₂.2 fun e ↦ ?_]
      have := h e
      simp only [List.mem_cons] at this
      by_cases he : e = a
      · subst he; simp [hnot₁, hnot₂]
      · simpa [he] using this

theorem ext_get? {m₁ m₂ : NameMap α} (h : ∀ name, m₁.get? name = m₂.get? name) : m₁ = m₂ := by
  obtain ⟨l₁, h₁⟩ := m₁
  obtain ⟨l₂, h₂⟩ := m₂
  have : l₁ = l₂ := entries_eq_of_mem_iff h₁ h₂ fun ⟨name, value⟩ ↦ by
    rw [← lookup_eq_some_iff h₁, ← lookup_eq_some_iff h₂]
    exact iff_of_eq (congrArg (· = some value) (h name))
  subst this
  rfl

end NameMap

end DecimalFormula
