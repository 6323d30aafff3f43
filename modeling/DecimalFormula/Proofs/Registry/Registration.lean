import DecimalFormula.Proofs.NameMap.Contents
import DecimalFormula.Registry
import Mathlib.Data.List.Induction

/-!
# The last registration of a name

A registry is built by registering functions one after the other. What it answers for a name is the
function that was registered last under it, where letter case does not count
(`Registry.get?_registerAll_eq_some_iff`).
-/

namespace DecimalFormula.Registry

/-! ## Names in a row -/

section Rows

variable {α β : Type} {l : List (String × α)} {name : String} {a : α}

/-- In this row of registrations, none is under the name. -/
def Unregistered (l : List (String × α)) (name : String) : Prop :=
  ∀ e ∈ l, Text.upper e.1 ≠ Text.upper name

/-- In this row of registrations, this is what is registered last under the name. -/
def LastRegistered (l : List (String × α)) (name : String) (a : α) : Prop :=
  ∃ before n after, l = before ++ (n, a) :: after ∧ Text.upper n = Text.upper name ∧
    Unregistered after name

theorem unregistered_append_singleton {e : String × α} :
    Unregistered (l ++ [e]) name ↔ Unregistered l name ∧ Text.upper e.1 ≠ Text.upper name := by
  rw [Unregistered, List.forall_mem_append, List.forall_mem_singleton, Unregistered]

theorem lastRegistered_append_singleton {e : String × α} :
    LastRegistered (l ++ [e]) name a ↔
      if Text.upper e.1 = Text.upper name then e.2 = a else LastRegistered l name a := by
  have hlast (l : List (String × α)) : LastRegistered l name a ↔
      ∃ before x after, l = before ++ x :: after ∧ (Text.upper x.1 = Text.upper name ∧ x.2 = a) ∧
        ∀ y ∈ after, Text.upper y.1 ≠ Text.upper name := by
    constructor
    · rintro ⟨before, n, after, hl, hn, hafter⟩
      exact ⟨before, (n, a), after, hl, ⟨hn, rfl⟩, hafter⟩
    · rintro ⟨before, x, after, hl, ⟨hx, rfl⟩, hafter⟩
      exact ⟨before, x.1, after, hl, hx, hafter⟩
  rw [hlast, hlast, exists_last_append_singleton_iff]
  split
  · next hname => simp [hname]
  · next hname => simp [hname]

theorem LastRegistered.mem (h : LastRegistered l name a) : ∃ n, (n, a) ∈ l := by
  obtain ⟨before, n, after, rfl, -⟩ := h
  exact ⟨n, List.mem_append_right _ List.mem_cons_self⟩

theorem unregistered_map_iff (f : α → β) :
    Unregistered (l.map fun e ↦ (e.1, f e.2)) name ↔ Unregistered l name :=
  List.forall_mem_map

theorem LastRegistered.map (h : LastRegistered l name a) (f : α → β) :
    LastRegistered (l.map fun e ↦ (e.1, f e.2)) name (f a) := by
  obtain ⟨before, n, after, rfl, hn, hafter⟩ := h
  exact ⟨_, n, _, List.map_append, hn, (unregistered_map_iff f).mpr hafter⟩

theorem unregistered_or_exists_lastRegistered (l : List (String × α)) (name : String) :
    Unregistered l name ∨ ∃ a, LastRegistered l name a := by
  induction l using List.reverseRecOn with
  | nil => exact .inl (List.forall_mem_nil _)
  | append_singleton l e ih =>
    simp only [unregistered_append_singleton, lastRegistered_append_singleton]
    by_cases hname : Text.upper e.1 = Text.upper name
    · simp only [if_pos hname]
      exact .inr ⟨e.2, rfl⟩
    · simp only [if_neg hname]
      exact ih.imp_left fun h ↦ ⟨h, hname⟩

end Rows

/-! ## Functions -/

variable {r : Registry} {functions : List (String × Function)} {name : String} {f : Function}

theorem registerAll_append_singleton (r : Registry) (functions : List (String × Function))
    (e : String × Function) :
    r.registerAll (functions ++ [e]) = (r.registerAll functions).register e.1 e.2 := by
  rw [registerAll, List.foldl_append, List.foldl_cons, List.foldl_nil, registerAll]

theorem get?_registerAll_eq_some_iff (r : Registry) (functions : List (String × Function))
    (name : String) (f : Function) : (r.registerAll functions).get? name = some f ↔
      LastRegistered functions name f ∨ Unregistered functions name ∧ r.get? name = some f := by
  induction functions using List.reverseRecOn with
  | nil =>
    refine ⟨fun h ↦ .inr ⟨List.forall_mem_nil _, h⟩, ?_⟩
    rintro (⟨before, n, after, hnil, -⟩ | ⟨-, h⟩)
    · exact absurd hnil (by simp)
    · exact h
  | append_singleton functions e ih =>
    rw [registerAll_append_singleton, get?_register, lastRegistered_append_singleton,
      unregistered_append_singleton]
    by_cases hname : Text.upper name = Text.upper e.1
    · rw [if_pos hname, if_pos hname.symm, Option.some.injEq]
      exact ⟨.inl, fun h ↦ h.elim id fun h ↦ absurd hname.symm h.1.2⟩
    · rw [if_neg hname, if_neg (Ne.symm hname), ih, and_iff_left (Ne.symm hname)]

theorem LastRegistered.get?_eq (h : LastRegistered functions name f) (r : Registry) :
    (r.registerAll functions).get? name = some f :=
  (get?_registerAll_eq_some_iff r functions name f).mpr (.inl h)

theorem get?_registerAll_eq_none_iff (r : Registry) (functions : List (String × Function))
    (name : String) : (r.registerAll functions).get? name = none ↔
      Unregistered functions name ∧ r.get? name = none := by
  induction functions using List.reverseRecOn with
  | nil => exact ⟨fun h ↦ ⟨List.forall_mem_nil _, h⟩, fun h ↦ h.2⟩
  | append_singleton functions e ih =>
    rw [registerAll_append_singleton, get?_register, unregistered_append_singleton]
    by_cases hname : Text.upper name = Text.upper e.1
    · rw [if_pos hname]
      exact iff_of_false (Option.some_ne_none _) fun h ↦ h.1.2 hname.symm
    · rw [if_neg hname, ih, and_iff_left (Ne.symm hname)]

theorem exists_mem_of_get?_registerAll (h : (r.registerAll functions).get? name = some f) :
    (∃ n, (n, f) ∈ functions) ∨ r.get? name = some f :=
  ((get?_registerAll_eq_some_iff r functions name f).mp h).imp LastRegistered.mem And.right

/-- The standard functions are the standard bodies, each for the number of arguments it needs. -/
theorem exists_body_of_standard (h : standard.get? name = some f) :
    ∃ b : Body, f = b.registeredFor b.arity := by
  rcases exists_mem_of_get?_registerAll h with ⟨n, hmem⟩ | hempty
  · obtain ⟨b, -, heq⟩ := List.mem_map.mp hmem
    exact ⟨b, (Prod.mk.inj heq).2.symm⟩
  · cases hempty

/-- All functions of a registry have standard bodies, for whatever numbers of arguments. -/
def HasStandardBodies (r : Registry) : Prop :=
  ∀ name f, r.get? name = some f → ∃ b : Body, f.body = b.apply

theorem standard_hasStandardBodies : standard.HasStandardBodies := by
  intro name f h
  obtain ⟨b, rfl⟩ := exists_body_of_standard h
  exact ⟨b, rfl⟩

end DecimalFormula.Registry
