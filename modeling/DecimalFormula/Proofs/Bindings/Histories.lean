import DecimalFormula.Evaluation
import DecimalFormula.Proofs.NameMap.Contents
import Mathlib.Data.List.Induction

/-!
# Bindings and their histories

Bindings come about in different ways: from nothing, from pairs one after the other or from a table
that has each name once, and then by any number of changes. Whatever the history, all of it is one
row of changes that starts from nothing (`History.store_eq`), and what is left of it is the last
change of each name (`get?_applyAll_eq_some_iff`).

So two histories may differ in everything and still lead to the same bindings. They do if and only
if the bindings answer alike for every name, and then they are listed alike (`History.extensional`).
-/

namespace DecimalFormula.Bindings

/-! ## Changes -/

inductive Change
  /-- Binds a name, and answers what was bound to it. -/
  | set (name value : String)
  /-- Binds a name, and answers nothing. -/
  | bind (name value : String)
  /-- Unbinds a name, and answers what was bound to it. -/
  | remove (name : String)
deriving DecidableEq, Repr

namespace Change

def name : Change → String
  | set name _ | bind name _ | remove name => name

/-- The text that is bound to the name from then on. -/
def text? : Change → Option String
  | set _ value | bind _ value => some value
  | remove _ => none

def apply (b : Bindings) : Change → Bindings
  | set name value => (b.set name value).2
  | bind name value => b.insert name value
  | remove name => (b.remove name).2

/-- The change that an entry of a list or a table stands for. -/
def ofEntry (e : String × String) : Change := bind e.1 e.2

theorem get?_apply (b : Bindings) (c : Change) (n : String) :
    (c.apply b).get? n = if n = c.name then c.text? else b.get? n := by
  cases c with
  | set name value | bind name value => exact NameMap.get?_insert b name value n
  | remove name => exact NameMap.get?_erase b name n

end Change

def applyAll (b : Bindings) (changes : List Change) : Bindings := changes.foldl Change.apply b

/-- Among these changes one binds the value to the name, and none behind it is about the name. -/
def LastBound (changes : List Change) (name value : String) : Prop :=
  ∃ before c after, changes = before ++ c :: after ∧ (c.name = name ∧ c.text? = some value) ∧
    ∀ d ∈ after, d.name ≠ name

variable {cs : List Change} {name value : String}

theorem lastBound_append_singleton {c : Change} : LastBound (cs ++ [c]) name value ↔
    if name = c.name then c.text? = some value else LastBound cs name value := by
  rw [LastBound, exists_last_append_singleton_iff, ← LastBound]
  split
  · next hname => simp [hname]
  · next hname => simp [Ne.symm hname]

/-- **The last change of a name wins**, by induction from the last change on. -/
theorem get?_applyAll_eq_some_iff :
    (applyAll .empty cs).get? name = some value ↔ LastBound cs name value := by
  induction cs using List.reverseRecOn with
  | nil =>
    refine iff_of_false nofun ?_
    rintro ⟨before, c, after, hnil, -⟩
    exact absurd hnil (by simp)
  | append_singleton cs c ih =>
    rw [applyAll, List.foldl_append, List.foldl_cons, List.foldl_nil, ← applyAll,
      Change.get?_apply, lastBound_append_singleton]
    split
    · rfl
    · exact ih

/-! ## Histories -/

/-- What bindings are made from. -/
inductive Origin
  | nothing
  /-- Pairs of names and texts, one after the other. -/
  | pairs (entries : List (String × String))
  /-- A table that has each name once. The order of its entries has no meaning. -/
  | table (entries : List (String × String)) (distinct : (entries.map Prod.fst).Nodup)

namespace Origin

def store : Origin → Bindings
  | nothing => .empty
  | pairs entries | table entries _ => .ofList entries

def changes : Origin → List Change
  | nothing => []
  | pairs entries | table entries _ => entries.map Change.ofEntry

theorem store_eq (origin : Origin) : origin.store = applyAll .empty origin.changes := by
  cases origin with
  | nothing => rfl
  | pairs entries | table entries _ =>
    rw [store, changes, applyAll, List.foldl_map]
    rfl

end Origin

/-- What bindings are made from, and how they are changed since. -/
structure History where
  /-- What they are made from. -/
  origin : Origin
  /-- The changes since, the first one first. -/
  later : List Change

namespace History

def store (h : History) : Bindings := h.origin.store.applyAll h.later

def changes (h : History) : List Change := h.origin.changes ++ h.later

theorem store_eq (h : History) : h.store = applyAll .empty h.changes := by
  rw [store, Origin.store_eq, applyAll, applyAll, ← List.foldl_append, ← changes, ← applyAll]

end History

/-- A table is taken over as it is. -/
theorem Origin.get?_table {entries : List (String × String)}
    (distinct : (entries.map Prod.fst).Nodup) :
    (table entries distinct).store.get? name = some value ↔ (name, value) ∈ entries := by
  rw [store_eq, get?_applyAll_eq_some_iff]
  constructor
  · rintro ⟨before, c, after, hchanges, ⟨rfl, hvalue⟩, -⟩
    have hc : c ∈ (table entries distinct).changes := by rw [hchanges]; simp
    obtain ⟨e, he, rfl⟩ := List.mem_map.mp hc
    rw [← Option.some.inj hvalue]
    exact he
  · intro hmem
    obtain ⟨before, after, rfl⟩ := List.append_of_mem hmem
    refine ⟨before.map Change.ofEntry, .bind name value, after.map Change.ofEntry, ?_,
      ⟨rfl, rfl⟩, fun d hd ↦ ?_⟩
    · rw [changes, List.map_append, List.map_cons, Change.ofEntry]
    · -- No other entry has the name.
      obtain ⟨e, he, rfl⟩ := List.mem_map.mp hd
      rw [List.map_append, List.map_cons, List.nodup_append, List.nodup_cons] at distinct
      intro hname
      exact distinct.2.1.1 (List.mem_map.mpr ⟨e, he, hname⟩)

/-- **Bindings are a map, whatever their history.**

* Two histories lead to equal bindings if and only if these answer alike for every name, and if and
  only if they are listed alike.
* The listing is strictly increasing by the bytes of the names. It holds exactly the pairs that
  lookups report, and is as long as the number of bindings.
* Binding and unbinding answer what was reported before, and change what is reported for that name
  and for no other.
* A name is bound to the text of the last change that is about it, in all ways to make bindings. A
  table is taken over as it is. -/
theorem History.extensional (h h' : History) :
    (h.store = h'.store ↔ ∀ name, h.store.get? name = h'.store.get? name) ∧
    (h.store = h'.store ↔ h.store.toList = h'.store.toList) ∧
    (h.store.toList.Pairwise fun a b ↦ Text.bytes a.1 < Text.bytes b.1) ∧
    (∀ name value, (name, value) ∈ h.store.toList ↔ h.store.get? name = some value) ∧
    h.store.size = h.store.toList.length ∧
    (∀ name value, (h.store.set name value).1 = h.store.get? name ∧
      (h.store.set name value).2.get? name = some value ∧
      ∀ other, other ≠ name → (h.store.set name value).2.get? other = h.store.get? other) ∧
    (∀ name, (h.store.remove name).1 = h.store.get? name ∧
      (h.store.remove name).2.get? name = none ∧
      ∀ other, other ≠ name → (h.store.remove name).2.get? other = h.store.get? other) ∧
    (∀ name value, h.store.get? name = some value ↔ LastBound h.changes name value) ∧
    ∀ entries distinct name value,
      (Origin.table entries distinct).store.get? name = some value ↔ (name, value) ∈ entries := by
  refine ⟨NameMap.eq_iff_get?, NameMap.eq_iff_entries, h.store.pairwise_entries,
    fun name value ↦ NameMap.get?_eq_some_iff.symm, rfl, fun name value ↦ ⟨rfl, ?_, ?_⟩,
    fun name ↦ ⟨rfl, ?_, ?_⟩, fun name value ↦ ?_, fun _ distinct _ _ ↦ Origin.get?_table distinct⟩
  · exact (Change.get?_apply h.store (.set name value) name).trans (if_pos rfl)
  · exact fun other hother ↦
      (Change.get?_apply h.store (.set name value) other).trans (if_neg hother)
  · exact (Change.get?_apply h.store (.remove name) name).trans (if_pos rfl)
  · exact fun other hother ↦
      (Change.get?_apply h.store (.remove name) other).trans (if_neg hother)
  · rw [store_eq]
    exact get?_applyAll_eq_some_iff

/-- Pairs with a name twice, and a table of which one name is bound again and another is unbound. -/
theorem History.extensional_overwritten :
    let h : History := ⟨.pairs [("b", "1"), ("a", "2"), ("b", "3")], []⟩
    let h' : History := ⟨.table [("c", "4"), ("b", "0")] (by decide),
      [.remove "c", .set "b" "3", .bind "a" "2"]⟩
    h.store = h'.store ∧ h.store.toList = [("a", "2"), ("b", "3")] ∧
      ∀ name, h.store.get? name = h'.store.get? name := by
  intro h h'
  obtain ⟨hlookups, hlistings, -⟩ := History.extensional h h'
  have hsame : h.store = h'.store := hlistings.mpr (by decide +kernel)
  exact ⟨hsame, by decide +kernel, hlookups.mp hsame⟩

end DecimalFormula.Bindings
