import DecimalFormula.Proofs.NameMap.Contents
import DecimalFormula.Proofs.Registry.Registration

/-!
# A registry as a map

Whatever is registered, and whether the first registry is the empty one or the standard one, what is
left of the registrations is the last one for each name, where letter case does not count. All that
a registry answers for a name is told by the one function it finds (`Registry.Answers`), so the four
ways to ask agree, and the listing names exactly what can be found
(`Registry.last_registration_wins`).

Names are put in upper case when they are registered and when they are looked up. The listing shows
them in upper case, so two names that differ in letter case only are listed once. No other
characters are identified: accented letters in either case are different names.
-/

namespace DecimalFormula.Registry

variable {r : Registry} {registered : List (String × Function)} {name other : String} {f : Function}
  {found : Option Function}

/-! ## What a name answers -/

/-- What a call comes to where this function is found under the name, or none. -/
def callOf (name : String) (args : List Decimal) : Option Function → Except CallError Decimal
  | none => .error (.unknownFunction name)
  | some f =>
    if f.arity.accepts args.length then f.body args
    else .error (.wrongArgumentCount (Text.upper name) f.arity args.length)

/-- For a name a registry answers what is to be answered where this function is found, or none. -/
structure Answers (r : Registry) (name : String) (found : Option Function) : Prop where
  get : r.get? name = found
  contains : r.contains name = found.isSome
  arity : r.arity? name = found.map Function.arity
  call : ∀ args, r.call name args = callOf name args found

theorem answers_iff : Answers r name found ↔ r.get? name = found := by
  refine ⟨Answers.get, fun h ↦ ⟨h, ?_, ?_, fun args ↦ ?_⟩⟩
  · rw [contains, h]
  · rw [arity?, h]
  · rw [Registry.call, h]
    rfl

theorem Answers.register (h : Answers r other found) (hname : Text.upper other ≠ Text.upper name) :
    Answers (r.register name f) other found := by
  rw [answers_iff, get?_register, if_neg hname]
  exact h.get

/-! ## Names that are listed -/

theorem mem_names_iff : name ∈ r.names ↔ Text.upper name = name ∧ r.contains name = true := by
  rw [names, NameMap.mem_names_iff]
  constructor
  · rintro ⟨f, hf⟩
    have hupper : Text.upper name = name := r.upper _ (NameMap.get?_eq_some_iff.mp hf)
    refine ⟨hupper, ?_⟩
    rw [contains, get?, hupper, hf, Option.isSome_some]
  · rintro ⟨hupper, hcontains⟩
    rw [contains, get?, hupper] at hcontains
    exact Option.isSome_iff_exists.mp hcontains

theorem contains_registerAll_empty_iff :
    (empty.registerAll registered).contains name = true ↔
      ∃ e ∈ registered, Text.upper e.1 = Text.upper name := by
  have hnone := get?_registerAll_eq_none_iff empty registered name
  rw [get?_empty, and_iff_left rfl] at hnone
  rw [contains, Option.isSome_iff_ne_none, Ne, hnone, Unregistered]
  simp only [not_forall, not_not, exists_prop]

theorem mem_names_registerAll_empty_iff :
    name ∈ (empty.registerAll registered).names ↔ ∃ e ∈ registered, Text.upper e.1 = name := by
  rw [mem_names_iff, contains_registerAll_empty_iff]
  constructor
  · rintro ⟨hupper, e, he, hname⟩
    exact ⟨e, he, hname.trans hupper⟩
  · rintro ⟨e, he, rfl⟩
    exact ⟨Text.upper_upper e.1, e, he, (Text.upper_upper e.1).symm⟩

/-! ## Registries to start from -/

/-- A registry to start from. -/
inductive Base
  | empty
  | standard
deriving DecidableEq, Repr

namespace Base

/-- The registry itself. -/
def registry : Base → Registry
  | empty => .empty
  | standard => .standard

/-- The functions it was made from, in the order in which they were registered. -/
def functions : Base → List (String × Function)
  | empty => []
  | standard => [Body.maximum, .minimum, .choice, .sum, .average, .absolute].map fun b ↦
      (b.name, b.registeredFor b.arity)

theorem registerAll_eq (base : Base) (functions : List (String × Function)) :
    base.registry.registerAll functions =
      Registry.empty.registerAll (base.functions ++ functions) := by
  have hbase : base.registry = Registry.empty.registerAll base.functions := by cases base <;> rfl
  rw [hbase, registerAll, registerAll, registerAll, List.foldl_append]

end Base

/-- **The last registration of a name wins.** Let functions be registered one after the other, from
the empty or the standard registry on, whose functions come first.

* A name answers by the function that is registered last under a name of the same upper case, and by
  none if there is none; one of the two is the case.
* A registration does not change what names of another upper case answer.
* The listing is strictly increasing by the bytes of the names. It names what is registered, in
  upper case, and nothing else, each once. Its length is the number of functions, and it is empty if
  and only if the registry says so. -/
theorem last_registration_wins (base : Base) (functions : List (String × Function)) :
    let r := base.registry.registerAll functions
    let all := base.functions ++ functions
    (∀ name f, LastRegistered all name f → Answers r name (some f)) ∧
    (∀ name, Unregistered all name → Answers r name none) ∧
    (∀ name, Unregistered all name ∨ ∃ f, LastRegistered all name f) ∧
    (∀ name f other found, Text.upper other ≠ Text.upper name → Answers r other found →
      Answers (r.register name f) other found) ∧
    (r.names.Pairwise fun a b ↦ Text.bytes a < Text.bytes b) ∧ r.names.Nodup ∧
    (∀ name, name ∈ r.names ↔ ∃ e ∈ all, Text.upper e.1 = name) ∧
    r.names.length = r.size ∧ (r.isEmpty = true ↔ r.names = []) := by
  intro r all
  have hr : r = empty.registerAll all := base.registerAll_eq functions
  have hsorted : r.names.Pairwise fun a b ↦ Text.bytes a < Text.bytes b :=
    r.functions.pairwise_names
  refine ⟨fun name f h ↦ ?_, fun name h ↦ ?_, unregistered_or_exists_lastRegistered all,
    fun name f other found hother h ↦ h.register hother, hsorted, ?_, fun name ↦ ?_,
    r.functions.length_names, NameMap.isEmpty_iff_names⟩
  · rw [answers_iff, hr]
    exact h.get?_eq empty
  · rw [answers_iff, hr]
    exact (get?_registerAll_eq_none_iff empty all name).mpr ⟨h, rfl⟩
  · refine hsorted.imp fun hlt heq ↦ ?_
    rw [heq] at hlt
    exact List.lt_irrefl _ hlt
  · rw [hr]
    exact mem_names_registerAll_empty_iff

/-- A standard function is replaced under its name in another letter case, by one that is not
standard. Only ASCII letters have two cases. -/
theorem last_registration_wins_letter_case :
    let sum : Function := Body.sum.registeredFor .any
    let several : Function := ⟨.atLeastOne, fun args ↦ .ok (.ofBool (1 < args.length))⟩
    let registered : List (String × Function) := [("max", sum), ("mAx", several), ("é", sum)]
    let r := Base.standard.registry.registerAll registered
    Answers r "Max" (some several) ∧ Answers r "É" none ∧ "MAX" ∈ r.names ∧ "é" ∈ r.names := by
  intro sum several registered r
  obtain ⟨hlast, hnone, -, -, -, -, hnames, -⟩ := last_registration_wins .standard registered
  have hmax : LastRegistered (Base.standard.functions ++ registered) "Max" several := by
    refine ⟨Base.standard.functions ++ [("max", sum)], "mAx", [("é", sum)], rfl,
      by decide +kernel, ?_⟩
    exact List.forall_mem_singleton.mpr (by decide +kernel)
  have hother : Unregistered (Base.standard.functions ++ registered) "É" := by
    unfold Unregistered
    decide +kernel
  exact ⟨hlast "Max" _ hmax, hnone "É" hother, (hnames "MAX").mpr (by decide +kernel),
    (hnames "é").mpr (by decide +kernel)⟩

end DecimalFormula.Registry
