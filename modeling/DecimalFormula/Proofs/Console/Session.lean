import DecimalFormula.Proofs.Console.Messages
import DecimalFormula.Proofs.Engine.Failure
import DecimalFormula.Proofs.NameMap.Contents
import DecimalFormula.Proofs.Text.Words

/-!
# Bindings in a session

A session reads lines until one leaves it or the input ends. Lines of two sorts edit the bindings,
told by their words alone (`Edits`): `.set` with a name and a number, and `.unset` with a name. What
a line finds is what the edits of the lines before it have left (`Leads`), so under a name stands
the number of the last `.set` that no later edit of the name followed (`Leads.get?_eq_some_iff`).

Since only numbers are ever stored, no formula of a session can come upon a text that is none. That
was the only way for a formula to fail with an error that is not its own fault, so none does
(`Loop.bindings_follow_edits`).
-/

namespace DecimalFormula.Console

/-! ## Edits -/

inductive Edit
  | bind (name value : String)
  | unbind (name : String)

def Edit.name : Edit → String
  | bind name _ | unbind name => name

variable {line name value : String} {b : Bindings} {e : Engine}

def Edit.apply (b : Bindings) : Edit → Bindings
  | bind name value => b.insert name value
  | unbind name => b.erase name

/-- The change that a line makes. Braces around the name do not belong to it, and words behind those
that are needed do not count. -/
inductive Edits (line : String) : Edit → Prop
  /-- A value is bound only if it is a number. -/
  | set {name value rest d} : Text.words line.toList = ".set".toList :: name :: value :: rest →
    Decimal.readValue? (.ofList value) = some d →
    Edits line (.bind (Loop.nameOf name) (.ofList value))
  | unset {name rest} : Text.words line.toList = ".unset".toList :: name :: rest →
    Edits line (.unbind (Loop.nameOf name))

/-- The bindings that some lines lead to, from none. -/
inductive Leads : List String → Bindings → Prop
  | nothing : Leads [] .empty
  | edit {lines b line edit} : Leads lines b → Edits line edit →
    Leads (lines ++ [line]) (edit.apply b)
  | other {lines b line} : Leads lines b → (∀ edit, ¬ Edits line edit) → Leads (lines ++ [line]) b

/-- Of these lines, one binds the value to the name, and no later one binds or unbinds the name. -/
def BoundLast (lines : List String) (name value : String) : Prop :=
  ∃ before line after, lines = before ++ line :: after ∧ Edits line (.bind name value) ∧
    ∀ l ∈ after, ∀ edit, Edits l edit → edit.name ≠ name

theorem Edit.get?_apply (edit : Edit) (b : Bindings) (name : String) :
    (edit.apply b).get? name = if name = edit.name then
      (match edit with
        | bind _ value => some value
        | unbind _ => none)
      else b.get? name := by
  cases edit with
  | bind n value => exact NameMap.get?_insert b n value name
  | unbind n => exact NameMap.get?_erase b n name

theorem Edits.readValue?_isSome (h : Edits line (.bind name value)) :
    (Decimal.readValue? value).isSome = true := by
  cases h with
  | set _ hread => rw [hread, Option.isSome_some]

/-! ## One line -/

namespace Loop.Request

def edit? : Request → Option Edit
  | set name value => some (.bind name value)
  | unset name => some (.unbind name)
  | _ => none

theorem bindings_eq (request : Request) (b : Bindings) :
    request.bindings b = (request.edit?.map (·.apply b)).getD b := by
  cases request <;> rfl

theorem ofLine_of_set {name value : List Char} {rest : List (List Char)}
    (h : Text.words line.toList = ".set".toList :: name :: value :: rest) :
    ofLine line = if (Decimal.readValue? (.ofList value)).isSome then
      .set (nameOf name) (.ofList value) else .badValue (.ofList value) := by
  simp only [ofLine, Text.words_trim, h, String.ofList_toList]
  rfl

theorem ofLine_of_unset {name : List Char} {rest : List (List Char)}
    (h : Text.words line.toList = ".unset".toList :: name :: rest) :
    ofLine line = .unset (nameOf name) := by
  simp only [ofLine, Text.words_trim, h, String.ofList_toList]
  rfl

/-- Only the words of the two commands lead to a change. -/
theorem edits_of_edit? {edit : Edit} (h : (ofLine line).edit? = some edit) : Edits line edit := by
  cases hwords : Text.words line.toList with
  | nil =>
    simp only [ofLine, Text.words_trim, hwords] at h
    cases h
  | cons first rest =>
    -- One split for each word that a line can start with; only two of them leave anything to show.
    have hfirst {text : String} (htext : .ofList first = text) :
        Text.words line.toList = text.toList :: rest := by
      rw [hwords, ← htext, String.toList_ofList]
    simp only [ofLine, Text.words_trim, hwords] at h
    split at h
    · cases h
    split at h
    · cases h
    split at h
    · cases h
    split at h
    · cases h
    split at h
    · next hset =>
      split at h
      · next name value rest =>
        split at h
        · next hread =>
          obtain ⟨d, hd⟩ := Option.isSome_iff_exists.mp hread
          cases h
          exact .set (hfirst hset) hd
        · cases h
      · cases h
    split at h
    · next hunset =>
      split at h
      · next name rest =>
        cases h
        exact .unset (hfirst hunset)
      · cases h
    · split at h <;> cases h

theorem edits_iff {edit : Edit} : Edits line edit ↔ (ofLine line).edit? = some edit := by
  refine ⟨?_, edits_of_edit?⟩
  rintro (⟨hwords, hread⟩ | hwords)
  · rw [ofLine_of_set hwords, hread, if_pos Option.isSome_some]
    rfl
  · rw [ofLine_of_unset hwords]
    rfl

end Loop.Request

theorem Edits.unique {edit edit' : Edit} (h : Edits line edit) (h' : Edits line edit') :
    edit = edit' := by
  rw [Loop.Request.edits_iff] at h h'
  exact Option.some.inj (h.symm.trans h')

/-! ## The last edit wins -/

theorem boundLast_append_singleton {lines : List String} :
    BoundLast (lines ++ [line]) name value ↔ Edits line (.bind name value) ∨
      BoundLast lines name value ∧ ∀ edit, Edits line edit → edit.name ≠ name :=
  exists_last_append_singleton_iff

/-- A name is bound to the value that was bound to it last, if it has not
been unbound since. -/
theorem Leads.get?_eq_some_iff {lines : List String} (h : Leads lines b) (name value : String) :
    b.get? name = some value ↔ BoundLast lines name value := by
  -- By induction on the lines, the last one first: it decides about its own name and no other.
  induction h with
  | nothing =>
    refine ⟨fun hvalue ↦ absurd hvalue (by simp), ?_⟩
    rintro ⟨before, line, after, hlines, -⟩
    exact absurd hlines (by simp)
  | @edit lines b line edit _ hedit ih =>
    rw [boundLast_append_singleton, ← ih, Edit.get?_apply]
    by_cases hname : name = edit.name
    · rw [if_pos hname]
      constructor
      · intro hvalue
        cases edit with
        | bind n v =>
          obtain rfl := Option.some.inj hvalue
          obtain rfl : name = n := hname
          exact .inl hedit
        | unbind n => cases hvalue
      · rintro (hbinds | ⟨-, hother⟩)
        · rw [hedit.unique hbinds]
        · exact absurd hname.symm (hother edit hedit)
    · rw [if_neg hname]
      constructor
      · intro hvalue
        refine .inr ⟨hvalue, fun edit' hedit' ↦ ?_⟩
        rw [hedit'.unique hedit]
        exact Ne.symm hname
      · rintro (hbinds | ⟨hvalue, -⟩)
        · rw [hedit.unique hbinds] at hname
          exact absurd rfl hname
        · exact hvalue
  | other _ hnone ih =>
    rw [boundLast_append_singleton, ← ih]
    refine ⟨fun hvalue ↦ .inr ⟨hvalue, fun edit hedit ↦ absurd hedit (hnone edit)⟩, ?_⟩
    rintro (hbinds | ⟨hvalue, -⟩)
    · exact absurd hbinds (hnone _)
    · exact hvalue

theorem Leads.readValue?_isSome {lines : List String} (h : Leads lines b)
    (hvalue : b.get? name = some value) : (Decimal.readValue? value).isSome = true := by
  obtain ⟨_, _, _, -, hbinds, -⟩ := (h.get?_eq_some_iff name value).mp hvalue
  exact hbinds.readValue?_isSome

/-! ## What a line reports -/

namespace Loop

theorem Request.exists_formula_of_report {request : Request} {error : Error}
    (h : .report error ∈ request.events e b) :
    ∃ text, request = .formula text ∧ e.evalFormula b text = .error error := by
  have hanswer := mem_answersOf.mpr ⟨h, rfl⟩
  cases request with
  | nothing | exit | set => cases h
  | help | listFunctions | badValue | setUsage | unsetUsage | unknownCommand =>
    cases List.mem_singleton.mp h
  | listBindings =>
    obtain ⟨_, -, hline⟩ := List.mem_map.mp h
    cases hline
  | unset =>
    rw [events] at h
    split at h
    · cases h
    · cases List.mem_singleton.mp h
  | formula text =>
    rw [events, answersOf_append, answersOf_evalFormulaEvents, List.nil_append] at hanswer
    cases houtcome : e.evalFormula b text with
    | ok value =>
      rw [houtcome] at hanswer
      cases List.mem_singleton.mp hanswer
    | error error' =>
      rw [houtcome] at hanswer
      cases List.mem_singleton.mp hanswer
      exact ⟨text, rfl, houtcome⟩

/-- Where only numbers are stored, no line is reported as an error that is not its own fault. -/
theorem ne_system_of_report {error : Error} {lines : List String}
    (hbodies : e.registry.HasStandardBodies) (hleads : Leads lines b)
    (h : .report error ∈ (Loop.values.step e b line).1) : error.kind ≠ .system := by
  intro hkind
  obtain ⟨text, -, heval⟩ := Request.exists_formula_of_report h
  obtain ⟨name, value, hvalue, hread⟩ := Engine.exists_bound_of_system hbodies heval hkind
  have hsome := hleads.readValue?_isSome hvalue
  rw [hread] at hsome
  cases hsome

/-! ## Whole sessions -/

/-- A line that a loop comes to, and the bindings that it finds. -/
structure Visit where
  bindings : Bindings
  line : String
deriving DecidableEq

def Visit.written (loop : Loop) (e : Engine) (v : Visit) : List Event :=
  (loop.step e v.bindings v.line).1

def Visit.leaves (loop : Loop) (e : Engine) (v : Visit) : Bool :=
  (loop.step e v.bindings v.line).2.isNone

/-- The lines that a loop comes to. -/
def visits (loop : Loop) (e : Engine) (b : Bindings) : List String → List Visit
  | [] => []
  | line :: lines =>
    ⟨b, line⟩ ::
      match (loop.step e b line).2 with
      | some next => visits loop e next lines
      | none => []

theorem events_eq (loop : Loop) (e : Engine) (b : Bindings) (lines : List String) :
    loop.events e b lines =
      (loop.visits e b lines).flatMap (fun v ↦ .print loop.prompt :: v.written loop e) ++
        if (loop.visits e b lines).any (·.leaves loop e) then [] else [.print loop.prompt] := by
  induction lines generalizing b with
  | nil => rfl
  | cons line lines ih =>
    rw [events, visits, List.flatMap_cons, List.any_cons, Visit.written, Visit.leaves]
    cases hnext : (loop.step e b line).2 with
    | none => simp [hnext]
    | some next => simp [hnext, ih]

theorem exists_lines_eq (loop : Loop) (e : Engine) (b : Bindings) (lines : List String) :
    ∃ rest, lines = (loop.visits e b lines).map Visit.line ++ rest ∧
      (rest ≠ [] → (loop.visits e b lines).any (·.leaves loop e) = true) := by
  induction lines generalizing b with
  | nil => exact ⟨[], rfl, fun h ↦ absurd rfl h⟩
  | cons line lines ih =>
    rw [visits, List.map_cons, List.any_cons, Visit.leaves]
    cases hnext : (loop.step e b line).2 with
    | none => exact ⟨lines, rfl, fun _ ↦ rfl⟩
    | some next =>
      obtain ⟨rest, hrest, hleft⟩ := ih next
      exact ⟨rest, by simpa [hnext] using hrest, by simpa [hnext] using hleft⟩

theorem leads_step {lines : List String} {next : Bindings} (h : Leads lines b)
    (hnext : (Loop.values.step e b line).2 = some next) : Leads (lines ++ [line]) next := by
  have hbindings : next = (Request.ofLine line).bindings b := by
    rw [show (Loop.values.step e b line).2 = if Request.ofLine line = .exit then none
      else some ((Request.ofLine line).bindings b) from rfl] at hnext
    split at hnext
    · cases hnext
    · exact (Option.some.inj hnext).symm
  rw [hbindings, Request.bindings_eq]
  cases hedit : (Request.ofLine line).edit? with
  | some edit => exact .edit h (Request.edits_iff.mpr hedit)
  | none =>
    refine .other h fun edit hline ↦ ?_
    rw [Request.edits_iff, hedit] at hline
    cases hline

/-- What a line finds is what the lines before it have led to. -/
theorem leads_of_visits {lines earlier : List String} (h : Leads earlier b)
    {before after : List Visit} {v : Visit}
    (hvisits : Loop.values.visits e b lines = before ++ v :: after) :
    Leads (earlier ++ before.map Visit.line) v.bindings := by
  induction lines generalizing b earlier before with
  | nil => exact absurd hvisits (by simp [visits])
  | cons line lines ih =>
    rw [visits] at hvisits
    cases before with
    | nil =>
      obtain ⟨rfl, -⟩ := List.cons.inj hvisits
      rwa [List.map_nil, List.append_nil]
    | cons u before =>
      obtain ⟨rfl, htail⟩ := List.cons.inj hvisits
      cases hnext : (Loop.values.step e b line).2 with
      | none =>
        rw [hnext] at htail
        exact absurd htail (by simp)
      | some next =>
        rw [hnext] at htail
        have hv := ih (leads_step h hnext) htail
        rwa [List.append_assoc] at hv

/-- **Bindings follow edits.** A session writes what its lines write, each on the bindings that it
finds, and comes to all lines unless it is left. Every line finds the bindings that the edits of the
lines before it lead to: a name is bound to a value if one of these lines binds the value to it and
no later one binds or unbinds the name. All values that are stored are numbers, and whatever a
session with functions of standard bodies reports, it is no system error. -/
theorem bindings_follow_edits (e : Engine) (input : String) :
    let visits := Loop.values.visits e .empty (linesOf input)
    ((Loop.values.run e input).events =
        visits.flatMap (fun v ↦ .print Loop.values.prompt :: v.written .values e) ++
          if visits.any (·.leaves .values e) then [] else [.print Loop.values.prompt]) ∧
    (∃ rest, linesOf input = visits.map Visit.line ++ rest ∧
      (rest ≠ [] → visits.any (·.leaves .values e) = true)) ∧
    (∀ before v after, visits = before ++ v :: after →
      Leads (before.map Visit.line) v.bindings ∧
      (∀ name value, v.bindings.get? name = some value ↔
        BoundLast (before.map Visit.line) name value) ∧
      ∀ name value, v.bindings.get? name = some value →
        (Decimal.readValue? value).isSome = true) ∧
    (e.registry.HasStandardBodies →
      ∀ error, .report error ∈ (Loop.values.run e input).events → error.kind ≠ .system) := by
  intro visits
  have hleads : ∀ before v after, visits = before ++ v :: after →
      Leads (before.map Visit.line) v.bindings := fun before v after hvisits ↦
    leads_of_visits .nothing hvisits
  have hevents := events_eq .values e .empty (linesOf input)
  refine ⟨hevents, exists_lines_eq .values e .empty (linesOf input), ?_, ?_⟩
  · intro before v after hvisits
    have hv := hleads before v after hvisits
    exact ⟨hv, hv.get?_eq_some_iff, fun name value hvalue ↦ hv.readValue?_isSome hvalue⟩
  · intro hbodies error hreport
    -- A report is written for some line, and that line finds bindings which edits lead to.
    rw [run, hevents] at hreport
    rcases List.mem_append.mp hreport with hreport | hreport
    · obtain ⟨v, hv, hreport⟩ := List.mem_flatMap.mp hreport
      obtain ⟨before, after, hvisits⟩ := List.append_of_mem hv
      rcases List.mem_cons.mp hreport with hprompt | hreport
      · cases hprompt
      · exact ne_system_of_report hbodies (hleads before v after hvisits) hreport
    · split at hreport
      · cases hreport
      · cases List.mem_singleton.mp hreport

/-- The second `.set` gives `x` its value, with or without braces, and nothing more. -/
theorem bindings_follow_edits_overwritten :
    let input := ".set x 2\n.set \x7bx\x7d 3 y\n\x7bx\x7d"
    let lines := [".set x 2", ".set \x7bx\x7d 3 y"]
    let v : Visit := ⟨NameMap.insert (.insert .empty "x" "2") "x" "3", "\x7bx\x7d"⟩
    (∃ before after, before.map Visit.line = lines ∧ before ++ v :: after =
      Loop.values.visits Engine.standard .empty (linesOf input)) ∧
      Leads lines v.bindings ∧ BoundLast lines "x" "3" ∧
      (Decimal.readValue? "3").isSome = true ∧ Engine.standard.registry.HasStandardBodies ∧
      ∀ error, .report error ∈ (Loop.values.run Engine.standard input).events →
        error.kind ≠ .system := by
  intro input lines v
  let before : List Visit :=
    [⟨.empty, ".set x 2"⟩, ⟨.insert .empty "x" "2", ".set \x7bx\x7d 3 y"⟩]
  have hvisits : Loop.values.visits Engine.standard .empty (linesOf input) = before ++ v :: [] := by
    decide +kernel
  have hbound : v.bindings.get? "x" = some "3" := by decide +kernel
  obtain ⟨-, -, hfinds, hreports⟩ := bindings_follow_edits Engine.standard input
  obtain ⟨hleads, hlast, hread⟩ := hfinds before v [] hvisits
  have hbodies := Registry.standard_hasStandardBodies
  exact ⟨⟨before, [], rfl, hvisits.symm⟩, hleads, (hlast "x" "3").mp hbound, hread "x" "3" hbound,
    hbodies, hreports hbodies⟩

end Loop

end DecimalFormula.Console
