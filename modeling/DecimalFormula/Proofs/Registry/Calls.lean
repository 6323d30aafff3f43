import DecimalFormula.Proofs.Decimal.Division
import DecimalFormula.Proofs.Registry.Registration

/-!
# What can come of a call

A number of arguments is checked twice: by what a function is registered for, and by its body, which
may want another number. What is left is one way to fail, a sum that is too large
(`Body.outcome_apply`). An average has no failure of its own: where the sum has a value, that value
is divided by the number of arguments, which is not zero, and every such quotient exists.

So a call is told by what is registered under its name, by the two checks and by the sum of the
arguments (`Registry.call_determined`).
-/

namespace DecimalFormula

/-! ## Bodies -/

namespace Body

variable {body : Body} {args : List Decimal} {error : CallError}

/-- What can come of applying a body, and when. -/
inductive Outcome (body : Body) (args : List Decimal) : Except CallError Decimal → Prop
  /-- The body takes another number of arguments. -/
  | rejected : body.arity.accepts args.length = false →
    Outcome body args (.error (.wrongArgumentCount body.name body.arity args.length))
  /-- The arguments have no sum. -/
  | overflow : body.arity.accepts args.length = true → body = sum ∨ body = average →
    total? args = none → Outcome body args (.error .overflow)
  | value {v} : body.arity.accepts args.length = true →
    (body = sum ∨ body = average → (total? args).isSome = true) → Outcome body args (.ok v)

/-- An average is the sum, divided by the number of arguments and rounded. The division always has a
result. -/
theorem exists_average (hargs : args ≠ []) {t : Decimal} (ht : total? args = some t) :
    ∃ v s, average.apply args = .ok v ∧ t.scale ≤ s ∧ v.Rounds (t.value / args.length) s := by
  obtain ⟨first, rest, rfl⟩ := List.exists_cons_of_ne_nil hargs
  obtain ⟨v, s, hv, hs, hround⟩ := t.exists_divNat? (Nat.succ_pos rest.length)
  refine ⟨v, s, ?_, hs, hround⟩
  rw [apply, ht, Option.bind_some, hv, orOverflow]

theorem outcome_apply (body : Body) (args : List Decimal) :
    Outcome body args (body.apply args) := by
  have hother {b : Body} (hb : b ≠ sum ∧ b ≠ average) :
      b = sum ∨ b = average → (total? args).isSome = true :=
    fun h ↦ h.elim (absurd · hb.1) (absurd · hb.2)
  cases body with
  | maximum | minimum =>
    cases args with
    | nil => exact .rejected rfl
    | cons => exact .value rfl (hother (by decide))
  | choice =>
    rcases args with _ | ⟨x, _ | ⟨y, _ | ⟨z, _ | ⟨w, rest⟩⟩⟩⟩
    case cons.cons.cons.nil => exact .value rfl (hother (by decide))
    all_goals exact .rejected (by simp [arity, Arity.accepts])
  | sum =>
    cases htotal : total? args with
    | none =>
      rw [apply, htotal]
      exact .overflow rfl (.inl rfl) htotal
    | some t =>
      rw [apply, htotal]
      exact .value rfl fun _ ↦ by rw [htotal, Option.isSome_some]
  | average =>
    cases args with
    | nil => exact .rejected rfl
    | cons first rest =>
      cases htotal : total? (first :: rest) with
      | none =>
        rw [apply, htotal]
        exact .overflow rfl (.inr rfl) htotal
      | some t =>
        obtain ⟨v, -, hv, -⟩ := exists_average (List.cons_ne_nil first rest) htotal
        rw [hv]
        exact .value rfl fun _ ↦ by rw [htotal, Option.isSome_some]
  | absolute =>
    rcases args with _ | ⟨x, _ | ⟨y, rest⟩⟩
    case cons.nil => exact .value rfl (hother (by decide))
    all_goals exact .rejected (by simp [arity, Arity.accepts])

/-- A body has no value because a sum is too large, or because of the number of its arguments. -/
theorem apply_eq_error (h : body.apply args = .error error) : error = .overflow ∨
    error = .wrongArgumentCount body.name body.arity args.length ∧
      body.arity.accepts args.length = false := by
  have houtcome := outcome_apply body args
  rw [h] at houtcome
  cases houtcome with
  | rejected hrejects => exact .inr ⟨rfl, hrejects⟩
  | overflow => exact .inl rfl

/-- No standard body says that a function is unknown. -/
theorem apply_ne_unknownFunction (body : Body) (args : List Decimal) (name : String) :
    body.apply args ≠ .error (.unknownFunction name) := by
  intro h
  rcases apply_eq_error h with hoverflow | ⟨hwrong, -⟩
  · cases hoverflow
  · cases hwrong

/-- Sums overflow, and averages where the sum does; nothing else overflows. -/
theorem Outcome.eq_overflow_iff {outcome : Except CallError Decimal}
    (h : Outcome body args outcome) :
    outcome = .error .overflow ↔
      (body = sum ∨ body = average) ∧ sum.apply args = .error .overflow := by
  have hsum : sum.apply args = .error .overflow ↔ total? args = none := by
    rw [apply]
    cases total? args <;> simp [orOverflow]
  rw [hsum]
  cases h with
  | overflow _ hbody htotal => exact iff_of_true rfl ⟨hbody, htotal⟩
  | value _ htotal =>
    refine iff_of_false nofun fun h ↦ ?_
    have hsome := htotal h.1
    rw [h.2] at hsome
    cases hsome
  | rejected hrejects =>
    -- No arguments are too few for an average, and their sum is zero.
    refine iff_of_false nofun ?_
    rintro ⟨rfl | rfl, htotal⟩
    · cases hrejects
    · obtain rfl : args = [] := by simpa [arity, Arity.accepts] using hrejects
      cases htotal

end Body

/-! ## Calls -/

namespace Registry

variable {functions : List (String × Function)} {registrations : List (String × Arity × Body)}
  {name : String} {args : List Decimal} {f : Function} {arity : Arity} {body : Body}

/-- What can come of calling a function that is registered under a name, and when. -/
inductive Outcome (f : Function) (name : String) (args : List Decimal) :
    Except CallError Decimal → Prop
  /-- The function is not registered for so many arguments. -/
  | refused : f.arity.accepts args.length = false →
    Outcome f name args (.error (.wrongArgumentCount (Text.upper name) f.arity args.length))
  /-- What the body says is passed on. -/
  | applied : f.arity.accepts args.length = true → Outcome f name args (f.body args)

theorem call_of_unregistered (h : Unregistered functions name) (args : List Decimal) :
    (empty.registerAll functions).call name args = .error (.unknownFunction name) := by
  rw [call, (get?_registerAll_eq_none_iff empty functions name).mpr ⟨h, rfl⟩]

theorem outcome_call {r : Registry} (h : r.get? name = some f) (args : List Decimal) :
    Outcome f name args (r.call name args) := by
  rw [call, h]
  dsimp only
  split
  · next haccepts => exact .applied haccepts
  · next hrefuses => exact .refused (by simpa using hrefuses)

/-- Standard bodies as functions, each for the number of arguments that it is registered for. -/
def ofBodies (registrations : List (String × Arity × Body)) : List (String × Function) :=
  registrations.map fun e ↦ (e.1, e.2.2.registeredFor e.2.1)

theorem unregistered_ofBodies_iff :
    Unregistered (ofBodies registrations) name ↔ Unregistered registrations name :=
  unregistered_map_iff fun e : Arity × Body ↦ e.2.registeredFor e.1

theorem outcome_call_ofBodies (h : LastRegistered registrations name (arity, body))
    (args : List Decimal) : Outcome (body.registeredFor arity) name args
      ((empty.registerAll (ofBodies registrations)).call name args) :=
  outcome_call ((h.map fun e : Arity × Body ↦ e.2.registeredFor e.1).get?_eq empty) args

/-- **What a call comes to.** Standard bodies are registered one after the other, each under any
name and for any number of arguments. A call of a name that none of them has is a call of an unknown
function, and nothing else is. Otherwise what was registered last under the name decides, letter
case apart. The call has the wrong number of arguments if the body was not registered for it, which
is told with the name in upper case, or else if the body does not take it, which is told with what
the body itself is called and takes. In all other cases the call has a value or overflows, and it
overflows exactly if it is for a sum or an average and the arguments have no sum. Dividing by the
number of arguments, as an average does, always has a result. -/
theorem call_determined (registrations : List (String × Arity × Body)) (name : String)
    (args : List Decimal) :
    let outcome := (empty.registerAll (ofBodies registrations)).call name args
    ((∃ n, outcome = .error (.unknownFunction n)) ↔ Unregistered registrations name) ∧
    (Unregistered registrations name → outcome = .error (.unknownFunction name)) ∧
    (∀ arity body, LastRegistered registrations name (arity, body) →
      ((∃ n expected got, outcome = .error (.wrongArgumentCount n expected got)) ↔
        arity.accepts args.length = false ∨ body.arity.accepts args.length = false) ∧
      (arity.accepts args.length = false →
        outcome = .error (.wrongArgumentCount (Text.upper name) arity args.length)) ∧
      (arity.accepts args.length = true → body.arity.accepts args.length = false →
        outcome = .error (.wrongArgumentCount body.name body.arity args.length)) ∧
      (arity.accepts args.length = true → body.arity.accepts args.length = true →
        ((∃ v, outcome = .ok v) ∨ outcome = .error .overflow) ∧
        (outcome = .error .overflow ↔ (body = .sum ∨ body = .average) ∧
          Body.sum.apply args = .error .overflow))) ∧
    (Body.average.apply args = .error .overflow ↔ Body.sum.apply args = .error .overflow) ∧
    (args ≠ [] → ∀ t : Decimal, ∃ v, t.divNat? args.length = some v) := by
  intro outcome
  have hunregistered (h : Unregistered registrations name) :
      outcome = .error (.unknownFunction name) :=
    call_of_unregistered (unregistered_ofBodies_iff.mpr h) args
  refine ⟨⟨fun ⟨n, hn⟩ ↦ ?_, fun h ↦ ⟨name, hunregistered h⟩⟩, hunregistered, ?_, ?_, ?_⟩
  -- A standard body never says that a function is unknown, so the registry has said it.
  · rcases unregistered_or_exists_lastRegistered registrations name with h | ⟨⟨arity, body⟩, h⟩
    · exact h
    have houtcome : Outcome _ name args outcome := outcome_call_ofBodies h args
    rw [hn] at houtcome
    generalize herror : (Except.error _ : Except CallError Decimal) = o at houtcome
    cases houtcome with
    | refused => cases herror
    | applied => exact absurd herror.symm (body.apply_ne_unknownFunction args n)
  -- The registry refuses before it calls the body, so there are two outcomes to look at first.
  · intro arity body h
    have houtcome : Outcome _ name args outcome := outcome_call_ofBodies h args
    generalize outcome = o at houtcome
    cases houtcome with
    | refused hrefuses =>
      rw [show arity.accepts args.length = false from hrefuses]
      exact ⟨iff_of_true ⟨_, _, _, rfl⟩ (.inl rfl), fun _ ↦ rfl, nofun, nofun⟩
    | applied haccepts =>
      have hbody := body.outcome_apply args
      have hoverflow := hbody.eq_overflow_iff
      rw [show arity.accepts args.length = true from haccepts]
      rw [show (body.registeredFor arity).body args = body.apply args from rfl]
      generalize body.apply args = o at hbody hoverflow ⊢
      rcases hbody with hrejects | ⟨htakes, -, -⟩ | @⟨v, htakes, -⟩
      · rw [hrejects]
        exact ⟨iff_of_true ⟨_, _, _, rfl⟩ (.inr rfl), nofun, fun _ _ ↦ rfl, nofun⟩
      · rw [htakes]
        exact ⟨iff_of_false nofun nofun, nofun, nofun, fun _ _ ↦ ⟨.inr rfl, hoverflow⟩⟩
      · rw [htakes]
        exact ⟨iff_of_false nofun nofun, nofun, nofun, fun _ _ ↦ ⟨.inl ⟨v, rfl⟩, hoverflow⟩⟩
  · rw [(Body.outcome_apply _ _).eq_overflow_iff, and_iff_right (.inr rfl)]
  · intro hargs t
    obtain ⟨v, -, hv, -⟩ := t.exists_divNat? (List.length_pos_iff.mpr hargs)
    exact ⟨v, hv⟩

/-- The body that was registered last complains in its own name, although it was registered for any
number of arguments. -/
theorem call_determined_mismatched :
    let registrations : List (String × Arity × Body) :=
      [("mean", .exactly 2, .sum), ("Mean", .any, .average)]
    LastRegistered registrations "mEAN" (.any, .average) ∧ Arity.any.accepts 0 = true ∧
      Body.average.arity.accepts 0 = false ∧
      (empty.registerAll (ofBodies registrations)).call "mEAN" [] =
        .error (.wrongArgumentCount "AVG" .atLeastOne 0) := by
  intro registrations
  have hlast : LastRegistered registrations "mEAN" (.any, .average) :=
    ⟨[("mean", .exactly 2, .sum)], "Mean", [], rfl, by decide, List.forall_mem_nil _⟩
  obtain ⟨-, -, hregistered, -⟩ := call_determined registrations "mEAN" []
  exact ⟨hlast, rfl, rfl, (hregistered _ _ hlast).2.2.1 rfl rfl⟩

end Registry

end DecimalFormula
