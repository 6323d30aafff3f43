import DecimalFormula.Proofs.Engine.Reading
import DecimalFormula.Proofs.Evaluation.Order
import DecimalFormula.Proofs.Registry.Calls

/-!
# What can go wrong with a formula

A formula fails in the scanner, in the parser or at a node of its tree (`Engine.Failure`). By the
time a node takes its step much has been checked: function names are registered, numbers have values
and calls have as many arguments as was registered. What is left at a node is listed in
`Tree.NodeFailure`.

An error that is not the formula's own fault is thus always about a text that was bound to one of
its identifiers.
-/

namespace DecimalFormula

/-! ## Nodes -/

namespace Tree

variable {registry : Registry} {bindings : Bindings} {tree node : Tree} {cause : EvalCause}

/-- Why the step of a node fails in a tree that was read from a formula. -/
inductive NodeFailure (registry : Registry) (bindings : Bindings) : Tree → EvalCause → Prop
  /-- An identifier is not bound. -/
  | unbound {token} : bindings.get? token.text = none →
    NodeFailure registry bindings (leaf .identifier token) (.missingIdentifier token.text)
  /-- What an identifier is bound to is no number. -/
  | malformed {token text} : bindings.get? token.text = some text → Decimal.readValue? text = none →
    NodeFailure registry bindings (leaf .identifier token) (.malformedDecimal text)
  /-- An operator has no value. -/
  | operation {operator token left right span error} :
    NodeFailure registry bindings (binary operator token left right span) (.operation error)
  /-- A body has no value for as many arguments as it was registered for. -/
  | body {name token args span f values error} :
    evaluateAll registry bindings args = .ok values → registry.get? name = some f →
    f.arity.accepts values.length = true → f.body values = .error error →
    NodeFailure registry bindings (call name token args span) (.call name error)

/-- A system error of a node is about the text that an identifier is bound to, or a body says that a
function is unknown. -/
theorem NodeFailure.malformed_or_body {error : EvalError}
    (h : NodeFailure registry bindings node error.cause) (hkind : error.kind = .system) :
    (∃ token text, node = leaf .identifier token ∧ bindings.get? token.text = some text ∧
      Decimal.readValue? text = none ∧ error.cause = .malformedDecimal text) ∨
    ∃ function f values name, registry.get? function = some f ∧
      f.body values = .error (.unknownFunction name) ∧
      error.cause = .call function (.unknownFunction name) := by
  obtain ⟨cause, span, frames⟩ := error
  cases h with
  | malformed hbound hread => exact .inl ⟨_, _, rfl, hbound, hread, rfl⟩
  | @body name _ _ _ f values error _ hf _ hbody =>
    cases error with
    | unknownFunction => exact .inr ⟨name, f, values, _, hf, hbody, rfl⟩
    | wrongArgumentCount | overflow => cases hkind
  | unbound | operation => cases hkind

/-- The text of a number that was read is one. -/
theorem exists_readValue?_of_lexeme {text : String} {cs : List Char}
    (h : Lexeme registry .number text cs) : ∃ d, Decimal.readValue? text = some d := by
  obtain ⟨-, -, d, hread⟩ := h.numeral_of_number
  exact ⟨d, Decimal.readValue?_of_read? hread⟩

theorem nodeFailure_of_stepsTo (hbuilt : node.BuiltFromToken)
    (hlegible : node.token.Legible registry) (haccepted : node.CallAccepted registry)
    (h : StepsTo registry bindings node (.error cause)) :
    NodeFailure registry bindings node cause := by
  obtain ⟨values, hvalues, hown⟩ := h
  cases node with
  | leaf kind token =>
    cases hown with
    | malformedNumber hread =>
      have hlex : Lexeme registry token.kind token.text token.render.toList := hlegible
      rw [show token.kind = .number from hbuilt] at hlex
      obtain ⟨d, hd⟩ := exists_readValue?_of_lexeme hlex
      cases hread.symm.trans hd
    | malformedBound hbound hread => exact .malformed hbound hread
    | unbound hbound => exact .unbound hbound
  | unary => cases hown
  | binary =>
    obtain ⟨-, -, error, -, -, rfl⟩ := ownStep_binary_error hown
    exact .operation
  | call name =>
    obtain ⟨error, hcall, rfl⟩ := ownStep_call_error hown
    obtain ⟨arity, harity, haccepts⟩ := haccepted
    obtain ⟨f, hf, rfl⟩ := Option.map_eq_some_iff.mp harity
    rw [children_call] at hvalues
    rw [hvalues.length_eq] at haccepts
    rw [Registry.call, hf] at hcall
    dsimp only at hcall
    rw [if_pos haccepts] at hcall
    exact .body (evaluateAll_eq_ok_iff_forall₂.mpr hvalues) hf haccepts hcall

/-- The error of a tree is that of a node whose step fails. -/
theorem exists_nodeFailure_of_evaluate (hreadable : tree.Readable registry)
    (haccepted : tree.Accepted registry) {error : EvalError}
    (h : evaluate registry bindings tree = .error error) :
    ∃ node ∈ tree.nodes, NodeFailure registry bindings node error.cause ∧
      error.span = node.token.span := by
  obtain ⟨⟨node, above⟩, cause, inner, ⟨before, after, hplaces, -, hstep⟩, -, rfl⟩ :=
    blames_of_evaluate_eq_error h []
  have hmem : (⟨node, above⟩ : Place) ∈ postorder [] tree := by simp [hplaces]
  have hnode : node ∈ tree.nodes := (mem_nodes_of_mem_postorder hmem).1
  exact ⟨node, hnode, nodeFailure_of_stepsTo (hreadable.1 node hnode) (hreadable.2 node hnode)
    (haccepted node hnode) hstep, rfl⟩

end Tree

/-! ## Formulas -/

namespace Engine

/-- Where and why a formula has no value. -/
inductive Failure (e : Engine) (bindings : Bindings) (formula : String) : Error → Prop
  /-- It cannot be scanned. -/
  | lexical {error} : Lexer.scan e.registry formula = .error error →
    Failure e bindings formula (.lexical formula error)
  /-- It cannot be parsed, which is not for want of a function. -/
  | parse {error} : (∀ name, error.cause ≠ .unknownFunction name) →
    Failure e bindings formula (.parse formula error)
  /-- The step of a node fails, whose token is one of the formula. -/
  | evaluation {tokens tree node error} : Lexer.scan e.registry formula = .ok tokens →
    e.parse formula = .ok tree → node ∈ tree.nodes → node.token ∈ tokens → node.BuiltFromToken →
    Tree.NodeFailure e.registry bindings node error.cause → error.span = node.token.span →
    Failure e bindings formula (.evaluation (some formula) error)

variable {e : Engine} {bindings : Bindings} {formula : String} {error : Error}

/-- A parser that is given the tokens of a formula never lacks a function. -/
theorem ne_unknownFunction_of_ofTokens {tokens : List Token}
    (hscan : Lexer.scan e.registry formula = .ok tokens) {error : ParseError}
    (h : Tree.ofTokens e.registry e.limit tokens = .error error) (name : String) :
    error.cause ≠ .unknownFunction name := by
  obtain ⟨passed, c, hpass, ⟨headroom, hfault⟩ | rfl⟩ := Tree.exists_fault_of_ofTokens h
  · have hregistered : ∀ t ∈ passed, t.kind = .function → e.registry.contains t.text = true := by
      intro t ht hkind
      have hmem : t ∈ tokens := by
        -- The tokens end the input themselves, so the cursor has added none.
        rw [← Lexer.closed_of_scan hscan, ← TokenCursor.tokens_start, hpass.tokens_eq]
        exact List.mem_append_left _ ht
      have hlex := Lexer.legible_of_scan hscan t hmem (hpass.inner t ht)
      rw [Token.Legible, hkind] at hlex
      obtain ⟨_, _, -, -, -, -, hcontains⟩ := hlex.name_of_function
      exact hcontains
    cases hfault with
    | tooDeep => exact fun h ↦ by cases h
    | mismatch =>
      dsimp only [Parser.mismatch]
      split <;> exact fun h ↦ by cases h
    | unknownFunction hname hkind _ hnone =>
      have hcontains := hregistered _ hname hkind
      rw [← Registry.arity?_isSome, hnone] at hcontains
      cases hcontains
    | wrongArgumentCount => exact fun h ↦ by cases h
  · exact fun h ↦ by cases h

theorem failure_of_parse (bindings : Bindings) (h : e.parse formula = .error error) :
    Failure e bindings formula error := by
  rcases exists_of_parse_eq_error h with ⟨lexical, hscan, rfl⟩ | ⟨tokens, parse, hscan, hparse, rfl⟩
  · exact .lexical hscan
  · exact .parse (ne_unknownFunction_of_ofTokens hscan hparse)

theorem failure_of_evalFormula (h : e.evalFormula bindings formula = .error error) :
    Failure e bindings formula error := by
  rcases exists_of_evalFormula_eq_error h with hparse | ⟨tree, evaluation, hparse, heval, rfl⟩
  · exact failure_of_parse bindings hparse
  · have hreadable := readable_of_parse hparse
    obtain ⟨body, c, hlexes, hblanks, hderives, haccepted⟩ := parse_eq_ok_iff.mp hparse
    have hscan := Lexer.scan_eq_ok_iff.mpr ⟨body, c, hlexes, hblanks, rfl⟩
    obtain ⟨node, hnode, hfailure, hspan⟩ :=
      Tree.exists_nodeFailure_of_evaluate hreadable haccepted heval
    exact .evaluation hscan hparse hnode (List.mem_append_left _ (hderives.token_mem hnode))
      (hreadable.1 node hnode) hfailure hspan

/-! ### System errors -/

/-- A call that fails is one of the tree, and its body fails at the values of the arguments. -/
theorem Failure.exists_failing_body {source : Option String} {function : String} {cause : CallError}
    {span : Span} {frames : List Frame}
    (h : Failure e bindings formula (.evaluation source ⟨.call function cause, span, frames⟩)) :
    ∃ tree token args span f values, e.parse formula = .ok tree ∧
      .call function token args span ∈ tree.nodes ∧
      Tree.evaluateAll e.registry bindings args = .ok values ∧
      e.registry.get? function = some f ∧ f.arity.accepts values.length = true ∧
      f.body values = .error cause := by
  cases h with
  | evaluation _ hparse hnode _ _ hfailure =>
    cases hfailure with
    | @body _ token args span f values _ hvalues hf haccepts hbody =>
      exact ⟨_, token, args, span, f, values, hparse, hnode, hvalues, hf, haccepts, hbody⟩

/-- A standard function takes whatever it is registered for, so only overflow is left. -/
theorem eq_overflow_of_standard {function : String} {f : Function} {values : List Decimal}
    {cause : CallError} (hf : Registry.standard.get? function = some f)
    (haccepts : f.arity.accepts values.length = true) (hbody : f.body values = .error cause) :
    cause = .overflow := by
  obtain ⟨b, rfl⟩ := Registry.exists_body_of_standard hf
  refine (Body.apply_eq_error hbody).resolve_right fun ⟨_, hrejects⟩ ↦ ?_
  rw [show b.arity.accepts values.length = true from haccepts] at hrejects
  cases hrejects

/-- A system error is about a text that an identifier of the formula is bound to, or a body says that
a function is unknown. -/
theorem Failure.bound_or_body (h : Failure e bindings formula error)
    (hkind : error.kind = .system) :
    (∃ tokens token text frames,
      Lexer.scan e.registry formula = .ok tokens ∧ token ∈ tokens ∧ token.kind = .identifier ∧
      bindings.get? token.text = some text ∧ Decimal.readValue? text = none ∧
      error = .evaluation (some formula) ⟨.malformedDecimal text, token.span, frames⟩) ∨
    ∃ evaluation function f values name,
      error = .evaluation (some formula) evaluation ∧
      evaluation.cause = .call function (.unknownFunction name) ∧
      e.registry.get? function = some f ∧ f.body values = .error (.unknownFunction name) := by
  cases h with
  | lexical => cases hkind
  | @parse parse hne =>
    obtain ⟨cause, span, index⟩ := parse
    cases cause with
    | unknownFunction name => exact absurd rfl (hne name)
    | _ => cases hkind
  | @evaluation tokens tree node evaluation hscan _ _ htoken hbuilt hfailure hspan =>
    obtain ⟨cause, span, frames⟩ := evaluation
    rcases hfailure.malformed_or_body hkind with
      ⟨token, text, rfl, hbound, hread, hcause⟩ | ⟨function, f, values, name, hf, hbody, hcause⟩
    · dsimp only at hcause hspan
      subst hcause hspan
      exact .inl ⟨tokens, token, text, frames, hscan, htoken, hbuilt, hbound, hread, rfl⟩
    · exact .inr ⟨_, function, f, values, name, rfl, hcause, hf, hbody⟩

/-- Where all bodies are standard, a system error needs a name that is bound to a text which is no
number. -/
theorem exists_bound_of_system (hbodies : e.registry.HasStandardBodies)
    (h : e.evalFormula bindings formula = .error error) (hkind : error.kind = .system) :
    ∃ name text, bindings.get? name = some text ∧ Decimal.readValue? text = none := by
  rcases (failure_of_evalFormula h).bound_or_body hkind with
    ⟨tokens, token, text, frames, -, -, -, hbound, hread, -⟩ |
    ⟨evaluation, function, f, values, name, -, -, hf, hbody⟩
  · exact ⟨token.text, text, hbound, hread⟩
  · obtain ⟨b, hb⟩ := hbodies function f hf
    rw [hb] at hbody
    exact absurd hbody (b.apply_ne_unknownFunction values name)

/-- **System errors never come from the formula.** Where one registry serves all, no function is
ever found missing, neither by the parser nor by a call, and a call has as many arguments as its
function was registered for. So what fails in a call is a body, at the values of the arguments. A
standard body overflows, or it complains about their number if it is stricter than what it was
registered for, which no function of the standard registry is; but any other body may say what it
likes, also that a function is unknown.

A system error is therefore always about an identifier of the formula that is bound to a text which
is no number, unless a body that is not standard said that a function is unknown. The numbers of the
formula itself all have values. -/
theorem system_error_of_binding_or_body (e : Engine) (bindings : Bindings) (formula : String) :
    (∀ error, e.evalFormula bindings formula = .error error →
      (∀ source parse name, error = .parse source parse → parse.cause ≠ .unknownFunction name) ∧
      (∀ source evaluation function cause, error = .evaluation source evaluation →
        evaluation.cause = .call function cause →
        ∃ tree token args span f values, e.parse formula = .ok tree ∧
          .call function token args span ∈ tree.nodes ∧
          Tree.evaluateAll e.registry bindings args = .ok values ∧
          e.registry.get? function = some f ∧ f.arity.accepts values.length = true ∧
          f.body values = .error cause ∧
          (∀ b : Body, f.body = b.apply → cause = .overflow ∨
            b.arity.accepts values.length = false ∧
              cause = .wrongArgumentCount b.name b.arity values.length) ∧
          (e.registry = .standard → cause = .overflow)) ∧
      (error.kind = .system →
        (∃ tokens token text frames,
          Lexer.scan e.registry formula = .ok tokens ∧ token ∈ tokens ∧ token.kind = .identifier ∧
          bindings.get? token.text = some text ∧ Decimal.readValue? text = none ∧
          error = .evaluation (some formula) ⟨.malformedDecimal text, token.span, frames⟩) ∨
        ∃ evaluation function f values name,
          error = .evaluation (some formula) evaluation ∧
          evaluation.cause = .call function (.unknownFunction name) ∧
          e.registry.get? function = some f ∧ f.body values = .error (.unknownFunction name) ∧
          ∀ b : Body, f.body ≠ b.apply)) ∧
    ∀ tokens, Lexer.scan e.registry formula = .ok tokens → ∀ t ∈ tokens, t.kind = .number →
      ∃ d, Decimal.readValue? t.text = some d := by
  refine ⟨fun error herror ↦ ⟨?_, ?_, ?_⟩, fun tokens hscan t ht hkind ↦ ?_⟩
  -- The scanner has looked up every function name in the registry that the parser asks.
  · rintro source parse name rfl
    cases failure_of_evalFormula herror with
    | parse hne => exact hne name
  -- The parser has checked the number of arguments, so what is left to fail in a call is its body.
  · rintro source ⟨cause, span, frames⟩ function error rfl rfl
    obtain ⟨tree, token, args, span, f, values, hparse, hnode, hvalues, hf, haccepts, hbody⟩ :=
      (failure_of_evalFormula herror).exists_failing_body
    refine ⟨tree, token, args, span, f, values, hparse, hnode, hvalues, hf, haccepts, hbody,
      fun b hb ↦ ?_, fun hstandard ↦ ?_⟩
    · rw [hb] at hbody
      exact (Body.apply_eq_error hbody).imp_right And.symm
    · exact eq_overflow_of_standard (hstandard ▸ hf) haccepts hbody
  · intro hsystem
    refine ((failure_of_evalFormula herror).bound_or_body hsystem).imp_right ?_
    rintro ⟨evaluation, function, f, values, name, rfl, hcause, hf, hbody⟩
    refine ⟨evaluation, function, f, values, name, rfl, hcause, hf, hbody, fun b hb ↦ ?_⟩
    rw [hb] at hbody
    exact b.apply_ne_unknownFunction values name hbody
  · have hend : t.isEnd = false := by
      rw [Token.isEnd_eq_false_iff, hkind]
      decide
    have hlex := Lexer.legible_of_scan hscan t ht hend
    rw [Token.Legible, hkind] at hlex
    exact Tree.exists_readValue?_of_lexeme hlex

/-- Bound to `ten`, the identifier of `1+{x}` is at fault. -/
theorem system_error_of_word :
    let bindings : Bindings := .insert .empty "x" "ten"
    ∃ tokens token text frames, Lexer.scan .standard "1+\x7bx\x7d" = .ok tokens ∧ token ∈ tokens ∧
      token.kind = .identifier ∧ bindings.get? token.text = some text ∧
      Decimal.readValue? text = none ∧ standard.evalFormula bindings "1+\x7bx\x7d" =
        .error (.evaluation (some "1+\x7bx\x7d") ⟨.malformedDecimal text, token.span, frames⟩) := by
  intro bindings
  have herror : standard.evalFormula bindings "1+\x7bx\x7d" = .error (.evaluation
      (some "1+\x7bx\x7d") ⟨.malformedDecimal "ten", ⟨3, 4⟩, [⟨"+", ⟨1, 2⟩⟩]⟩) := by
    decide +kernel
  obtain ⟨-, -, hsystem⟩ :=
    (system_error_of_binding_or_body standard bindings "1+\x7bx\x7d").1 _ herror
  rcases hsystem rfl with ⟨tokens, token, text, frames, hscan, htoken, hkind, hbound, hread, heq⟩ |
    ⟨evaluation, function, f, values, name, heq, hcause, -⟩
  · exact ⟨tokens, token, text, frames, hscan, htoken, hkind, hbound, hread, by rw [herror, heq]⟩
  · cases heq
    cases hcause

/-- A body may say that a function is unknown, and then a call that was found is a system error. -/
theorem system_error_of_body :
    let forward : Function := ⟨.any, fun _ ↦ .error (.unknownFunction "ELSEWHERE")⟩
    let e : Engine := ⟨Registry.standard.register "forward" forward, Parser.defaultLimit⟩
    let error : Error := .evaluation (some "Forward(1)")
      ⟨.call "FORWARD" (.unknownFunction "ELSEWHERE"), ⟨0, 7⟩, []⟩
    e.evalFormula .empty "Forward(1)" = .error error ∧ error.kind = .system := by
  intro forward e error
  exact ⟨by decide +kernel, rfl⟩

end Engine

end DecimalFormula
