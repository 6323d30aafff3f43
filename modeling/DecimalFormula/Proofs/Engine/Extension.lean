import DecimalFormula.Proofs.Engine.Reading
import DecimalFormula.Proofs.Evaluation.Order
import DecimalFormula.Proofs.Parsing.Vocabulary
import DecimalFormula.Proofs.Scanning.Decomposition

/-!
# Registering one more function

A formula that is read under some registry is read under a larger one in the same way and has the
same value, and if it is refused, it is refused for the same reason at the same place. The one
exception is a word that only the larger registry knows, where the scanner stopped under the smaller
one (`Engine.register_conservative`).

The reason is that nothing is looked up before it is delimited. The scanner takes words as long as
they are, whatever is registered, so the larger registry cannot divide the text in another way. From
there on only names that the scanner has let pass are looked up, and those have the same functions
in both registries (`Registry.Extends.get?_eq`).
-/

namespace DecimalFormula

/-! ## Larger registries -/

namespace Registry

variable {registry registry' : Registry} {name n : String} {f : Function}

/-- All functions of a registry are found under their names in the first one as well. -/
def Extends (registry' registry : Registry) : Prop :=
  ∀ name f, registry.get? name = some f → registry'.get? name = some f

theorem extends_register (hname : registry.contains name = false) (f : Function) :
    (registry.register name f).Extends registry := by
  intro n g hg
  have hother : Text.upper n ≠ Text.upper name := by
    intro hupper
    rw [contains, ← get?_upper, ← hupper, get?_upper, hg] at hname
    cases hname
  rw [get?_register, if_neg hother, hg]

theorem upper_eq_of_contains_register (h : (registry.register name f).contains n = true)
    (hn : registry.contains n = false) : Text.upper n = Text.upper name := by
  by_contra hother
  rw [contains, get?_register, if_neg hother, ← contains, hn] at h
  cases h

namespace Extends

theorem get?_eq (h : registry'.Extends registry) (hname : registry.contains name = true) :
    registry'.get? name = registry.get? name := by
  obtain ⟨f, hf⟩ := Option.isSome_iff_exists.mp hname
  rw [h name f hf, hf]

theorem contains (h : registry'.Extends registry) (hname : registry.contains name = true) :
    registry'.contains name = true := by
  rw [Registry.contains, h.get?_eq hname, ← Registry.contains, hname]

end Extends

end Registry

/-! ## Scanning -/

section Scanning

variable {registry registry' : Registry} {n : Nat} {formula name : String} {rest : List Char}
  {ps : List Piece} {e : LexicalError}

theorem Malformed.of_unknownFunction (h : Malformed registry n rest e)
    (hcause : e.cause = .unknownFunction name) :
    Text.upper name = name ∧ registry.contains name = false := by
  cases h with
  | @unknownFunction c cs _ _ _ _ hcontains =>
    obtain rfl : String.ofList ((c :: cs).map Char.toUpper) = name :=
      LexicalCause.unknownFunction.inj hcause
    refine ⟨?_, hcontains⟩
    simp [Text.upper, Function.comp_def]
  | unrecognized | secondPoint | missingFraction | outOfRange | badIdentifierStart
  | missingBrace => cases hcause

theorem Row.of_extends (hext : registry'.Extends registry) (h : Row registry rest ps) :
    Row registry' rest ps := by
  induction h with
  | nil => exact .nil
  | @cons p ps hp _ ih =>
    have hlexeme : Lexeme registry' p.kind p.text p.lexeme := by
      refine hp.lexeme.of_contains fun hkind ↦ ?_
      have hname := hp.lexeme
      rw [hkind] at hname
      obtain ⟨_, _, -, -, -, -, hcontains⟩ := hname.name_of_function
      exact hext.contains hcontains
    exact .cons ⟨hp.blank, hlexeme, hp.ends⟩ ih

/-- What is wrong remains so, unless it is a name that is known now. -/
theorem Malformed.of_extends (registry' : Registry) (h : Malformed registry n rest e) :
    Malformed registry' n rest e ∨
      ∃ name, e.cause = .unknownFunction name ∧ registry'.contains name = true := by
  cases h with
  | unrecognized hc => exact .inl (.unrecognized hc)
  | secondPoint hne hds hes => exact .inl (.secondPoint hne hds hes)
  | missingFraction hne hds hends => exact .inl (.missingFraction hne hds hends)
  | outOfRange hcs hread hends => exact .inl (.outOfRange hcs hread hends)
  | badIdentifierStart hstart => exact .inl (.badIdentifierStart hstart)
  | missingBrace hc hcs hrest hbrace => exact .inl (.missingBrace hc hcs hrest hbrace)
  | @unknownFunction c cs _ hc hcs hends _ =>
    cases hcontains : registry'.contains (.ofList ((c :: cs).map Char.toUpper)) with
    | false => exact .inl (.unknownFunction hc hcs hends hcontains)
    | true => exact .inr ⟨_, rfl, hcontains⟩

namespace Lexer

theorem of_unknownFunction (h : scan registry formula = .error e)
    (hcause : e.cause = .unknownFunction name) :
    Text.upper name = name ∧ registry.contains name = false := by
  obtain ⟨pieces, blanks, rest, hrefusal⟩ := scan_eq_error_iff_refusal.mp h
  exact hrefusal.malformed.of_unknownFunction hcause

/-- Under a larger registry the scanner gives the same answer, unless it stopped at a name that is
known now. -/
theorem scan_of_extends (hext : registry'.Extends registry) (formula : String) :
    scan registry' formula = scan registry formula ∨
      ∃ e name, scan registry formula = .error e ∧ e.cause = .unknownFunction name ∧
        registry'.contains name = true := by
  cases hscan : scan registry formula with
  | ok tokens =>
    obtain ⟨pieces, blanks, hsplit, rfl⟩ := scan_eq_ok_iff_split.mp hscan
    have hsplit' : Split registry' formula pieces blanks [] :=
      ⟨hsplit.chars, hsplit.row.of_extends hext, hsplit.blank⟩
    exact .inl (scan_eq_ok_iff_split.mpr ⟨pieces, blanks, hsplit', rfl⟩)
  | error e =>
    obtain ⟨pieces, blanks, rest, hrefusal⟩ := scan_eq_error_iff_refusal.mp hscan
    rcases hrefusal.malformed.of_extends registry' with hmalformed | ⟨name, hcause, hcontains⟩
    · have hrefusal' : Refusal registry' formula pieces blanks rest e :=
        ⟨⟨hrefusal.chars, hrefusal.row.of_extends hext, hrefusal.blank⟩, hmalformed⟩
      exact .inl (scan_eq_error_iff_refusal.mpr ⟨pieces, blanks, rest, hrefusal'⟩)
    · exact .inr ⟨e, name, rfl, hcause, hcontains⟩

theorem contains_of_scan {tokens : List Token} (h : scan registry formula = .ok tokens) :
    ∀ t ∈ tokens, t.kind = .function → registry.contains t.text = true := by
  intro t ht hkind
  have hend : t.isEnd = false := by
    rw [Token.isEnd_eq_false_iff, hkind]
    decide
  have hlexeme := legible_of_scan h t ht hend
  rw [Token.Legible, hkind] at hlexeme
  obtain ⟨_, _, -, -, -, -, hcontains⟩ := hlexeme.name_of_function
  exact hcontains

theorem agreeOn_of_scan {tokens : List Token} (hext : registry'.Extends registry)
    (h : scan registry formula = .ok tokens) : registry.AgreeOn registry' tokens := by
  intro t ht hkind
  rw [Registry.arity?, Registry.arity?, hext.get?_eq (contains_of_scan h t ht hkind)]

end Lexer

end Scanning

/-! ## Values -/

namespace Tree

variable {registry registry' : Registry} {tree : Tree}

/-- Only the functions that a tree calls matter to it. -/
theorem evaluate_of_extends (hext : registry'.Extends registry) (h : tree.Accepted registry)
    (bindings : Bindings) :
    tree.evaluate registry' bindings = tree.evaluate registry bindings := by
  induction tree with
  | leaf kind t => rfl
  | unary o t x span ih =>
    have hx := ih ((accepted_iff.mp h).2 x (by simp))
    rw [evaluate, evaluate, hx]
  | binary o t l r span ihl ihr =>
    have hl := ihl ((accepted_iff.mp h).2 l (by simp))
    have hr := ihr ((accepted_iff.mp h).2 r (by simp))
    rw [evaluate, evaluate, hl, hr]
  | call name t args span ih =>
    obtain ⟨⟨arity, harity, -⟩, hargs⟩ := accepted_iff.mp h
    have hname : registry.contains name = true := by
      rw [← Registry.arity?_isSome, harity]
      rfl
    have hstep (values : List Decimal) :
        callStep registry' name values = callStep registry name values := by
      rw [callStep, callStep, Registry.call, Registry.call, hext.get?_eq hname]
    have hvalues : evaluateAll registry' bindings args = evaluateAll registry bindings args :=
      evaluateAll_congr (List.forall₂_same.mpr fun x hx ↦ ih x hx (hargs x hx))
    rw [evaluate, evaluate, hvalues]
    simp only [hstep]

end Tree

/-! ## Engines -/

namespace Engine

def register (e : Engine) (name : String) (f : Function) : Engine :=
  { e with registry := e.registry.register name f }

/-- What is answered about a formula is that no function of this name is registered. -/
def Lacks {α : Type} (name formula : String) (answer : Except Error α) : Prop :=
  ∃ span, answer = .error (.lexical formula ⟨.unknownFunction name, span⟩)

variable {e : Engine} {name formula : String}

theorem lacks_of_scan {error : LexicalError} (h : Lexer.scan e.registry formula = .error error)
    (hcause : error.cause = .unknownFunction name) :
    Lacks name formula (e.lex formula) ∧ Lacks name formula (e.parse formula) ∧
      ∀ bindings, Lacks name formula (e.evalFormula bindings formula) := by
  obtain ⟨cause, span⟩ := error
  dsimp only at hcause
  subst hcause
  have hparse := parse_of_scan_error h
  refine ⟨⟨span, ?_⟩, ⟨span, hparse⟩, fun bindings ↦ ⟨span, ?_⟩⟩
  · rw [lex, h]
    rfl
  · rw [evalFormula, hparse]
    rfl

theorem not_lacks_of_contains (h : e.registry.contains name = true) (formula : String) :
    ¬ Lacks name formula (e.lex formula) := by
  rintro ⟨span, hlex⟩
  cases hscan : Lexer.scan e.registry formula with
  | ok tokens =>
    rw [lex, hscan] at hlex
    cases hlex
  | error error =>
    rw [lex, hscan] at hlex
    obtain ⟨-, rfl⟩ := Error.lexical.inj (Except.error.inj hlex)
    have hmissing := (Lexer.of_unknownFunction hscan rfl).2
    rw [h] at hmissing
    cases hmissing

theorem answers_of_extends {registry : Registry} (hext : registry.Extends e.registry)
    (hscan : Lexer.scan registry formula = Lexer.scan e.registry formula) :
    (Engine.mk registry e.limit).lex formula = e.lex formula ∧
      (Engine.mk registry e.limit).parse formula = e.parse formula ∧
      ∀ bindings, (Engine.mk registry e.limit).evalFormula bindings formula =
        e.evalFormula bindings formula := by
  have hlex : (Engine.mk registry e.limit).lex formula = e.lex formula := by
    rw [lex, lex, hscan]
  have hparse : (Engine.mk registry e.limit).parse formula = e.parse formula := by
    rw [parse, parse, hlex, lex]
    cases htokens : Lexer.scan e.registry formula with
    | error error => rfl
    | ok tokens =>
      have hagree := Lexer.agreeOn_of_scan hext htokens
      exact congrArg (Except.mapError (Error.parse formula)) (Tree.ofTokens_congr hagree e.limit)
  refine ⟨hlex, hparse, fun bindings ↦ ?_⟩
  rw [evalFormula, evalFormula, hparse]
  cases htree : e.parse formula with
  | error error => rfl
  | ok tree =>
    have hvalue := Tree.evaluate_of_extends hext (accepted_of_parse htree) bindings
    rw [Except.bind, Except.bind, evaluate, evaluate, hvalue]

/-- **Registering a function is conservative.** Let a function be registered under a name that was
not registered, in any letter case. Then a formula has the same tokens, the same tree and under any
bindings the same value as before, or the same error, at the same place and with the same frames;
unless the answer was that no function of this very name is registered, which is never the answer
any more. -/
theorem register_conservative (e : Engine) {name : String}
    (hname : e.registry.contains name = false) (f : Function) (formula : String) :
    ((e.register name f).lex formula = e.lex formula ∨
      Lacks (Text.upper name) formula (e.lex formula)) ∧
    ((e.register name f).parse formula = e.parse formula ∨
      Lacks (Text.upper name) formula (e.parse formula)) ∧
    (∀ bindings, (e.register name f).evalFormula bindings formula = e.evalFormula bindings formula ∨
      Lacks (Text.upper name) formula (e.evalFormula bindings formula)) ∧
    ¬ Lacks (Text.upper name) formula ((e.register name f).lex formula) := by
  have hext := Registry.extends_register hname f
  have hknown : (e.register name f).registry.contains (Text.upper name) = true := by
    rw [register, Registry.contains, Registry.get?_register, if_pos (Text.upper_upper name)]
    rfl
  have hnot := not_lacks_of_contains hknown formula
  rcases Lexer.scan_of_extends hext formula with hscan | ⟨error, n, hscan, hcause, hcontains⟩
  · obtain ⟨hlex, hparse, hvalue⟩ := answers_of_extends hext hscan
    exact ⟨.inl hlex, .inl hparse, fun bindings ↦ .inl (hvalue bindings), hnot⟩
  · -- The word is in upper case already, so it is the name itself in upper case.
    obtain ⟨hupper, hmissing⟩ := Lexer.of_unknownFunction hscan hcause
    have hn := Registry.upper_eq_of_contains_register hcontains hmissing
    rw [← hupper, hn] at hcause
    obtain ⟨hlex, hparse, hvalue⟩ := lacks_of_scan hscan hcause
    exact ⟨.inr hlex, .inr hparse, fun bindings ↦ .inr (hvalue bindings), hnot⟩

/-- A call with too many arguments is refused as before when `twice` is registered, while `twice`
itself was not known. -/
theorem register_conservative_twice :
    let twice : Engine := standard.register "twice" (Body.sum.registeredFor (.exactly 1))
    standard.registry.contains "twice" = false ∧
      twice.parse "1+abs(2,3)" = standard.parse "1+abs(2,3)" ∧
      twice.evalFormula .empty "Twice(2)" = .ok ⟨false, 2, 0, by decide, by decide⟩ ∧
      Lacks "TWICE" "Twice(2)" (standard.evalFormula .empty "Twice(2)") := by
  intro twice
  have hname : standard.registry.contains "twice" = false := by decide +kernel
  let doubling : Function := Body.sum.registeredFor (.exactly 1)
  obtain ⟨-, hparse, -⟩ := register_conservative standard hname doubling "1+abs(2,3)"
  obtain ⟨-, -, hvalue, -⟩ := register_conservative standard hname doubling "Twice(2)"
  have hrefused : standard.parse "1+abs(2,3)" = .error (.parse "1+abs(2,3)"
      ⟨.wrongArgumentCount "ABS" (.exactly 1) 2, ⟨2, 10⟩, 7⟩) := by decide +kernel
  have htwice : twice.evalFormula .empty "Twice(2)" =
      .ok ⟨false, 2, 0, by decide, by decide⟩ := by decide +kernel
  refine ⟨hname, hparse.resolve_right ?_, htwice, (hvalue .empty).resolve_left ?_⟩
  · rintro ⟨span, hlacks⟩
    rw [hrefused] at hlacks
    cases hlacks
  · have hunknown : standard.evalFormula .empty "Twice(2)" = .error (.lexical "Twice(2)"
        ⟨.unknownFunction "TWICE", ⟨0, 5⟩⟩) := by decide +kernel
    rw [hunknown]
    intro hsame
    rw [htwice] at hsame
    cases hsame

end Engine

end DecimalFormula
