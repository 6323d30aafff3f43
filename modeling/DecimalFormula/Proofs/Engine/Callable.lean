import DecimalFormula.Proofs.Engine.Composition
import DecimalFormula.Proofs.Engine.Leaves

/-!
# Which functions a formula can call

A function can be registered under any name, but a formula can write only some of them: a name has
to be a letter and then letters and dots (`IsFunctionName`). That is what the scanner takes for one,
in either letter case, and it looks up no other text. So a name with a digit, an underscore, a dot
in front or a letter with an accent can be registered and called directly, but no formula has a
token with that name. All other registered names are within reach, with every number of arguments
that is accepted (`Engine.callable_names`).
-/

namespace DecimalFormula

variable {registry : Registry} {name written : String} {cs : List Char}

/-! ## Names that can be written -/

/-- A letter, and then letters and dots. -/
inductive IsFunctionName : List Char → Prop
  | mk {c cs} : c.isAlpha = true → (∀ d ∈ cs, continuesName d = true) → IsFunctionName (c :: cs)

namespace IsFunctionName

theorem continuesName_of_mem {c : Char} (h : IsFunctionName cs) (hc : c ∈ cs) :
    continuesName c = true := by
  cases h with
  | mk hfirst hcs => exact forall_continuesName hfirst hcs c hc

theorem map_toUpper_iff : IsFunctionName (cs.map Char.toUpper) ↔ IsFunctionName cs := by
  cases cs with
  | nil => exact iff_of_false nofun nofun
  | cons c cs =>
    rw [List.map_cons]
    constructor
    · rintro ⟨hc, hcs⟩
      refine ⟨isAlpha_toUpper_eq c ▸ hc, fun d hd ↦ ?_⟩
      exact continuesName_toUpper_eq d ▸ hcs _ (List.mem_map_of_mem hd)
    · rintro ⟨hc, hcs⟩
      refine ⟨isAlpha_toUpper hc, fun d hd ↦ ?_⟩
      obtain ⟨e, he, rfl⟩ := List.mem_map.mp hd
      exact continuesName_toUpper (hcs e he)

theorem of_upper_eq (hname : IsFunctionName name.toList)
    (h : Text.upper written = Text.upper name) : IsFunctionName written.toList := by
  rw [← map_toUpper_iff, ← Text.toList_upper, h, Text.toList_upper]
  exact map_toUpper_iff.mpr hname

theorem not_of_foreign (h : (∃ c ∈ cs, c.isDigit = true ∨ c = '_' ∨ 127 < c.toNat) ∨
    cs.head? = some '.') : ¬ IsFunctionName cs := by
  intro hname
  rcases h with ⟨c, hc, hforeign⟩ | hdot
  · have hletter := hname.continuesName_of_mem hc
    rw [continuesName, Bool.or_eq_true, beq_iff_eq] at hletter
    rcases hletter with halpha | rfl
    · rcases hforeign with hdigit | rfl | hbeyond
      · rw [isDigit_eq_false_of_isAlpha halpha] at hdigit
        cases hdigit
      · exact absurd halpha (by decide)
      · rw [isAlpha_iff_toNat] at halpha
        omega
    · exact absurd hforeign (by decide)
  · cases hname with
    | mk hc =>
      cases hdot
      exact absurd hc (by decide)

end IsFunctionName

theorem Registry.contains_upper (registry : Registry) (name : String) :
    registry.contains (Text.upper name) = registry.contains name := by
  rw [contains, contains, get?_upper]

theorem Lexeme.of_isFunctionName (hname : IsFunctionName name.toList)
    (hcontains : registry.contains name = true) :
    Lexeme registry .function (Text.upper name) name.toList := by
  rw [← Registry.contains_upper, Text.upper] at hcontains
  rw [Text.upper]
  generalize name.toList = cs at hname hcontains ⊢
  cases hname with
  | mk hc hcs => exact .function hc hcs hcontains

/-! ## Names within reach -/

/-- Some formula is scanned with a token that names this function. -/
def Lexer.Reaches (registry : Registry) (name : String) : Prop :=
  ∃ formula tokens t, scan registry formula = .ok tokens ∧ t ∈ tokens ∧ t.kind = .function ∧
    t.text = Text.upper name

/-- Whatever formula it is in, the token of a name was looked up and written as one. -/
theorem Lexer.reaches_iff :
    Reaches registry name ↔ registry.contains name = true ∧ IsFunctionName name.toList := by
  constructor
  · rintro ⟨formula, tokens, t, hscan, ht, hkind, htext⟩
    have hend : t.isEnd = false := Token.isEnd_eq_false_iff.mpr (by rw [hkind]; decide)
    have hlexeme := legible_of_scan hscan t ht hend
    rw [Token.Legible, hkind, htext] at hlexeme
    obtain ⟨c, ds, -, hupper, hc, hds, hcontains⟩ := hlexeme.name_of_function
    rw [Registry.contains_upper] at hcontains
    refine ⟨hcontains, IsFunctionName.map_toUpper_iff.mp ?_⟩
    rw [← Text.toList_upper, hupper, String.toList_ofList]
    exact IsFunctionName.map_toUpper_iff.mpr ⟨hc, hds⟩
  · rintro ⟨hcontains, hname⟩
    have hlexes := Engine.lexes_of_lexeme (Lexeme.of_isFunctionName hname hcontains)
    exact ⟨name, _, _, scan_of_blanks hlexes (List.forall_mem_nil _), List.mem_append_left _
      (List.mem_singleton.mpr rfl), rfl, rfl⟩

namespace Engine

variable {e : Engine} {formula : String} {tree : Tree} {token : Token} {args : List Tree}
  {span : Span} {bindings : Bindings}

/-- A tree calls only functions within reach, as each of its calls is built from a token. -/
theorem reaches_of_call_mem (h : e.parse formula = .ok tree)
    (hcall : .call (Text.upper name) token args span ∈ tree.nodes) :
    Lexer.Reaches e.registry name := by
  obtain ⟨body, c, hlexes, hblanks, hderives, -⟩ := parse_eq_ok_iff.mp h
  obtain ⟨hkind, htext⟩ := hderives.wellBuilt _ hcall
  exact ⟨formula, _, token, Lexer.scan_of_blanks hlexes hblanks,
    List.mem_append_left _ (hderives.token_mem hcall), hkind, htext.symm⟩

end Engine

/-! ## Calls with ones -/

namespace Tree

variable {bindings : Bindings} {v : Decimal} {x : Tree} {xs : List Tree} {t : Token} {span : Span}

theorem evaluate_of_withoutSpans (h : x.withoutSpans.evaluate registry bindings = .ok v) :
    x.evaluate registry bindings = .ok v := by
  rw [evaluate_withoutSpans] at h
  cases hx : x.evaluate registry bindings with
  | ok w =>
    rw [hx] at h
    exact h
  | error error =>
    rw [hx] at h
    cases h

theorem evaluateAll_replicate (h : ∀ x ∈ xs, x.evaluate registry bindings = .ok v) :
    evaluateAll registry bindings xs = .ok (List.replicate xs.length v) := by
  induction xs with
  | nil => rfl
  | cons x xs ih =>
    obtain ⟨hx, hxs⟩ := List.forall_mem_cons.mp h
    rw [evaluateAll, hx, ih hxs]
    rfl

theorem exists_call_of_withoutSpans (h : x.withoutSpans = .call name t xs span) :
    ∃ u ys span', x = .call name u ys span' ∧ ys.map withoutSpans = xs := by
  cases x with
  | call n u ys span' =>
    rw [withoutSpans, withoutSpansAll_eq] at h
    cases h
    exact ⟨u, ys, span', rfl, rfl⟩
  | leaf | unary | binary =>
    rw [withoutSpans] at h
    cases h

end Tree

namespace Engine

variable {e : Engine} {formula : String} {arity : Arity} {count : Nat}

def callOfOnes (name : String) (count : Nat) : String :=
  name ++ "(" ++ ",".intercalate (List.replicate count "1") ++ ")"

/-- What a one is read as, but for its span. -/
def oneLeaf : Tree := .leaf .number ⟨.number, "1", .emptyAt 0⟩

theorem evaluate_oneLeaf (registry : Registry) (bindings : Bindings) :
    oneLeaf.evaluate registry bindings = .ok .one := by
  have hread : Decimal.readValue? "1" = some .one := by decide +kernel
  rw [oneLeaf, Tree.evaluate, leafStep, readDecimal, hread]
  rfl

theorem parse_one (hlimit : 8 ≤ e.limit) :
    e.parse "1" = .ok (.leaf .number ⟨.number, "1", ⟨0, 1⟩⟩) := by
  have hone : Numeral "1".toList := .whole (List.cons_ne_nil _ _) (List.all_eq_true.mp rfl)
  have hread : Decimal.read? "1" = some .one := by decide +kernel
  exact parse_of_lexeme .number hlimit (lexeme_of_numeral hone hread) fun _ ↦ rfl

theorem parse_ones (hlimit : 8 ≤ e.limit) (count : Nat) :
    List.Forall₂ (fun f t ↦ e.parse f = .ok t) (List.replicate count "1")
      (List.replicate count (.leaf .number ⟨.number, "1", ⟨0, 1⟩⟩)) := by
  induction count with
  | zero => exact .nil
  | succ count ih => exact .cons (parse_one hlimit) ih

theorem exists_parse_of_shape {x : Tree} (h : e.shape formula = .ok x) :
    ∃ tree, e.parse formula = .ok tree ∧ tree.withoutSpans = x := by
  rw [shape] at h
  cases hparse : e.parse formula with
  | ok tree =>
    rw [hparse] at h
    cases h
    exact ⟨tree, rfl, rfl⟩
  | error error =>
    rw [hparse] at h
    cases h

/-- The ones take eight levels, and the parentheses of the call another eight. -/
theorem shape_callOfOnes (hname : IsFunctionName name.toList)
    (harity : e.registry.arity? name = some arity) (haccepts : arity.accepts count = true)
    (hlimit : 16 ≤ e.limit) : e.shape (callOfOnes name count) =
      .ok (.call (Text.upper name) ⟨.function, Text.upper name, .emptyAt 0⟩
        (List.replicate count oneLeaf) (.emptyAt 0)) := by
  obtain ⟨registry, limit⟩ := e
  obtain ⟨n, rfl⟩ := Nat.exists_eq_add_of_le' hlimit
  have hcontains : registry.contains name = true := by
    rw [← Registry.arity?_isSome, show registry.arity? name = some arity from harity]
    rfl
  have hupper : registry.arity? (Text.upper name) = some arity := by
    rw [Registry.arity?, Registry.get?_upper]
    exact harity
  have hones := parse_ones (e := ⟨registry, n + 8⟩) (Nat.le_add_left 8 n) count
  have hcall := (readsAs_call (Lexeme.of_isFunctionName hname hcontains) hupper
    (by rwa [List.length_replicate]) hones).of_primary
  have htext : (callOfOnes name count).toList = name.toList ++
      '(' :: ([','].intercalate ((List.replicate count "1").map String.toList) ++ [')']) := by
    simp [callOfOnes]
  rw [← htext] at hcall
  rw [shape_of_readsAs (e := ⟨registry, n + 16⟩) hcall, Tree.withoutSpans,
    Tree.withoutSpansAll_eq, List.map_replicate]
  rfl

theorem exists_parse_callOfOnes (hname : IsFunctionName name.toList)
    (harity : e.registry.arity? name = some arity) (haccepts : arity.accepts count = true)
    (hlimit : 16 ≤ e.limit) : ∃ token args span,
      e.parse (callOfOnes name count) = .ok (.call (Text.upper name) token args span) ∧
      args.map Tree.withoutSpans = List.replicate count oneLeaf ∧
      ∀ bindings, (Tree.call (Text.upper name) token args span).evaluate e.registry bindings =
        located token (callStep e.registry (Text.upper name) (List.replicate count .one)) := by
  obtain ⟨tree, hparse, hshape⟩ :=
    exists_parse_of_shape (shape_callOfOnes hname harity haccepts hlimit)
  obtain ⟨token, args, span, rfl, hargs⟩ := Tree.exists_call_of_withoutSpans hshape
  have hlength := congrArg List.length hargs
  rw [List.length_map, List.length_replicate] at hlength
  refine ⟨token, args, span, hparse, hargs, fun bindings ↦ ?_⟩
  have hones : ∀ x ∈ args, x.evaluate e.registry bindings = .ok .one := by
    intro x hx
    have hone : x.withoutSpans = oneLeaf :=
      List.eq_of_mem_replicate (hargs ▸ List.mem_map_of_mem hx)
    exact Tree.evaluate_of_withoutSpans (hone ▸ evaluate_oneLeaf e.registry bindings)
  rw [Tree.evaluate, Tree.evaluateAll_replicate hones, hlength]
  rfl

/-- **Which functions a formula can call.** Under every registry and for every name:

* Some formula is scanned with a token that names this function if and only if the name is
  registered and is a letter followed by letters and dots.
* Trees of formulas call no other functions.
* If the name is of that form and registered for a number of arguments, then a call with as many
  ones, under the name in any letter case, is parsed as such a call, and comes to what the registry
  makes of as many ones, under every limit of at least 16 and under all bindings.
* A name with a digit, an underscore, a character beyond ASCII or a dot in front is out of reach,
  registered or not. -/
theorem callable_names (registry : Registry) (name : String) :
    (Lexer.Reaches registry name ↔
      registry.contains name = true ∧ IsFunctionName name.toList) ∧
    (∀ limit formula tree, (Engine.mk registry limit).parse formula = .ok tree →
      ∀ token args span, .call (Text.upper name) token args span ∈ tree.nodes →
        Lexer.Reaches registry name) ∧
    (∀ arity count, IsFunctionName name.toList → registry.arity? name = some arity →
      arity.accepts count = true → ∀ written, Text.upper written = Text.upper name →
        ∀ limit, 16 ≤ limit → ∃ token args span,
          (Engine.mk registry limit).parse (callOfOnes written count) =
            .ok (.call (Text.upper name) token args span) ∧
          args.map Tree.withoutSpans = List.replicate count oneLeaf ∧
          ∀ bindings, (Tree.call (Text.upper name) token args span).evaluate registry bindings =
            (registry.call (Text.upper name) (List.replicate count .one)).mapError
              fun error ↦ .ofToken token (.call (Text.upper name) error)) ∧
    ((∃ c ∈ name.toList, c.isDigit = true ∨ c = '_' ∨ 127 < c.toNat) ∨
      name.toList.head? = some '.' → ¬ Lexer.Reaches registry name) := by
  refine ⟨Lexer.reaches_iff, fun limit formula tree h token args span hcall ↦ ?_, ?_, ?_⟩
  · exact reaches_of_call_mem h hcall
  · intro arity count hname harity haccepts written hwritten limit hlimit
    have hwrites := hname.of_upper_eq hwritten
    have harity' : registry.arity? written = some arity := by
      rw [← harity, Registry.arity?, Registry.arity?, ← Registry.get?_upper, hwritten,
        Registry.get?_upper]
    obtain ⟨token, args, span, hparse, hargs, hvalue⟩ :=
      exists_parse_callOfOnes (e := ⟨registry, limit⟩) hwrites harity' haccepts hlimit
    rw [hwritten] at hparse hvalue
    refine ⟨token, args, span, hparse, hargs, fun bindings ↦ (hvalue bindings).trans ?_⟩
    rw [located, callStep]
    cases registry.call (Text.upper name) (List.replicate count .one) <;> rfl
  · intro hforeign hreaches
    exact IsFunctionName.not_of_foreign hforeign (Lexer.reaches_iff.mp hreaches).2

/-- A function of one's own, under a name that can be written and under one that cannot. -/
theorem callable_names_own_function :
    let two : Decimal := ⟨false, 2, 0, by decide, by decide⟩
    let twice : Function := ⟨.exactly 1, fun args ↦ Body.orOverflow ((args.headD .zero).mul? two)⟩
    let registry := (Registry.standard.register "math.twice" twice).register "twice2" twice
    registry.contains "twice2" = true ∧ ¬ Lexer.Reaches registry "twice2" ∧
    Lexer.Reaches registry "math.twice" ∧ ∃ token args span,
      (Engine.mk registry 16).parse "Math.Twice(1)" = .ok (.call "MATH.TWICE" token args span) ∧
      (Tree.call "MATH.TWICE" token args span).evaluate registry .empty = .ok two := by
  intro two twice registry
  have hname : IsFunctionName "math.twice".toList :=
    @IsFunctionName.mk 'm' "ath.twice".toList rfl (List.all_eq_true.mp rfl)
  obtain ⟨-, -, -, hforeign⟩ := callable_names registry "twice2"
  obtain ⟨hreaches, -, hcall, -⟩ := callable_names registry "math.twice"
  obtain ⟨token, args, span, hparse, -, hvalue⟩ := hcall (.exactly 1) 1 hname (by decide +kernel)
    rfl "Math.Twice" (by decide +kernel) 16 (Nat.le_refl _)
  have hone : registry.call (Text.upper "math.twice") (List.replicate 1 .one) = .ok two := by
    decide +kernel
  refine ⟨by decide +kernel, hforeign (.inl ⟨'2', by decide, .inl rfl⟩),
    hreaches.mpr ⟨by decide +kernel, hname⟩, token, args, span, hparse, (hvalue .empty).trans ?_⟩
  rw [hone]
  rfl

end Engine

end DecimalFormula
