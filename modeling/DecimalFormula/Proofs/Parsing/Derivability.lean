import DecimalFormula.Proofs.Parsing.Completeness

/-!
# The parser accepts exactly the grammar

Up to its first end of input a list of tokens is parsed if and only if it derives, within the limit
on nesting, a tree whose calls the registry accepts; and that tree is the answer
(`Tree.ofTokens_eq_ok_iff`). With eight levels for each token the limit plays no part, and what is
left is the grammar by itself.

The parser is a function, so it settles that the grammar is unambiguous: any two derivations of one
list of tokens are followed by the same run, under a registry that permits all the names there.
-/

namespace DecimalFormula

/-! ## Registries that permit every call -/

/-- The registry in which every one of some names may also be called with any number of
arguments. -/
def Registry.alsoPermitting (r : Registry) (names : List String) : Registry :=
  r.registerAll (names.map fun name ↦ (name, Body.sum.registeredFor .any))

/-- A registry in which every one of some names may be called with any number of arguments. -/
def Registry.permitting (names : List String) : Registry :=
  .registerAll .empty (names.map fun name ↦ (name, Body.sum.registeredFor .any))

/-- Names that are not permitted are known for what they were. Others may be permitted as well, as
letter case plays no part. -/
theorem Registry.arity?_alsoPermitting (r : Registry) (names : List String) (name : String) :
    (r.alsoPermitting names).arity? name = some .any ∨
      name ∉ names ∧ (r.alsoPermitting names).arity? name = r.arity? name := by
  induction names generalizing r with
  | nil => exact .inr ⟨List.not_mem_nil, rfl⟩
  | cons other names ih =>
    rcases ih (r.register other (Body.sum.registeredFor .any)) with hany | ⟨hnot, hsame⟩
    · exact .inl hany
    · have hcons : (r.alsoPermitting (other :: names)).arity? name =
          (r.register other (Body.sum.registeredFor .any)).arity? name := hsame
      rw [hcons, arity?, get?_register]
      split
      · exact .inl rfl
      · next hne =>
        refine .inr ⟨fun hmem ↦ ?_, rfl⟩
        rcases List.mem_cons.mp hmem with rfl | hmem
        · exact hne rfl
        · exact hnot hmem

theorem Registry.arity?_alsoPermitting_of_mem (r : Registry) {names : List String} {name : String}
    (h : name ∈ names) : (r.alsoPermitting names).arity? name = some .any :=
  (r.arity?_alsoPermitting names name).resolve_right fun hnot ↦ hnot.1 h

theorem Registry.arity?_permitting {names : List String} {name : String} (h : name ∈ names) :
    (permitting names).arity? name = some .any :=
  arity?_alsoPermitting_of_mem .empty h

namespace Tree

variable {registry : Registry} {limit : Nat} {tokens body rest : List Token} {eof : Token}
  {tree : Tree}

theorem accepted_alsoPermitting (registry : Registry) {names : List String}
    (hbuilt : tree.WellBuilt) (hnames : ∀ node ∈ tree.nodes, node.token.text ∈ names) :
    tree.Accepted (registry.alsoPermitting names) := by
  intro node hnode
  have hnode' := hbuilt node hnode
  have hname := hnames node hnode
  cases node with
  | call name t args span =>
    obtain ⟨-, rfl⟩ := hnode'
    exact ⟨.any, registry.arity?_alsoPermitting_of_mem hname, rfl⟩
  | _ => trivial

theorem accepted_permitting {names : List String} (hbuilt : tree.WellBuilt)
    (hnames : ∀ node ∈ tree.nodes, node.token.text ∈ names) :
    tree.Accepted (.permitting names) :=
  accepted_alsoPermitting .empty hbuilt hnames

/-! ## The answer of a fresh parser -/

theorem ofTokens_eq (registry : Registry) (limit : Nat) (tokens : List Token) :
    ofTokens registry limit tokens =
      match Parser.parseLevel registry limit limit .disjunction (.start tokens) with
      | .done tree c =>
        if c.current.isEnd then .ok tree
        else .error ⟨.incompleteParse c.current, c.current.span, c.index⟩
      | .stop e _ _ => .error e := by
  rw [ofTokens, Parser.parse_ofTokens, Parser.wholeFormula]
  cases Parser.parseLevel registry limit limit .disjunction (.start tokens) with
  | done x c =>
    by_cases hkind : c.current.kind = .endOfInput <;> simp [Outcome.settle, Parser.fail, hkind]
  | stop e c headroom => rfl

/-- If there is no tree, the parser met a fault behind some tokens, or a whole formula in front of
others. -/
theorem exists_fault_of_ofTokens {e : ParseError} (h : ofTokens registry limit tokens = .error e) :
    ∃ passed c, (TokenCursor.start tokens).Passes passed c ∧
      ((∃ headroom, Parser.Fault registry limit passed c headroom e) ∨
        e = ⟨.incompleteParse c.current, c.current.span, c.index⟩) := by
  have hmeets : (Parser.parseLevel registry limit limit .disjunction (.start tokens)).Meets
      registry limit _ _ :=
    Parser.parseLevel_meets .disjunction (TokenCursor.closed_start tokens) (by simp)
  rw [ofTokens_eq] at h
  cases hrun : Parser.parseLevel registry limit limit .disjunction (.start tokens) with
  | done x c =>
    rw [hrun] at h hmeets
    dsimp only at h
    split at h
    · cases h
    · cases h
      obtain ⟨passed, hpassed, -⟩ := hmeets
      exact ⟨passed, c, hpassed, .inr rfl⟩
  | stop e' c headroom =>
    rw [hrun] at h hmeets
    cases h
    obtain ⟨passed, hpassed, hfault⟩ := hmeets
    exact ⟨passed, c, hpassed, .inl ⟨headroom, hfault⟩⟩

/-- Up to the first end of input, a fresh parser answers with the trees that derive within its limit
and whose calls are accepted. -/
theorem ofTokens_eq_ok_iff (htokens : TokenCursor.closed tokens = body ++ eof :: rest)
    (hbody : ∀ t ∈ body, t.isEnd = false) (heof : eof.isEnd = true) :
    ofTokens registry limit tokens = .ok tree ↔
      DerivesWithin limit .disjunction body tree ∧ tree.Accepted registry := by
  have hpass : (TokenCursor.start tokens).Passes body
      ⟨(TokenCursor.start tokens).index + body.length, eof, rest⟩ :=
    ⟨(TokenCursor.tokens_start tokens).trans htokens, rfl, hbody⟩
  have hrun : ofTokens registry limit tokens = .ok tree ↔ ∃ c,
      Parser.parseLevel registry limit limit .disjunction (.start tokens) = .done tree c ∧
        c.current.isEnd = true := by
    rw [ofTokens_eq]
    cases Parser.parseLevel registry limit limit .disjunction (.start tokens) with
    | done x c => by_cases hkind : c.current.kind = .endOfInput <;> simp [hkind]
    | stop e c headroom => simp
  rw [hrun]
  constructor
  · rintro ⟨c, hparse, hend⟩
    have hmeets : (Parser.parseLevel registry limit limit .disjunction (.start tokens)).Meets
        registry limit _ _ :=
      Parser.parseLevel_meets .disjunction (TokenCursor.closed_start tokens) (by simp)
    rw [hparse] at hmeets
    obtain ⟨ts, hts, hreads⟩ := hmeets
    rwa [hts.eq_of_isEnd hpass hend heof] at hreads
  · rintro ⟨hderives, haccepted⟩
    refine ⟨_, Parser.parseLevel_of_derivesWithin hderives haccepted hpass ?_, heof⟩
    rw [TokenCursor.kind, Token.isEnd_iff.mp heof]
    exact Level.endsBefore_of_ofKind?_eq_none rfl

theorem ofTokens_append_eq_ok_iff (hbody : ∀ t ∈ body, t.isEnd = false) (heof : eof.isEnd = true) :
    ofTokens registry limit (body ++ [eof]) = .ok tree ↔
      DerivesWithin limit .disjunction body tree ∧ tree.Accepted registry := by
  exact ofTokens_eq_ok_iff (TokenCursor.closed_append heof) hbody heof

end Tree

theorem Derives.unique {xs : List Token} {x y : Tree} (hx : Derives .disjunction xs x)
    (hy : Derives .disjunction xs y) : x = y := by
  have hwithin := hx.within (n := 8 * xs.length) (by simp)
  -- A parser that knows all the names and has headroom enough answers with either tree.
  have hanswer : ∀ {z}, Derives .disjunction xs z → Tree.ofTokens
      (.permitting (xs.map Token.text)) (8 * xs.length) (xs ++ [.endAt 0]) = .ok z := by
    intro z hz
    have hz := hz.within (n := 8 * xs.length) (by simp)
    rw [Tree.ofTokens_append_eq_ok_iff (fun t ht ↦ hwithin.isEnd_eq_false ht) rfl]
    exact ⟨hz, Tree.accepted_permitting hz.wellBuilt fun node hnode ↦
      List.mem_map_of_mem (hz.token_mem hnode)⟩
  exact Except.ok.inj ((hanswer hx).symm.trans (hanswer hy))

/-- On tokens with one end of input, at their end, a fresh parser with eight levels for every token
answers with a tree exactly if the grammar derives it, every function name is registered, and every
call has as many arguments as its function takes. The grammar derives at most one tree, and its
nodes hold all the tokens but parentheses and commas, each once and in order. -/
theorem ofTokens_eq_ok_iff_derives {registry : Registry} {limit : Nat} {body : List Token}
    {eof : Token} (hbody : ∀ t ∈ body, t.isEnd = false) (heof : eof.isEnd = true)
    (hlimit : 8 * (body ++ [eof]).length ≤ limit) :
    (∀ tree, Tree.ofTokens registry limit (body ++ [eof]) = .ok tree ↔
      Derives .disjunction body tree ∧
      (∀ t ∈ body, t.kind = .function → registry.contains t.text = true) ∧
      ∀ name t args span, .call name t args span ∈ tree.nodes →
        ∀ arity, registry.arity? name = some arity → arity.accepts args.length = true) ∧
    (∀ x y, Derives .disjunction body x → Derives .disjunction body y → x = y) ∧
    ∀ x, Derives .disjunction body x → x.inorder = body.filter fun t ↦ !t.isPunctuation := by
  refine ⟨fun tree ↦ ?_, fun x y ↦ Derives.unique, fun x hx ↦ ?_⟩
  · rw [Tree.ofTokens_append_eq_ok_iff hbody heof]
    constructor
    · rintro ⟨hderives, haccepted⟩
      refine ⟨hderives.derives, fun t ht hkind ↦ ?_, fun name t args span hnode arity harity ↦ ?_⟩
      · obtain ⟨args, span, hnode⟩ := hderives.exists_call ht hkind
        obtain ⟨arity, harity, -⟩ := haccepted _ hnode
        rw [← Registry.arity?_isSome, harity]
        rfl
      · obtain ⟨arity', harity', haccepts⟩ := haccepted _ hnode
        rw [harity, Option.some.injEq] at harity'
        rwa [harity']
    · rintro ⟨hderives, hregistered, harities⟩
      rw [List.length_append, List.length_singleton] at hlimit
      -- The limit is high enough for every derivation from these tokens.
      have hwithin := hderives.within (n := limit) (by omega)
      refine ⟨hwithin, fun node hnode ↦ ?_⟩
      have hbuilt := hwithin.wellBuilt node hnode
      have htoken := hwithin.token_mem hnode
      cases node with
      | call name t args span =>
        obtain ⟨hkind, rfl⟩ := hbuilt
        have hcontains := hregistered t htoken hkind
        rw [← Registry.arity?_isSome] at hcontains
        obtain ⟨arity, harity⟩ := Option.isSome_iff_exists.mp hcontains
        exact ⟨arity, harity, harities _ _ _ _ hnode arity harity⟩
      | _ => trivial
  · exact (hx.within (n := 8 * body.length) (by simp)).inorder_eq

/-- The formula `-ABS({x})^2`: the sign covers the whole power. -/
theorem ofTokens_sign_call_power :
    let sign : Token := ⟨.minus, "-", ⟨0, 1⟩⟩
    let name : Token := ⟨.function, "ABS", ⟨1, 4⟩⟩
    let x : Token := ⟨.identifier, "x", ⟨6, 7⟩⟩
    let caret : Token := ⟨.power, "^", ⟨9, 10⟩⟩
    let two : Token := ⟨.number, "2", ⟨10, 11⟩⟩
    Tree.ofTokens .standard 64 ([sign, name, ⟨.leftParen, "(", ⟨4, 5⟩⟩, x,
        ⟨.rightParen, ")", ⟨8, 9⟩⟩, caret, two] ++ [.endAt 11]) =
      .ok (.mkUnary .minus sign
        (.mkBinary .power caret (.call "ABS" name [.leaf .identifier x] ⟨1, 9⟩)
          (.leaf .number two))) := by
  intro sign name x caret two
  refine ((ofTokens_eq_ok_iff_derives (by decide) rfl (by decide)).1 _).mpr ⟨?_, by decide, ?_⟩
  · have hx : Derives .disjunction [x] (.leaf .identifier x) :=
      .disjunction_single <| .conjunction_single <| .negation_single <| .comparison_single <|
        .sum_single <| .product_single <| .power_single <| .identifier rfl
    have hcall : Derives .primary _ (.call "ABS" name [.leaf .identifier x] ⟨1, 9⟩) :=
      .call (f := name) (t := ⟨.leftParen, "(", ⟨4, 5⟩⟩) (u := ⟨.rightParen, ")", ⟨8, 9⟩⟩) rfl rfl
        hx (List.forall_mem_nil _) (List.forall_mem_nil _) rfl
    exact .disjunction_single <| .conjunction_single <| .negation_single <| .comparison_single <|
      .sum_single <| .product_single <| .power_sign ⟨rfl, by decide⟩ <|
        .power_join hcall ⟨rfl, by decide⟩ <| .power_single <| .number rfl
  · intro f t args span hnode arity harity
    simp only [Tree.nodes, Tree.mkUnary, Tree.mkBinary, Tree.preorder, Tree.preorderAll,
      List.cons_append, List.nil_append, List.map_cons, List.map_nil, List.mem_cons, reduceCtorEq,
      Tree.call.injEq, List.not_mem_nil, false_or, or_false] at hnode
    obtain ⟨rfl, rfl, rfl, rfl⟩ := hnode
    rw [show Registry.standard.arity? "ABS" = some (.exactly 1) from by decide] at harity
    cases harity
    rfl

end DecimalFormula
