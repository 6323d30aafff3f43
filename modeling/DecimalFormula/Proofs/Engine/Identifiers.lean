import DecimalFormula.Proofs.Engine.Failure
import Mathlib.Data.List.Induction

/-!
# The identifiers of a tree

The identifiers of a tree are reported without evaluating it. The report says what a formula names,
in the order in which the formula names it, and nothing but the texts bound to these names can make
a difference to an evaluation (`Tree.identifiers_bound_evaluation`).

Evaluation leaves out no node, so it reads all of them as well: a tree has no value unless every
name in it is bound to a number.

The report comes of one pass over the tree, which adds a name to those that were met unless it is
among them. So it holds the names at the identifiers of the tree (`Tree.occurrences`), each at its
first occurrence (`Tree.identifiers_eq`).
-/

namespace DecimalFormula

/-- The texts of the identifiers among some tokens, as often as they occur. -/
def identifierTexts (tokens : List Token) : List String :=
  (tokens.filter fun t ↦ t.kind == .identifier).map Token.text

theorem identifierTexts_append (us ts : List Token) :
    identifierTexts (us ++ ts) = identifierTexts us ++ identifierTexts ts := by
  rw [identifierTexts, List.filter_append, List.map_append, identifierTexts, identifierTexts]

theorem identifierTexts_cons_of_ne {t : Token} (h : t.kind ≠ .identifier) (ts : List Token) :
    identifierTexts (t :: ts) = identifierTexts ts := by
  rw [identifierTexts, List.filter_cons_of_neg (by simpa using h), identifierTexts]

theorem identifierTexts_flatMap {α : Type} (f : α → List Token) (xs : List α) :
    identifierTexts (xs.flatMap f) = xs.flatMap fun x ↦ identifierTexts (f x) := by
  rw [identifierTexts, List.filter_flatMap, List.map_flatMap]
  rfl

theorem identifierTexts_filter (ts : List Token) :
    identifierTexts (ts.filter fun t ↦ !t.isPunctuation) = identifierTexts ts := by
  rw [identifierTexts, identifierTexts, List.filter_filter]
  congr 1
  refine List.filter_congr fun t _ ↦ ?_
  cases hkind : t.kind == .identifier with
  | false => rfl
  | true => simp [Token.isPunctuation, beq_iff_eq.mp hkind]

/-! ## Names without repetitions -/

/-- A name that is not there yet stands behind all the others. -/
theorem eraseDups_append_singleton (names : List String) (name : String) :
    (names ++ [name]).eraseDups = Tree.addName names.eraseDups name := by
  rw [List.eraseDups_append, Tree.addName]
  by_cases hname : name ∈ names
  · have hrest : [name].removeAll names = [] := by simp [List.removeAll, hname]
    rw [hrest, List.eraseDups_nil, List.append_nil, if_pos (by simpa using hname)]
  · have hrest : ([name].removeAll names).eraseDups = [name] := by
      simp [List.removeAll, hname, List.eraseDups_cons]
    rw [hrest, if_neg (by simpa using hname)]

theorem pairwise_idxOf_eraseDups (names : List String) :
    names.eraseDups.Pairwise fun a b ↦ names.idxOf a < names.idxOf b := by
  induction names using List.reverseRecOn with
  | nil => exact .nil
  | append_singleton names name ih =>
    have hbefore {a : String} (ha : a ∈ names.eraseDups) :
        (names ++ [name]).idxOf a = names.idxOf a :=
      List.idxOf_append_of_mem (List.mem_eraseDups.mp ha)
    have hnames : names.eraseDups.Pairwise fun a b ↦
        (names ++ [name]).idxOf a < (names ++ [name]).idxOf b := by
      refine ih.imp_of_mem fun ha hb hlt ↦ ?_
      rwa [hbefore ha, hbefore hb]
    rw [eraseDups_append_singleton, Tree.addName]
    split
    · exact hnames
    · next hname =>
      have hname : name ∉ names := by simpa using hname
      refine List.pairwise_append.mpr ⟨hnames, List.pairwise_singleton _ _, fun a ha b hb ↦ ?_⟩
      obtain rfl := List.mem_singleton.mp hb
      rw [hbefore ha, List.idxOf_append_of_notMem hname, List.idxOf_cons_self, Nat.add_zero]
      exact List.idxOf_lt_length_of_mem (List.mem_eraseDups.mp ha)

namespace Tree

variable {registry : Registry} {bindings bindings' : Bindings} {tree : Tree} {name : String}

mutual

/-- The names at the identifiers of a tree, from left to right and as often as they occur. -/
def occurrences : Tree → List String
  | leaf .number _ => []
  | leaf .identifier t => [t.text]
  | unary _ _ x _ => occurrences x
  | binary _ _ l r _ => occurrences l ++ occurrences r
  | call _ _ args _ => occurrencesAll args

def occurrencesAll : List Tree → List String
  | [] => []
  | x :: xs => occurrences x ++ occurrencesAll xs

end

theorem occurrencesAll_eq (xs : List Tree) : occurrencesAll xs = xs.flatMap occurrences := by
  induction xs with
  | nil => rfl
  | cons x xs ih => rw [occurrencesAll, ih, List.flatMap_cons]

/-- To collect the names of a tree is to go through all occurrences and leave out repetitions. -/
theorem collectNames_eraseDups (tree : Tree) (names : List String) :
    tree.collectNames names.eraseDups = (names ++ tree.occurrences).eraseDups := by
  induction tree generalizing names with
  | leaf kind t =>
    cases kind with
    | number => rw [collectNames, occurrences, List.append_nil]
    | identifier => rw [collectNames, occurrences, eraseDups_append_singleton]
  | unary _ _ x _ ih => rw [collectNames, occurrences, ih]
  | binary _ _ l r _ ihl ihr =>
    rw [collectNames, occurrences, ihl, ihr, List.append_assoc]
  | call _ _ args _ ih =>
    rw [collectNames, occurrences]
    induction args generalizing names with
    | nil => rw [collectNamesAll, occurrencesAll, List.append_nil]
    | cons x xs ihxs =>
      obtain ⟨hx, hxs⟩ := List.forall_mem_cons.mp ih
      rw [collectNamesAll, occurrencesAll, hx, ihxs hxs, List.append_assoc]

theorem identifiers_eq (tree : Tree) : tree.identifiers = tree.occurrences.eraseDups :=
  collectNames_eraseDups tree []

/-! ## Identifiers among the nodes -/

theorem mem_identifiers_iff : name ∈ tree.identifiers ↔ name ∈ tree.occurrences := by
  rw [identifiers_eq, List.mem_eraseDups]

theorem mem_occurrences_iff : name ∈ tree.occurrences ↔
    ∃ t, leaf .identifier t ∈ tree.nodes ∧ t.text = name := by
  induction tree with
  | leaf kind t => cases kind <;> simp [occurrences, nodes_eq, eq_comm]
  | unary o t x span ih => simp [occurrences, nodes_eq (unary o t x span), ih]
  | binary o t l r span ihl ihr =>
    simp [occurrences, nodes_eq (binary o t l r span), ihl, ihr, or_and_right, exists_or]
  | call n t args span ih =>
    simp only [occurrences, occurrencesAll_eq, nodes_eq (call n t args span), List.mem_flatMap,
      List.mem_cons, children_call, reduceCtorEq, false_or]
    constructor
    · rintro ⟨x, hx, hname⟩
      obtain ⟨u, hu, htext⟩ := (ih x hx).mp hname
      exact ⟨u, ⟨x, hx, hu⟩, htext⟩
    · rintro ⟨u, ⟨x, hx, hu⟩, htext⟩
      exact ⟨x, hx, (ih x hx).mpr ⟨u, hu, htext⟩⟩

theorem identifierTexts_inorder (h : tree.WellBuilt) :
    identifierTexts tree.inorder = tree.occurrences := by
  induction tree with
  | leaf kind t =>
    obtain ⟨hkind, -⟩ := wellBuilt_iff.mp h
    cases kind with
    | number =>
      have hkind : t.kind = .number := hkind
      simp [identifierTexts, inorder, occurrences, hkind]
    | identifier =>
      have hkind : t.kind = .identifier := hkind
      simp [identifierTexts, inorder, occurrences, hkind]
  | unary o t x span ih =>
    obtain ⟨hself, hchildren⟩ := wellBuilt_iff.mp h
    have hkind : t.kind ≠ .identifier := by
      intro hkind
      rw [BuiltFromToken, hkind] at hself
      cases hself
    rw [inorder, identifierTexts_cons_of_ne hkind, ih (hchildren x (by simp)), occurrences]
  | binary o t l r span ihl ihr =>
    obtain ⟨hself, hchildren⟩ := wellBuilt_iff.mp h
    have hkind : t.kind ≠ .identifier := by
      intro hkind
      rw [BuiltFromToken, hkind] at hself
      cases hself
    rw [inorder, identifierTexts_append, identifierTexts_cons_of_ne hkind,
      ihl (hchildren l (by simp)), ihr (hchildren r (by simp)), occurrences]
  | call name t args span ih =>
    obtain ⟨⟨hkind, -⟩, hchildren⟩ := wellBuilt_iff.mp h
    rw [inorder, identifierTexts_cons_of_ne (by simp [hkind]), inorderAll_eq,
      identifierTexts_flatMap, occurrences, occurrencesAll_eq]
    exact List.flatMap_congr fun x hx ↦ ih x hx (hchildren x hx)

/-! ## What an evaluation reads -/

theorem evaluate_congr (h : ∀ name ∈ tree.occurrences, bindings.get? name = bindings'.get? name) :
    tree.evaluate registry bindings = tree.evaluate registry bindings' := by
  induction tree with
  | leaf kind t =>
    cases kind with
    | number => rfl
    | identifier =>
      rw [evaluate, evaluate, leafStep, leafStep, h t.text (by simp [occurrences])]
  | unary o t x span ih =>
    rw [evaluate, evaluate, ih h]
  | binary o t l r span ihl ihr =>
    rw [occurrences] at h
    have hl := ihl fun name hname ↦ h name (List.mem_append_left _ hname)
    have hr := ihr fun name hname ↦ h name (List.mem_append_right _ hname)
    rw [evaluate, evaluate, hl, hr]
  | call n t args span ih =>
    rw [occurrences, occurrencesAll_eq] at h
    have hargs : ∀ x ∈ args, x.evaluate registry bindings = x.evaluate registry bindings' :=
      fun x hx ↦ ih x hx fun name hname ↦ h name (List.mem_flatMap.mpr ⟨x, hx, hname⟩)
    rw [evaluate, evaluate, evaluateAll_congr (List.forall₂_same.mpr hargs)]

theorem bound_of_evaluate {value : Decimal} (h : tree.evaluate registry bindings = .ok value)
    (hname : name ∈ tree.occurrences) :
    ∃ bound number, bindings.get? name = some bound ∧ Decimal.readValue? bound = some number := by
  obtain ⟨t, hnode, rfl⟩ := mem_occurrences_iff.mp hname
  obtain ⟨⟨_, above⟩, hplace, rfl⟩ := exists_mem_postorder hnode
  obtain ⟨v, hv⟩ := (evaluate_eq_ok_iff.mp h).of_mem_postorder [] _ hplace
  obtain ⟨values, -, hown⟩ := stepsTo_ok_iff.mpr hv
  cases hown with
  | bound hbound hread => exact ⟨_, v, hbound, hread⟩

/-- Only an identifier can be missing. -/
theorem leaf_of_missingIdentifier
    (h : StepsTo registry bindings tree (.error (.missingIdentifier name))) :
    ∃ t, tree = leaf .identifier t ∧ t.text = name ∧ bindings.get? name = none := by
  obtain ⟨values, -, hown⟩ := h
  cases tree with
  | leaf =>
    cases hown with
    | unbound hbound => exact ⟨_, rfl, rfl, hbound⟩
  | unary => cases hown
  | binary =>
    obtain ⟨_, _, _, _, _, hcause⟩ := ownStep_binary_error hown
    cases hcause
  | call =>
    obtain ⟨_, _, hcause⟩ := ownStep_call_error hown
    cases hcause

theorem missing_of_evaluate {error : EvalError}
    (h : tree.evaluate registry bindings = .error error)
    (hcause : error.cause = .missingIdentifier name) :
    name ∈ tree.occurrences ∧ bindings.get? name = none := by
  obtain ⟨p, cause, inner, ⟨before, after, hplaces, -, hstep⟩, -, rfl⟩ :=
    blames_of_evaluate_eq_error h []
  obtain rfl : cause = .missingIdentifier name := hcause
  obtain ⟨t, hleaf, htext, hbound⟩ := leaf_of_missingIdentifier hstep
  have hplace : p ∈ postorder [] tree := by simp [hplaces]
  have hnode : leaf .identifier t ∈ tree.nodes := hleaf ▸ (mem_nodes_of_mem_postorder hplace).1
  exact ⟨mem_occurrences_iff.mpr ⟨t, hnode, htext⟩, hbound⟩

/-! ## What a formula names -/

/-- The names in a tree that was read from a formula are those of the formula, in their order. -/
theorem exists_identifierTexts_of_parse {e : Engine} {formula : String}
    (h : e.parse formula = .ok tree) :
    ∃ tokens, Lexer.scan e.registry formula = .ok tokens ∧
      tree.occurrences = identifierTexts tokens := by
  obtain ⟨body, c, hlexes, hblanks, hderives, -⟩ := Engine.parse_eq_ok_iff.mp h
  refine ⟨_, Lexer.scan_of_blanks hlexes hblanks, ?_⟩
  rw [← identifierTexts_inorder hderives.wellBuilt, hderives.inorder_eq, identifierTexts_filter,
    identifierTexts_append]
  exact (List.append_nil _).symm

/-- **Identifiers.** The identifiers of a tree that was read from a formula are the texts of the
identifiers among its tokens, each once and in the order of their first occurrences.

Under any registry these names are what an evaluation of the tree reads. Bindings that agree on them
give the same value or the same error, spans and frames included; if there is a value, each of them
is bound to a number; and an identifier that is reported missing is one of them and not bound. -/
theorem identifiers_bound_evaluation (tree : Tree) :
    (∀ (e : Engine) (formula : String), e.parse formula = .ok tree →
      ∃ tokens, Lexer.scan e.registry formula = .ok tokens ∧
        tree.identifiers = (identifierTexts tokens).eraseDups ∧
        (∀ name, name ∈ tree.identifiers ↔ name ∈ identifierTexts tokens) ∧
        tree.identifiers.Pairwise fun a b ↦
          (identifierTexts tokens).idxOf a < (identifierTexts tokens).idxOf b) ∧
    ∀ registry : Registry,
      (∀ bindings bindings' : Bindings,
        (∀ name ∈ tree.identifiers, bindings.get? name = bindings'.get? name) →
        tree.evaluate registry bindings = tree.evaluate registry bindings') ∧
      (∀ bindings value, tree.evaluate registry bindings = .ok value →
        ∀ name ∈ tree.identifiers, ∃ bound number,
          bindings.get? name = some bound ∧ Decimal.readValue? bound = some number) ∧
      ∀ bindings error name, tree.evaluate registry bindings = .error error →
        error.cause = .missingIdentifier name →
        name ∈ tree.identifiers ∧ bindings.get? name = none := by
  simp only [mem_identifiers_iff]
  refine ⟨fun e formula h ↦ ?_, fun registry ↦ ⟨fun bindings bindings' ↦ evaluate_congr, ?_, ?_⟩⟩
  · obtain ⟨tokens, hscan, htexts⟩ := exists_identifierTexts_of_parse h
    rw [identifiers_eq, htexts]
    exact ⟨tokens, hscan, rfl, fun name ↦ Iff.rfl, pairwise_idxOf_eraseDups _⟩
  · intro bindings value h name
    exact bound_of_evaluate h
  · intro bindings error name h hcause
    exact missing_of_evaluate h hcause

/-- The sum of `b` and `a` times `b` names `b` first and once, what `c` is bound to makes no
difference to it, and without `a` it has no value. -/
theorem identifiers_bound_evaluation_repeated :
    let formula := "\x7bb\x7d+\x7ba\x7d*\x7bb\x7d"
    let tree : Tree := .mkBinary .add ⟨.plus, "+", ⟨3, 4⟩⟩
      (.leaf .identifier ⟨.identifier, "b", ⟨1, 2⟩⟩)
      (.mkBinary .multiply ⟨.times, "*", ⟨7, 8⟩⟩ (.leaf .identifier ⟨.identifier, "a", ⟨5, 6⟩⟩)
        (.leaf .identifier ⟨.identifier, "b", ⟨9, 10⟩⟩))
    let bindings : Bindings := .ofList [("a", "3"), ("b", "2")]
    Engine.standard.parse formula = .ok tree ∧
    (∃ tokens, Lexer.scan .standard formula = .ok tokens ∧
      (identifierTexts tokens).eraseDups = ["b", "a"]) ∧
    tree.evaluate .standard (bindings.insert "c" "none") = tree.evaluate .standard bindings ∧
    (∃ bound number, bindings.get? "a" = some bound ∧ Decimal.readValue? bound = some number) ∧
    "a" ∈ tree.identifiers ∧ NameMap.get? (bindings.erase "a") "a" = none := by
  intro formula tree bindings
  have hparse : Engine.standard.parse formula = .ok tree := by decide +kernel
  have hnames : tree.identifiers = ["b", "a"] := by decide +kernel
  have hvalue : tree.evaluate .standard bindings = .ok ⟨false, 8, 0, by decide, by decide⟩ := by
    decide +kernel
  have hmissing : tree.evaluate .standard (bindings.erase "a") =
      .error ⟨.missingIdentifier "a", ⟨5, 6⟩, [⟨"*", ⟨7, 8⟩⟩, ⟨"+", ⟨3, 4⟩⟩]⟩ := by decide +kernel
  obtain ⟨hread, hevaluate⟩ := identifiers_bound_evaluation tree
  obtain ⟨hsame, hbound, herror⟩ := hevaluate .standard
  obtain ⟨tokens, hscan, htexts, -⟩ := hread Engine.standard formula hparse
  refine ⟨hparse, ⟨tokens, hscan, htexts ▸ hnames⟩, hsame _ _ ?_, ?_, ?_⟩
  · rw [hnames]
    decide +kernel
  · exact hbound bindings _ hvalue "a" (by rw [hnames]; decide)
  · exact herror _ _ "a" hmissing rfl

end Tree

end DecimalFormula
