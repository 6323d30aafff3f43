import DecimalFormula.Evaluation
import DecimalFormula.Proofs.Tree.Places
import Mathlib.Data.List.Forall2

/-!
# The order of evaluation

What a tree is worth is said here without an evaluator: a node has a value when its own step gives
one on the values of its children (`Tree.HasValue`). The evaluator agrees, and when there is no
value it reports one node: the first in postorder whose own step fails on the values of its
children. Nothing is left out in front of that node and nothing behind it counts.

## The invariant

An error carries a frame for every application it has passed through. Inside the tree the frames
are those of the path from the failing node up to the subtree that has been left so far. The path
of a place therefore is split in two: what lies inside the subtree, which the frames record, and
what lies above it, which they do not record yet (`Tree.Blames`).
-/

namespace DecimalFormula

namespace Tree

variable {registry : Registry} {bindings : Bindings}

/-! ## The own step of a node -/

/-- What the step of a node by itself comes to, given as many values as the node has children. -/
inductive OwnStep (registry : Registry) (bindings : Bindings) :
    Tree → List Decimal → Except EvalCause Decimal → Prop
  /-- A number is worth its text. -/
  | number {token value} : Decimal.readValue? token.text = some value →
    OwnStep registry bindings (leaf .number token) [] (.ok value)
  | malformedNumber {token} : Decimal.readValue? token.text = none →
    OwnStep registry bindings (leaf .number token) [] (.error (.malformedDecimal token.text))
  /-- An identifier is worth the text that is bound to it. -/
  | bound {token text value} : bindings.get? token.text = some text →
    Decimal.readValue? text = some value →
    OwnStep registry bindings (leaf .identifier token) [] (.ok value)
  | malformedBound {token text} : bindings.get? token.text = some text →
    Decimal.readValue? text = none →
    OwnStep registry bindings (leaf .identifier token) [] (.error (.malformedDecimal text))
  | unbound {token} : bindings.get? token.text = none →
    OwnStep registry bindings (leaf .identifier token) [] (.error (.missingIdentifier token.text))
  | unary {operator token operand span x} :
    OwnStep registry bindings (unary operator token operand span) [x] (.ok (operator.apply x))
  | binary {operator token left right span x y} :
    OwnStep registry bindings (binary operator token left right span) [x, y]
      ((operator.apply x y).mapError .operation)
  | call {name token args span values} :
    OwnStep registry bindings (call name token args span) values
      ((registry.call name values).mapError (.call name))

theorem ownStep_leaf_iff {kind : LeafKind} {token : Token} {values : List Decimal}
    {r : Except EvalCause Decimal} : OwnStep registry bindings (leaf kind token) values r ↔
      values = [] ∧ r = leafStep bindings kind token.text := by
  constructor
  · intro h
    refine ⟨by cases h <;> rfl, ?_⟩
    cases h with
    | number hread | malformedNumber hread => rw [leafStep, readDecimal, hread]
    | bound hbound hread | malformedBound hbound hread =>
      rw [leafStep, hbound]
      dsimp only
      rw [readDecimal, hread]
    | unbound hbound => rw [leafStep, hbound]
  · rintro ⟨rfl, rfl⟩
    cases kind with
    | number =>
      rw [leafStep, readDecimal]
      split
      · next hread => exact .number hread
      · next hread => exact .malformedNumber hread
    | identifier =>
      rw [leafStep]
      split
      · next hbound =>
        rw [readDecimal]
        split
        · next hread => exact .bound hbound hread
        · next hread => exact .malformedBound hbound hread
      · next hbound => exact .unbound hbound

theorem OwnStep.unique {tree : Tree} {values : List Decimal} {r r' : Except EvalCause Decimal}
    (h : OwnStep registry bindings tree values r) (h' : OwnStep registry bindings tree values r') :
    r = r' := by
  cases tree with
  | leaf => exact (ownStep_leaf_iff.mp h).2.trans (ownStep_leaf_iff.mp h').2.symm
  | unary | binary | call => cases h; cases h'; rfl

theorem ownStep_binary_error {operator : BinaryOp} {token : Token} {left right : Tree} {span : Span}
    {values : List Decimal} {cause : EvalCause}
    (h : OwnStep registry bindings (binary operator token left right span) values (.error cause)) :
    ∃ x y error, values = [x, y] ∧ operator.apply x y = .error error ∧
      cause = .operation error := by
  generalize houtcome : (Except.error cause : Except EvalCause Decimal) = outcome at h
  cases h with
  | @binary _ _ _ _ _ x y =>
    cases happly : operator.apply x y with
    | ok => rw [happly] at houtcome; cases houtcome
    | error error => rw [happly] at houtcome; cases houtcome; exact ⟨x, y, error, rfl, happly, rfl⟩

theorem ownStep_call_error {name : String} {token : Token} {args : List Tree} {span : Span}
    {values : List Decimal} {cause : EvalCause}
    (h : OwnStep registry bindings (call name token args span) values (.error cause)) :
    ∃ error, registry.call name values = .error error ∧ cause = .call name error := by
  generalize houtcome : (Except.error cause : Except EvalCause Decimal) = outcome at h
  cases h with
  | call =>
    cases hcall : registry.call name values with
    | ok => rw [hcall] at houtcome; cases houtcome
    | error error => rw [hcall] at houtcome; cases houtcome; exact ⟨error, rfl, rfl⟩

theorem exists_ownStep (registry : Registry) (bindings : Bindings) (tree : Tree)
    {values : List Decimal} (h : values.length = tree.children.length) :
    ∃ r, OwnStep registry bindings tree values r := by
  cases tree with
  | leaf => exact ⟨_, ownStep_leaf_iff.mpr ⟨List.length_eq_zero_iff.mp h, rfl⟩⟩
  | unary =>
    obtain ⟨x, rfl⟩ := List.length_eq_one_iff.mp h
    exact ⟨_, .unary⟩
  | binary =>
    obtain ⟨x, y, rfl⟩ := List.length_eq_two.mp h
    exact ⟨_, .binary⟩
  | call => exact ⟨_, .call⟩

/-- A tree has a value if its children have values on which its own step gives that value. -/
inductive HasValue (registry : Registry) (bindings : Bindings) : Tree → Decimal → Prop
  | node {tree values value} : List.Forall₂ (HasValue registry bindings) tree.children values →
    OwnStep registry bindings tree values (.ok value) → HasValue registry bindings tree value

/-- The children of a node have values, and on them its own step comes to the given outcome. -/
def StepsTo (registry : Registry) (bindings : Bindings) (tree : Tree)
    (outcome : Except EvalCause Decimal) : Prop :=
  ∃ values, List.Forall₂ (HasValue registry bindings) tree.children values ∧
    OwnStep registry bindings tree values outcome

theorem stepsTo_ok_iff {tree : Tree} {value : Decimal} :
    StepsTo registry bindings tree (.ok value) ↔ HasValue registry bindings tree value :=
  ⟨fun ⟨_, hchildren, hown⟩ ↦ .node hchildren hown, fun ⟨hchildren, hown⟩ ↦ ⟨_, hchildren, hown⟩⟩

/-! ## The evaluator by children

Each of the four shapes of node treats its children alike: their values are computed from left to
right, an error among them passes through the node, and otherwise the own step is taken. -/

theorem evaluateAll_eq_ok_iff {R : Tree → Decimal → Prop} {xs : List Tree} {values : List Decimal}
    (h : ∀ x ∈ xs, ∀ v, evaluate registry bindings x = .ok v ↔ R x v) :
    evaluateAll registry bindings xs = .ok values ↔ List.Forall₂ R xs values := by
  induction xs generalizing values with
  | nil =>
    rw [evaluateAll, List.forall₂_nil_left_iff]
    exact ⟨fun h ↦ (Except.ok.inj h).symm, fun h ↦ by rw [h]⟩
  | cons x xs ih =>
    have ih : ∀ {us}, evaluateAll registry bindings xs = .ok us ↔ List.Forall₂ R xs us :=
      ih fun y hy ↦ h y (List.mem_cons_of_mem _ hy)
    have hhead := h x List.mem_cons_self
    rw [evaluateAll, List.forall₂_cons_left_iff]
    cases hx : evaluate registry bindings x with
    | error e => simp [Except.bind, ← hhead, hx]
    | ok v =>
      have hv : ∀ w, R x w ↔ v = w := fun w ↦ by rw [← hhead, hx, Except.ok.injEq]
      cases hxs : evaluateAll registry bindings xs with
      | error e => simp [Except.bind, Except.map, ← ih, hxs]
      | ok vs =>
        have hvs : ∀ us, List.Forall₂ R xs us ↔ vs = us := fun us ↦ by
          rw [← ih, hxs, Except.ok.injEq]
        simp [Except.bind, Except.map, hv, hvs, eq_comm]

theorem evaluateAll_congr {registry' : Registry} {bindings' : Bindings} {xs ys : List Tree}
    (h : List.Forall₂
      (fun x y ↦ evaluate registry bindings x = evaluate registry' bindings' y) xs ys) :
    evaluateAll registry bindings xs = evaluateAll registry' bindings' ys := by
  induction h with
  | nil => rfl
  | cons hxy _ ih => rw [evaluateAll, evaluateAll, hxy, ih]

theorem evaluate_of_children_error {tree : Tree} {e : EvalError}
    (h : evaluateAll registry bindings tree.children = .error e) :
    evaluate registry bindings tree = .error (e.through tree.token) := by
  cases tree with
  | leaf => cases h
  | unary operator token operand span =>
    rw [children_unary, evaluateAll] at h
    rw [evaluate]
    cases hx : evaluate registry bindings operand with
    | error e' => rw [hx] at h; cases h; rfl
    | ok x => rw [hx] at h; cases h
  | binary operator token left right span =>
    rw [children_binary, evaluateAll, evaluateAll] at h
    rw [evaluate]
    cases hl : evaluate registry bindings left with
    | error e' => rw [hl] at h; cases h; rfl
    | ok x =>
      rw [hl] at h
      cases hr : evaluate registry bindings right with
      | error e' => rw [hr] at h; cases h; rfl
      | ok y => rw [hr] at h; cases h
  | call name token args span =>
    rw [children_call] at h
    rw [evaluate, h]
    rfl

theorem evaluate_of_children_ok {tree : Tree} {values : List Decimal}
    {outcome : Except EvalCause Decimal}
    (h : evaluateAll registry bindings tree.children = .ok values)
    (hown : OwnStep registry bindings tree values outcome) :
    evaluate registry bindings tree = located tree.token outcome := by
  have hchildren := (evaluateAll_eq_ok_iff fun _ _ _ ↦ Iff.rfl).mp h
  cases tree with
  | leaf => rw [evaluate, token, (ownStep_leaf_iff.mp hown).2]
  | unary =>
    cases hown
    rw [children_unary, List.forall₂_cons] at hchildren
    rw [evaluate, hchildren.1]
    rfl
  | binary =>
    cases hown
    rw [children_binary, List.forall₂_cons, List.forall₂_cons] at hchildren
    rw [evaluate, hchildren.1, hchildren.2.1]
    rfl
  | call =>
    cases hown
    rw [children_call] at h
    rw [evaluate, h]
    rfl

/-- The evaluator computes exactly the values there are. -/
theorem evaluate_eq_ok_iff {tree : Tree} {value : Decimal} :
    evaluate registry bindings tree = .ok value ↔ HasValue registry bindings tree value := by
  induction tree using inductOnChildren generalizing value with
  | node tree ih =>
    have hchildren : ∀ values, evaluateAll registry bindings tree.children = .ok values ↔
        List.Forall₂ (HasValue registry bindings) tree.children values :=
      fun values ↦ evaluateAll_eq_ok_iff fun x hx v ↦ ih x hx
    constructor
    · intro h
      cases hall : evaluateAll registry bindings tree.children with
      | error e => rw [evaluate_of_children_error hall] at h; cases h
      | ok values =>
        have hvalues := (hchildren values).mp hall
        obtain ⟨outcome, hown⟩ := exists_ownStep registry bindings tree hvalues.length_eq.symm
        rw [evaluate_of_children_ok hall hown] at h
        cases outcome with
        | error cause => cases h
        | ok v => cases h; exact .node hvalues hown
    · rintro ⟨hvalues, hown⟩
      rw [evaluate_of_children_ok ((hchildren _).mpr hvalues) hown]
      rfl

theorem HasValue.unique {tree : Tree} {v w : Decimal} (hv : HasValue registry bindings tree v)
    (hw : HasValue registry bindings tree w) : v = w := by
  rw [← evaluate_eq_ok_iff] at hv hw
  exact Except.ok.inj (hv.symm.trans hw)

theorem evaluateAll_eq_ok_iff_forall₂ {xs : List Tree} {values : List Decimal} :
    evaluateAll registry bindings xs = .ok values ↔
      List.Forall₂ (HasValue registry bindings) xs values :=
  evaluateAll_eq_ok_iff fun _ _ _ ↦ evaluate_eq_ok_iff

private theorem exists_hasValue_of_forall₂ {xs : List Tree} {values : List Decimal}
    (h : List.Forall₂ (HasValue registry bindings) xs values) {x : Tree} (hx : x ∈ xs) :
    ∃ v, HasValue registry bindings x v := by
  induction h with
  | nil => cases hx
  | cons hhead _ ih =>
    rcases List.mem_cons.mp hx with rfl | hx
    · exact ⟨_, hhead⟩
    · exact ih hx

theorem StepsTo.unique {tree : Tree} {r r' : Except EvalCause Decimal}
    (h : StepsTo registry bindings tree r) (h' : StepsTo registry bindings tree r') : r = r' := by
  obtain ⟨values, hvalues, hown⟩ := h
  obtain ⟨values', hvalues', hown'⟩ := h'
  rw [← evaluateAll_eq_ok_iff_forall₂] at hvalues hvalues'
  obtain rfl := Except.ok.inj (hvalues.symm.trans hvalues')
  exact hown.unique hown'

/-! ## The node that is blamed -/

/-- The frames of an error that comes out of some nodes, the innermost first. -/
def framesOf (above : List Tree) : List Frame := above.map fun node ↦ .ofToken node.token

/-- In a list of places the first one whose node has no value is that of a node whose own step fails
for the given cause. -/
def FirstFailure (registry : Registry) (bindings : Bindings) (places : List Place) (p : Place)
    (cause : EvalCause) : Prop :=
  ∃ before after, places = before ++ p :: after ∧
    (∀ q ∈ before, ∃ v, HasValue registry bindings q.node v) ∧
    StepsTo registry bindings p.node (.error cause)

/-- An error blames the first failing node among some places, all of which lie in the nodes `above`.
Its frames are those of the part of the path that lies further inside. -/
def Blames (registry : Registry) (bindings : Bindings) (above : List Tree) (places : List Place)
    (e : EvalError) : Prop :=
  ∃ p cause inner, FirstFailure registry bindings places p cause ∧ p.above = inner ++ above ∧
    e = ⟨cause, p.node.token.span, framesOf inner⟩

theorem FirstFailure.append {places others : List Place} {p : Place} {cause : EvalCause}
    (h : FirstFailure registry bindings places p cause) :
    FirstFailure registry bindings (places ++ others) p cause := by
  obtain ⟨before, after, rfl, hbefore, hp⟩ := h
  exact ⟨before, after ++ others, by simp, hbefore, hp⟩

theorem FirstFailure.prepend {places others : List Place} {p : Place} {cause : EvalCause}
    (hothers : ∀ q ∈ others, ∃ v, HasValue registry bindings q.node v)
    (h : FirstFailure registry bindings places p cause) :
    FirstFailure registry bindings (others ++ places) p cause := by
  obtain ⟨before, after, rfl, hbefore, hp⟩ := h
  refine ⟨others ++ before, after, by simp, fun q hq ↦ ?_, hp⟩
  rcases List.mem_append.mp hq with hq | hq
  · exact hothers q hq
  · exact hbefore q hq

theorem FirstFailure.unique {places : List Place} {p p' : Place} {cause cause' : EvalCause}
    (h : FirstFailure registry bindings places p cause)
    (h' : FirstFailure registry bindings places p' cause') : p = p' ∧ cause = cause' := by
  obtain ⟨before, after, rfl, hbefore, hp⟩ := h
  obtain ⟨before', after', heq, hbefore', hp'⟩ := h'
  have hnot : ∀ {q : Place} {c : EvalCause}, StepsTo registry bindings q.node (.error c) →
      ¬ ∃ v, HasValue registry bindings q.node v := by
    rintro q c hstep ⟨v, hv⟩
    exact absurd (hstep.unique (stepsTo_ok_iff.mpr hv)) (by simp)
  -- Whichever of the two stood further back would have the other one, which fails, in front of it.
  rcases List.append_eq_append_iff.mp heq with ⟨between, rfl, hmid⟩ | ⟨between, rfl, hmid⟩
  · cases between with
    | nil =>
      obtain ⟨rfl, -⟩ := List.cons.inj hmid
      exact ⟨rfl, by simpa using hp.unique hp'⟩
    | cons q between =>
      obtain ⟨rfl, -⟩ := List.cons.inj hmid
      exact absurd (hbefore' p (by simp)) (hnot hp)
  · cases between with
    | nil =>
      obtain ⟨rfl, -⟩ := List.cons.inj hmid
      exact ⟨rfl, by simpa using hp.unique hp'⟩
    | cons q between =>
      obtain ⟨rfl, -⟩ := List.cons.inj hmid
      exact absurd (hbefore p' (by simp)) (hnot hp')

theorem FirstFailure.not_forall_stepsTo {places : List Place} {p : Place} {cause : EvalCause}
    (h : FirstFailure registry bindings places p cause) :
    ¬ ∀ q ∈ places, ∃ v, StepsTo registry bindings q.node (.ok v) := by
  obtain ⟨before, after, rfl, -, hstep⟩ := h
  intro hall
  obtain ⟨v, hv⟩ := hall p (by simp)
  exact absurd (hstep.unique hv) (by simp)

theorem HasValue.of_mem_postorder {tree : Tree} {value : Decimal}
    (h : HasValue registry bindings tree value) (above : List Tree) :
    ∀ p ∈ postorder above tree, ∃ v, HasValue registry bindings p.node v := by
  induction tree using inductOnChildren generalizing above value with
  | node tree ih =>
    intro p hp
    rcases mem_postorder_iff.mp hp with ⟨child, hchild, hp⟩ | rfl
    · obtain ⟨hvalues, -⟩ := h
      obtain ⟨v, hv⟩ := exists_hasValue_of_forall₂ hvalues hchild
      exact ih child hchild hv _ p hp
    · exact ⟨value, h⟩

/-- **Blame.** By induction on the tree: an error among the children comes from the first child that
has no value, and passing through the node adds the frame that its path is longer by. -/
theorem blames_of_evaluate_eq_error {tree : Tree} {e : EvalError}
    (h : evaluate registry bindings tree = .error e) (above : List Tree) :
    Blames registry bindings above (postorder above tree) e := by
  induction tree using inductOnChildren generalizing above e with
  | node tree ih =>
    have hchildren : ∀ {xs : List Tree} {e : EvalError}, (∀ x ∈ xs, x ∈ tree.children) →
        evaluateAll registry bindings xs = .error e →
        Blames registry bindings (tree :: above) (postorderAll (tree :: above) xs) e := by
      intro xs e hxs hall
      induction xs generalizing e with
      | nil => cases hall
      | cons x xs ihxs =>
        rw [evaluateAll] at hall
        rw [postorderAll]
        cases hx : evaluate registry bindings x with
        | error e' =>
          rw [hx] at hall
          cases hall
          obtain ⟨p, cause, inner, hp, hrest⟩ := ih x (hxs x List.mem_cons_self) hx _
          exact ⟨p, cause, inner, hp.append, hrest⟩
        | ok v =>
          rw [hx] at hall
          cases hxs' : evaluateAll registry bindings xs with
          | ok vs => rw [hxs'] at hall; cases hall
          | error e' =>
            rw [hxs'] at hall
            cases hall
            obtain ⟨p, cause, inner, hp, hrest⟩ :=
              ihxs (fun y hy ↦ hxs y (List.mem_cons_of_mem _ hy)) hxs'
            have hvalues := (evaluate_eq_ok_iff.mp hx).of_mem_postorder (tree :: above)
            exact ⟨p, cause, inner, hp.prepend hvalues, hrest⟩
    rw [postorder_eq]
    cases hall : evaluateAll registry bindings tree.children with
    | error e' =>
      rw [evaluate_of_children_error hall] at h
      cases h
      obtain ⟨p, cause, inner, hp, hpath, rfl⟩ := hchildren (fun _ h ↦ h) hall
      refine ⟨p, cause, inner ++ [tree], hp.append, by simp [hpath], ?_⟩
      simp [EvalError.through, framesOf]
    | ok values =>
      have hvalues := evaluateAll_eq_ok_iff_forall₂.mp hall
      obtain ⟨outcome, hown⟩ := exists_ownStep registry bindings tree hvalues.length_eq.symm
      rw [evaluate_of_children_ok hall hown] at h
      cases outcome with
      | ok v => cases h
      | error cause =>
        cases h
        -- All children have values, so the node itself comes first among those that fail.
        have hself : FirstFailure registry bindings [⟨tree, above⟩] ⟨tree, above⟩ cause :=
          ⟨[], [], rfl, by simp, values, hvalues, hown⟩
        refine ⟨⟨tree, above⟩, cause, [], hself.prepend fun q hq ↦ ?_, rfl, rfl⟩
        rw [postorderAll_eq] at hq
        obtain ⟨child, hchild, hq⟩ := List.mem_flatMap.mp hq
        obtain ⟨v, hv⟩ := exists_hasValue_of_forall₂ hvalues hchild
        exact hv.of_mem_postorder _ q hq

/-- **Strict evaluation from left to right.** A tree has a value exactly when the own step of every
node succeeds on the values of its children: no operand and no argument is left out. Otherwise the
error is that of the first failing node in postorder. It points at the token of that node, and its
frames are the nodes around it, from its parent to the root, as many as the node is deep. -/
theorem evaluate_in_postorder (registry : Registry) (bindings : Bindings) (tree : Tree) :
    (∀ v, evaluate registry bindings tree = .ok v ↔ HasValue registry bindings tree v) ∧
    ((∃ v, evaluate registry bindings tree = .ok v) ↔
      ∀ p ∈ postorder [] tree, ∃ v, StepsTo registry bindings p.node (.ok v)) ∧
    (∀ e, evaluate registry bindings tree = .error e ↔
      ∃ p cause, FirstFailure registry bindings (postorder [] tree) p cause ∧
        e = ⟨cause, p.node.token.span, framesOf p.above⟩) ∧
    (∀ p ∈ postorder [] tree,
      (p.above.length, p.node) ∈ preorder 0 tree ∧ (framesOf p.above).length = p.above.length) := by
  have hblames : ∀ {e}, evaluate registry bindings tree = .error e →
      ∃ p cause, FirstFailure registry bindings (postorder [] tree) p cause ∧
        e = ⟨cause, p.node.token.span, framesOf p.above⟩ := by
    intro e he
    obtain ⟨p, cause, inner, hp, hpath, rfl⟩ := blames_of_evaluate_eq_error he []
    rw [List.append_nil] at hpath
    exact ⟨p, cause, hp, by rw [hpath]⟩
  have hvalues : ∀ {v}, evaluate registry bindings tree = .ok v →
      ∀ p ∈ postorder [] tree, ∃ v, StepsTo registry bindings p.node (.ok v) := by
    intro v hv p hp
    obtain ⟨w, hw⟩ := (evaluate_eq_ok_iff.mp hv).of_mem_postorder [] p hp
    exact ⟨w, stepsTo_ok_iff.mpr hw⟩
  refine ⟨fun v ↦ evaluate_eq_ok_iff, ⟨fun ⟨v, hv⟩ ↦ hvalues hv, fun hall ↦ ?_⟩,
    fun e ↦ ⟨hblames, ?_⟩, fun p hp ↦ ⟨?_, ?_⟩⟩
  · cases h : evaluate registry bindings tree with
    | ok v => exact ⟨v, rfl⟩
    | error e =>
      obtain ⟨p, cause, hp, -⟩ := hblames h
      exact absurd hall hp.not_forall_stepsTo
  · rintro ⟨p, cause, hp, rfl⟩
    cases h : evaluate registry bindings tree with
    | ok v => exact absurd (hvalues h) hp.not_forall_stepsTo
    | error e =>
      obtain ⟨p', cause', hp', rfl⟩ := hblames h
      obtain ⟨rfl, rfl⟩ := hp.unique hp'
      rfl
  · exact (postorder_perm_preorder tree []).subset (List.mem_map_of_mem hp)
  · rw [framesOf, List.length_map]

end Tree

end DecimalFormula
