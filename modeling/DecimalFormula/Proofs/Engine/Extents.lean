import DecimalFormula.Proofs.Engine.Reading
import DecimalFormula.Proofs.Grammar.Parentheses
import DecimalFormula.Proofs.Scanning.Lossless
import Mathlib.Order.Bounds.Basic

/-!
# What the spans of nodes cover

The span of a node is computed from the spans of its parts, in three ways for three sorts of nodes.
What comes out is the same for all of them: the smallest span that covers the tokens of the subtree
and the parentheses that close its calls (`Engine.span_isLUB`). Grouping parentheses widen no span.

Spans are ordered by inclusion, and joined by merging, so the smallest span over a set of spans is
its least upper bound. The proof is by induction on the derivation. It carries along that the span
of a tree reaches from one of its own tokens to another (`SpansFromTo`), because that is what puts
trees of neighbouring tokens in order.
-/

namespace DecimalFormula

/-! ## Spans ordered by inclusion -/

namespace Span

/-- A span is at most another if it lies in it, and merging is joining. -/
instance : SemilatticeSup Span where
  le s s' := s'.start ≤ s.start ∧ s.stop ≤ s'.stop
  le_refl s := ⟨UInt32.le_refl _, UInt32.le_refl _⟩
  le_trans _ _ _ h h' := ⟨UInt32.le_trans h'.1 h.1, UInt32.le_trans h.2 h'.2⟩
  le_antisymm s s' h h' := by
    have hstart : s.start = s'.start := UInt32.le_antisymm h'.1 h.1
    have hstop : s.stop = s'.stop := UInt32.le_antisymm h.2 h'.2
    cases s
    cases s'
    rw [mk.injEq]
    exact ⟨hstart, hstop⟩
  sup := merge
  le_sup_left s s' := by
    rw [UInt32.le_iff_toNat_le, UInt32.le_iff_toNat_le, toNat_start_merge, toNat_stop_merge]
    exact ⟨Nat.min_le_left _ _, Nat.le_max_left _ _⟩
  le_sup_right s s' := by
    rw [UInt32.le_iff_toNat_le, UInt32.le_iff_toNat_le, toNat_start_merge, toNat_stop_merge]
    exact ⟨Nat.min_le_right _ _, Nat.le_max_right _ _⟩
  sup_le s s' r h h' := by
    rw [UInt32.le_iff_toNat_le, UInt32.le_iff_toNat_le] at h h' ⊢
    rw [toNat_start_merge, toNat_stop_merge]
    exact ⟨Nat.le_min.mpr ⟨h.1, h'.1⟩, Nat.max_le.mpr ⟨h.2, h'.2⟩⟩

theorem le_def {s s' : Span} : s ≤ s' ↔ s'.start ≤ s.start ∧ s.stop ≤ s'.stop := Iff.rfl

theorem merge_of_le {s s' : Span} (hstart : s.start ≤ s'.start) (hstop : s.stop ≤ s'.stop) :
    s.merge s' = ⟨s.start, s'.stop⟩ := by
  have hmin : min s.start s'.start = s.start := if_pos hstart
  have hmax : max s.stop s'.stop = s'.stop := if_pos hstop
  rw [merge, hmin, hmax]

def Precedes (s s' : Span) : Prop := s.stop ≤ s'.start

end Span

/-! ## Tokens in a row -/

/-- Tokens stand one behind the other, and each of them covers something. -/
structure Arranged (tokens : List Token) : Prop where
  /-- They do not overlap. -/
  pairwise : tokens.Pairwise fun t u ↦ t.span.Precedes u.span
  /-- None of them is empty. -/
  start_lt : ∀ t ∈ tokens, t.span.start < t.span.stop

/-- A span that is not empty starts where some token starts and stops where some token stops. -/
structure SpansFromTo (tokens : List Token) (s : Span) : Prop where
  /-- The span is not empty. -/
  start_lt : s.start < s.stop
  /-- It starts with a token. -/
  start_mem : ∃ t ∈ tokens, s.start = t.span.start
  /-- It stops with a token. -/
  stop_mem : ∃ t ∈ tokens, s.stop = t.span.stop

variable {tokens xs ys : List Token} {t u f : Token} {s s' : Span}

namespace Arranged

theorem sublist (h : Arranged tokens) (hsub : xs.Sublist tokens) : Arranged xs :=
  ⟨h.pairwise.sublist hsub, fun t ht ↦ h.start_lt t (hsub.subset ht)⟩

theorem nodup (h : Arranged tokens) : tokens.Nodup := by
  refine h.pairwise.imp_of_mem ?_
  rintro t _ ht - hbehind rfl
  exact absurd (h.start_lt t ht) (UInt32.not_lt.mpr hbehind)

theorem precedes (h : Arranged (xs ++ ys)) (hs : SpansFromTo xs s) (hs' : SpansFromTo ys s') :
    s.Precedes s' := by
  obtain ⟨t, ht, hstop⟩ := hs.stop_mem
  obtain ⟨u, hu, hstart⟩ := hs'.start_mem
  rw [Span.Precedes, hstop, hstart]
  exact (List.pairwise_append.mp h.pairwise).2.2 t ht u hu

end Arranged

namespace SpansFromTo

theorem singleton (ht : t.span.start < t.span.stop) : SpansFromTo [t] t.span :=
  ⟨ht, ⟨t, List.mem_cons_self, rfl⟩, ⟨t, List.mem_cons_self, rfl⟩⟩

theorem mono (h : SpansFromTo xs s) (hsub : xs ⊆ ys) : SpansFromTo ys s := by
  obtain ⟨hlt, ⟨t, ht, hstart⟩, u, hu, hstop⟩ := h
  exact ⟨hlt, ⟨t, hsub ht, hstart⟩, u, hsub hu, hstop⟩

theorem merge (h : SpansFromTo xs s) (h' : SpansFromTo xs s') (hbehind : s.Precedes s') :
    SpansFromTo xs (s.merge s') := by
  have hlt := h.start_lt
  have hlt' := h'.start_lt
  rw [Span.Precedes] at hbehind
  rw [Span.merge_of_le (by grind) (by grind)]
  exact ⟨by grind, h.start_mem, h'.stop_mem⟩

theorem le_merge (h : SpansFromTo xs s) {a b : Span} (ha : a.Precedes s) (hb : s.Precedes b)
    (ha' : a.start < a.stop) (hb' : b.start < b.stop) : s ≤ a.merge b := by
  have hlt := h.start_lt
  rw [Span.Precedes] at ha hb
  rw [Span.merge_of_le (by grind) (by grind), Span.le_def]
  exact ⟨by grind, by grind⟩

end SpansFromTo

theorem Arranged.spansFromTo_ends (h : Arranged (f :: (xs ++ [u]))) :
    f.span.Precedes u.span ∧ SpansFromTo (f :: (xs ++ [u])) (f.span.merge u.span) := by
  have hall : Arranged ([f] ++ (xs ++ [u])) := h
  have hlast : u ∈ xs ++ [u] := List.mem_append_right _ List.mem_cons_self
  have hf : SpansFromTo [f] f.span := .singleton (h.start_lt f List.mem_cons_self)
  have hu : SpansFromTo [u] u.span := .singleton (h.start_lt u (List.mem_cons_of_mem _ hlast))
  have hprecedes := hall.precedes hf (hu.mono (List.subset_append_right _ _))
  exact ⟨hprecedes, (hf.mono (List.subset_append_left _ _)).merge (hu.mono (by simp)) hprecedes⟩

/-! ## Spans in a tree -/

namespace Tree

theorem mem_nodes_trans {node node' tree : Tree} (h : node ∈ node'.nodes)
    (h' : node' ∈ tree.nodes) : node ∈ tree.nodes := by
  induction tree using inductOnChildren with
  | node tree ih =>
    rcases mem_nodes_iff.mp h' with rfl | ⟨child, hchild, h'⟩
    · exact h
    · exact mem_nodes_of_mem_children hchild (ih child hchild h')

/-- The spans that the span of a tree is about: those of the tokens of its nodes, and those of the
parentheses that close its calls. -/
def marks (tokens : List Token) (tree : Tree) : Set Span :=
  {s | ∃ node ∈ tree.nodes, s = node.token.span ∨
    ∃ u, ClosesCall tokens node.token u ∧ s = u.span}

/-- The parts of a node stand one behind the other: an operator in front of its operand or between
its operands, and the name, the arguments and the closing parenthesis of a call, with which the
node ends. -/
def PartsInOrder (tokens : List Token) : Tree → Prop
  | leaf _ _ => True
  | unary _ t x _ => t.span.Precedes x.span
  | binary _ t x y _ => x.span.Precedes t.span ∧ t.span.Precedes y.span
  | call _ f args s => ∃ u, (∀ u', ClosesCall tokens f u' ↔ u' = u) ∧ s.stop = u.span.stop ∧
    (f.span :: (args.map span ++ [u.span])).Pairwise Span.Precedes

/-- A node stands among the tokens of its formula as it should. -/
structure WellPlaced (tokens : List Token) (node : Tree) : Prop where
  /-- Its span is the smallest that covers the tokens and the closing parentheses below it. -/
  isLUB : IsLUB (node.marks tokens) node.span
  /-- Its span is one of tokens. -/
  fromTo : SpansFromTo tokens node.span
  /-- Its parts follow each other. -/
  inOrder : node.PartsInOrder tokens

variable {x y : Tree}

theorem mem_marks_iff {tree : Tree} : s ∈ tree.marks tokens ↔
    (s = tree.token.span ∨ ∃ u, ClosesCall tokens tree.token u ∧ s = u.span) ∨
      ∃ child ∈ tree.children, s ∈ child.marks tokens := by
  constructor
  · rintro ⟨node, hnode, hs⟩
    rcases mem_nodes_iff.mp hnode with rfl | ⟨child, hchild, hnode⟩
    · exact .inl hs
    · exact .inr ⟨child, hchild, node, hnode, hs⟩
  · rintro (hs | ⟨child, hchild, node, hnode, hs⟩)
    · exact ⟨tree, mem_nodes_self tree, hs⟩
    · exact ⟨node, mem_nodes_of_mem_children hchild hnode, hs⟩

/-- Only the token of a call comes with a closing parenthesis. -/
theorem mem_marks_iff_of_ne {tree : Tree} (h : tree.token.kind ≠ .function) :
    s ∈ tree.marks tokens ↔
      s = tree.token.span ∨ ∃ child ∈ tree.children, s ∈ child.marks tokens := by
  have hclosing : ¬ ∃ u, ClosesCall tokens tree.token u ∧ s = u.span := by
    rintro ⟨u, ⟨_, _, _, _, _, hkind, _⟩, -⟩
    exact h hkind
  rw [mem_marks_iff, or_iff_left hclosing]

theorem wellPlaced_leaf {kind : LeafKind} (ht : t.kind ≠ .function) (hmem : t ∈ tokens)
    (hlt : t.span.start < t.span.stop) : (leaf kind t).WellPlaced tokens := by
  have hmarks : (leaf kind t).marks tokens = {t.span} := by
    ext s
    rw [mem_marks_iff_of_ne (by exact ht)]
    simp [token]
  refine ⟨?_, ⟨hlt, ⟨t, hmem, rfl⟩, ⟨t, hmem, rfl⟩⟩, trivial⟩
  rw [hmarks]
  exact isLUB_singleton

theorem wellPlaced_mkUnary {o : UnaryOp} (ht : t.kind ≠ .function)
    (hspan : SpansFromTo tokens (mkUnary o t x).span) (hx : IsLUB (x.marks tokens) x.span)
    (htx : t.span.Precedes x.span) : (mkUnary o t x).WellPlaced tokens := by
  have hmarks : (mkUnary o t x).marks tokens = insert t.span (x.marks tokens) := by
    ext s
    rw [mem_marks_iff_of_ne (by exact ht)]
    simp [mkUnary, token]
  refine ⟨?_, hspan, htx⟩
  rw [hmarks]
  exact hx.insert t.span

theorem wellPlaced_mkBinary {o : BinaryOp} (ht : t.kind ≠ .function)
    (hspan : SpansFromTo tokens (mkBinary o t x y).span) (hx : IsLUB (x.marks tokens) x.span)
    (hy : IsLUB (y.marks tokens) y.span) (hxt : x.span.Precedes t.span)
    (hty : t.span.Precedes y.span) (hle : t.span ≤ x.span.merge y.span) :
    (mkBinary o t x y).WellPlaced tokens := by
  have hmarks : (mkBinary o t x y).marks tokens =
      insert t.span (x.marks tokens ∪ y.marks tokens) := by
    ext s
    rw [mem_marks_iff_of_ne (by exact ht)]
    simp [mkBinary, token]
  refine ⟨?_, hspan, hxt, hty⟩
  have hlub := (hx.union hy).insert t.span
  rw [← hmarks, sup_eq_right.mpr (by exact hle)] at hlub
  exact hlub

/-- A call reaches from its name to its closing parenthesis, and its arguments lie between. -/
theorem wellPlaced_call {inner : List Token} {name : String} {args : List Tree}
    (htokens : Arranged tokens) (hpart : f :: t :: (inner ++ [u]) <:+: tokens)
    (hclosing : ClosesCall (f :: t :: (inner ++ [u])) f u)
    (hargs : ∀ arg ∈ args, SpansFromTo inner arg.span ∧ IsLUB (arg.marks tokens) arg.span)
    (horder : (args.map span).Pairwise Span.Precedes) :
    (call name f args (f.span.merge u.span)).WellPlaced tokens := by
  have hclosing := hclosing.mono hpart
  have hunique : ∀ u', ClosesCall tokens f u' ↔ u' = u := by
    intro u'
    constructor
    · intro h
      exact h.unique hclosing htokens.nodup
    · rintro rfl
      exact hclosing
  have hall : Arranged ([f] ++ (t :: inner ++ [u])) := htokens.sublist hpart.sublist
  have hbehind := hall.sublist (List.sublist_append_right _ _)
  have hname : SpansFromTo [f] f.span := .singleton (hall.start_lt f List.mem_cons_self)
  have hclose : SpansFromTo [u] u.span := .singleton (hall.start_lt u (by simp))
  obtain ⟨hname_close, hspan⟩ : f.span.Precedes u.span ∧ SpansFromTo _ (f.span.merge u.span) :=
    hall.spansFromTo_ends
  have hname_arg : ∀ arg ∈ args, f.span.Precedes arg.span := fun arg harg ↦
    hall.precedes hname ((hargs arg harg).1.mono (by simp))
  have harg_close : ∀ arg ∈ args, arg.span.Precedes u.span := fun arg harg ↦
    hbehind.precedes ((hargs arg harg).1.mono (List.subset_cons_self _ _)) hclose
  have hwithin : ∀ arg ∈ args, arg.span ≤ f.span.merge u.span := fun arg harg ↦
    (hargs arg harg).1.le_merge (hname_arg arg harg) (harg_close arg harg) hname.start_lt
      hclose.start_lt
  refine ⟨?_, hspan.mono hpart.subset, u, hunique, ?_, ?_⟩
  · -- The name and the closing parenthesis alone give this span, and all the rest lies in it.
    refine (isLUB_pair (a := f.span) (b := u.span)).of_subset_of_superset isLUB_Iic ?_ ?_
    · rintro s (rfl | rfl)
      · exact mem_marks_iff.mpr (.inl (.inl rfl))
      · exact mem_marks_iff.mpr (.inl (.inr ⟨u, hclosing, rfl⟩))
    · intro s hs
      rcases mem_marks_iff.mp hs with (rfl | ⟨u', hu', rfl⟩) | ⟨arg, harg, hs⟩
      · exact Set.mem_Iic.mpr le_sup_left
      · rw [(hunique u').mp hu']
        exact Set.mem_Iic.mpr le_sup_right
      · exact ((hargs arg harg).2.1 hs).trans (hwithin arg harg)
  · have hlt := hclose.start_lt
    rw [Span.Precedes] at hname_close
    have hmax : max f.span.stop u.span.stop = u.span.stop := if_pos (by grind)
    exact hmax
  · rw [List.pairwise_cons, List.pairwise_append]
    refine ⟨fun s hs ↦ ?_, horder, List.pairwise_singleton _ _, fun s hs s' hs' ↦ ?_⟩
    · rcases List.mem_append.mp hs with hs | hs
      · obtain ⟨arg, harg, rfl⟩ := List.mem_map.mp hs
        exact hname_arg arg harg
      · rw [List.mem_singleton.mp hs]
        exact hname_close
    · obtain ⟨arg, harg, rfl⟩ := List.mem_map.mp hs
      rw [List.mem_singleton.mp hs']
      exact harg_close arg harg

/-- The span of a child lies in the span of its parent, since what it is about does. -/
theorem WellPlaced.span_le {child tree : Tree} (hchild : child.WellPlaced tokens)
    (h : tree.WellPlaced tokens) (hmem : child ∈ tree.children) : child.span ≤ tree.span :=
  hchild.isLUB.mono h.isLUB fun _ hs ↦ mem_marks_iff.mpr (.inr ⟨child, hmem, hs⟩)

end Tree

/-! ## Derivations -/

theorem infix_furtherTokens {m : FurtherArgument} {more : List FurtherArgument} (h : m ∈ more) :
    m.tokens <:+: furtherTokens more :=
  (List.suffix_cons m.comma m.tokens).isInfix.trans
    (List.infix_of_mem_flatten (List.mem_map_of_mem h))

/-- The arguments of a call follow each other as their tokens do. -/
theorem pairwise_precedes_arguments {x : Tree} {more : List FurtherArgument}
    (h : Arranged (xs ++ furtherTokens more)) (hx : SpansFromTo xs x.span)
    (hmore : ∀ m ∈ more, SpansFromTo m.tokens m.tree.span) :
    ((x :: more.map FurtherArgument.tree).map Tree.span).Pairwise Span.Precedes := by
  induction more generalizing xs x with
  | nil => exact List.pairwise_singleton _ _
  | cons m more ih =>
    have hfurther : ∀ m' ∈ m :: more, SpansFromTo (furtherTokens (m :: more)) m'.tree.span :=
      fun m' hm' ↦ (hmore m' hm').mono (infix_furtherTokens hm').subset
    have htail : (m.tokens ++ furtherTokens more).Sublist (xs ++ furtherTokens (m :: more)) := by
      rw [furtherTokens, furtherTokens, List.flatMap_cons]
      exact (List.sublist_cons_self _ _).trans (List.sublist_append_right _ _)
    obtain ⟨hm, hrest⟩ := List.forall_mem_cons.mp hmore
    rw [List.map_cons, List.pairwise_cons]
    refine ⟨fun s hs ↦ ?_, ih (h.sublist htail) hm hrest⟩
    rw [List.map_map] at hs
    obtain ⟨m', hm', rfl⟩ := List.mem_map.mp hs
    exact h.precedes hx (hfurther m' hm')

namespace DerivesWithin

variable {n : Nat} {level : Level} {x : Tree}

/-- A tree reaches from one of its tokens to another. -/
theorem spansFromTo (h : DerivesWithin n level xs x) (hxs : Arranged xs) :
    SpansFromTo xs x.span := by
  -- The tokens are shared out among the parts, so each part has the order of its own tokens from
  -- that of all of them.
  induction h with
  | tighter _ _ ih => exact ih hxs
  | @sign _ _ t _ xs _ _ _ ih =>
    have hall : Arranged ([t] ++ xs) := hxs
    have ht : SpansFromTo [t] t.span := .singleton (hxs.start_lt t List.mem_cons_self)
    have hx := ih (hall.sublist (List.sublist_append_right _ _))
    exact (ht.mono (List.subset_append_left _ _)).merge (hx.mono (List.subset_append_right _ _))
      (hall.precedes ht hx)
  | @join _ _ xs _ t _ ys _ _ _ _ ihx ihy =>
    have hx := ihx (hxs.sublist (List.sublist_append_left _ _))
    have hright : (t :: ys).Sublist (xs ++ t :: ys) := List.sublist_append_right _ _
    have hy := ihy (hxs.sublist ((List.sublist_cons_self _ _).trans hright))
    have hy := hy.mono (List.subset_cons_self t ys)
    exact (hx.mono (List.subset_append_left _ _)).merge (hy.mono (List.subset_append_right _ _))
      (hxs.precedes hx hy)
  | @number _ t | @identifier _ t => exact .singleton (hxs.start_lt t List.mem_cons_self)
  | @parenthesized _ t xs _ u _ _ _ ih =>
    have hsub : xs.Sublist (t :: (xs ++ [u])) :=
      (List.sublist_append_left _ _).trans (List.sublist_cons_self _ _)
    exact (ih (hxs.sublist hsub)).mono hsub.subset
  | @emptyCall _ f t u =>
    have hall : Arranged (f :: ([t] ++ [u])) := hxs
    exact hall.spansFromTo_ends.2
  | @call _ f t xs _ more u =>
    have hall : Arranged (f :: (t :: (xs ++ furtherTokens more) ++ [u])) := hxs
    exact hall.spansFromTo_ends.2

/-- All nodes of a tree stand among the tokens as they should. -/
theorem wellPlaced (h : DerivesWithin n level xs x) (htokens : Arranged tokens)
    (hpart : xs <:+: tokens) : ∀ node ∈ x.nodes, node.WellPlaced tokens := by
  -- By induction on the derivation, whose parts stand one behind the other in the tokens: that the
  -- spans of two parts do not overlap is read off their places there, and not off the tree.
  induction h with
  | tighter _ _ ih => exact ih hpart
  | @sign _ _ t o xs x ht hx ih =>
    have hall : Arranged ([t] ++ xs) := htokens.sublist hpart.sublist
    have hnodes := ih ((List.suffix_cons t xs).isInfix.trans hpart)
    have hkind : t.kind ≠ .function := Level.ne_of_sign? ht rfl
    have ht' : SpansFromTo [t] t.span := .singleton (hall.start_lt t List.mem_cons_self)
    have hx' := hx.spansFromTo (hall.sublist (List.sublist_append_right _ _))
    have hspan := ((sign ht hx).spansFromTo hall).mono hpart.subset
    refine Tree.forall_mem_nodes_iff.mpr ⟨?_, by simpa using hnodes⟩
    exact Tree.wellPlaced_mkUnary hkind hspan (hnodes x x.mem_nodes_self).isLUB
      (hall.precedes ht' hx')
  | @join _ _ xs x t o ys y hx ht hy ihx ihy =>
    have hall : Arranged (xs ++ ([t] ++ ys)) := htokens.sublist hpart.sublist
    have hbehind := hall.sublist (List.sublist_append_right _ _)
    have hxs := ihx ((List.prefix_append xs (t :: ys)).isInfix.trans hpart)
    have hys := ihy ((List.suffix_append (xs ++ [t]) ys).isInfix.trans (by simpa using hpart))
    have hkind : t.kind ≠ .function := Level.ne_of_operator? ht rfl
    have ht' : SpansFromTo [t] t.span := .singleton (hbehind.start_lt t List.mem_cons_self)
    have hx' := hx.spansFromTo (hall.sublist (List.sublist_append_left _ _))
    have hy' := hy.spansFromTo (hbehind.sublist (List.sublist_append_right _ _))
    have hxt := hall.precedes hx' (ht'.mono (List.subset_append_left _ _))
    have hty := hbehind.precedes ht' hy'
    have hspan := ((join hx ht hy).spansFromTo hall).mono hpart.subset
    refine Tree.forall_mem_nodes_iff.mpr ⟨?_, by simpa using ⟨hxs, hys⟩⟩
    exact Tree.wellPlaced_mkBinary hkind hspan (hxs x x.mem_nodes_self).isLUB
      (hys y y.mem_nodes_self).isLUB hxt hty
      (ht'.le_merge hxt hty hx'.start_lt hy'.start_lt)
  | @number _ t hk | @identifier _ t hk =>
    have ht := hpart.subset List.mem_cons_self
    refine Tree.forall_mem_nodes_iff.mpr ⟨?_, by simp⟩
    exact Tree.wellPlaced_leaf (by rw [hk]; decide) ht (htokens.start_lt t ht)
  | @parenthesized _ t xs _ u _ _ _ ih =>
    exact ih (((List.prefix_append xs [u]).isInfix.trans (List.suffix_cons t _).isInfix).trans
      hpart)
  | @emptyCall _ f t u hf ht hu =>
    have hclosing : ClosesCall (f :: t :: ([] ++ [u])) f u := ⟨[], t, [], [], rfl, hf, ht, .nil, hu⟩
    refine Tree.forall_mem_nodes_iff.mpr ⟨?_, by simp⟩
    exact Tree.wellPlaced_call htokens hpart hclosing (List.forall_mem_nil _) .nil
  | @call n f t xs x more u hf ht hx hcommas hmore hu ihx ihmore =>
    have hinner : Balanced (xs ++ furtherTokens more) :=
      hx.balanced.append (.furtherTokens hcommas fun m hm ↦ (hmore m hm).balanced)
    have hinner_part : xs ++ furtherTokens more <:+: tokens :=
      (((List.prefix_append _ [u]).isInfix.trans (List.suffix_cons t _).isInfix).trans
        (List.suffix_cons f _).isInfix).trans hpart
    have hall : Arranged (xs ++ furtherTokens more) := htokens.sublist hinner_part.sublist
    have hxs := ihx ((List.prefix_append _ _).isInfix.trans hinner_part)
    have hfurther : ∀ m ∈ more, m.tokens <:+: xs ++ furtherTokens more := fun m hm ↦
      (infix_furtherTokens hm).trans (List.suffix_append _ _).isInfix
    have hms : ∀ m ∈ more, ∀ node ∈ m.tree.nodes, node.WellPlaced tokens := fun m hm ↦
      ihmore m hm ((hfurther m hm).trans hinner_part)
    have hx' := hx.spansFromTo (hall.sublist (List.sublist_append_left _ _))
    have hms' : ∀ m ∈ more, SpansFromTo m.tokens m.tree.span := fun m hm ↦
      (hmore m hm).spansFromTo (hall.sublist (hfurther m hm).sublist)
    refine Tree.forall_mem_nodes_iff.mpr ⟨?_, by simpa using ⟨hxs, hms⟩⟩
    refine Tree.wellPlaced_call htokens hpart
      ⟨[], t, _, [], rfl, hf, ht, hinner, hu⟩ ?_ (pairwise_precedes_arguments hall hx' hms')
    refine List.forall_mem_cons.mpr ⟨⟨?_, (hxs x x.mem_nodes_self).isLUB⟩, ?_⟩
    · exact hx'.mono (List.subset_append_left _ _)
    · refine List.forall_mem_map.mpr fun m hm ↦ ⟨?_, (hms m hm _ m.tree.mem_nodes_self).isLUB⟩
      exact (hms' m hm).mono (hfurther m hm).subset

end DerivesWithin

/-! ## Formulas -/

/-- What is scanned of a formula is in a row. -/
theorem Lexer.arranged_of_scan {registry : Registry} {formula : String} {body : List Token}
    {last : Token} (hsize : formula.utf8ByteSize < UInt32.size)
    (hbody : ∀ t ∈ body, t.isEnd = false)
    (h : scan registry formula = .ok (body ++ [last])) : Arranged body := by
  obtain ⟨hfrom, hpairwise⟩ := pairwise_behind_of_scan hsize h
  constructor
  · exact (List.pairwise_append.mp hpairwise).1.imp fun h ↦ h.stop_le
  · intro t ht
    obtain ⟨inner, hcovers, -, hne⟩ := hfrom t (List.mem_append_left _ ht)
    exact hcovers.start_lt hsize (hne (Token.isEnd_eq_false_iff.mp (hbody t ht)))

/-- A span from one token to another is one of the formula if they are of the formula. -/
theorem SpansFromTo.within {formula : String} (h : SpansFromTo tokens s)
    (htokens : ∀ t ∈ tokens, t.span.Within formula) : s.Within formula := by
  obtain ⟨hlt, ⟨t, ht, hstart⟩, u, hu, hstop⟩ := h
  constructor
  · exact UInt32.le_of_lt hlt
  · rw [hstop]
    exact (htokens u hu).stop_le
  · rw [hstart]
    exact (htokens t ht).start_isValid
  · rw [hstop]
    exact (htokens u hu).stop_isValid

namespace Engine

/-- **The span of a node is the smallest that covers its subtree**: the tokens of all nodes in it
and the closing parentheses of all calls in it. It is not empty, it lies in the formula and in the
span of the parent, and the parts of a node follow each other without overlap. All this is so in a
formula of less than 4 GiB; beyond that the ends of spans are remainders, and not in order. -/
theorem span_isLUB (e : Engine) (formula : String) (tree : Tree)
    (hsize : formula.utf8ByteSize < UInt32.size) (h : e.parse formula = .ok tree) :
    ∃ body, e.lex formula = .ok (body ++ [.endAt (.ofNat formula.utf8ByteSize)]) ∧
      ∀ node ∈ tree.nodes, IsLUB (node.marks body) node.span ∧
        node.span.start < node.span.stop ∧ node.span.Within formula ∧
        (∀ child ∈ node.children, child.span ≤ node.span) ∧ node.PartsInOrder body := by
  obtain ⟨body, c, hlexes, hblanks, hderives, -⟩ := parse_eq_ok_iff.mp h
  have hscan := Lexer.scan_of_blanks hlexes hblanks
  have hwithin : ∀ t ∈ body, t.span.Within formula := fun t ht ↦
    ((Lexer.pairwise_behind_of_scan hsize hscan).1 t (List.mem_append_left _ ht)).within hsize
  have hplaced := hderives.wellPlaced (Lexer.arranged_of_scan hsize hlexes.isEnd_eq_false hscan)
    List.infix_rfl
  refine ⟨body, ?_, fun node hnode ↦ ?_⟩
  · rw [lex, hscan, byteLength_toList]
    rfl
  · obtain ⟨hlub, hspan, horder⟩ := hplaced node hnode
    refine ⟨hlub, hspan.start_lt, hspan.within hwithin, fun child hchild ↦ ?_, horder⟩
    have hmem := Tree.mem_nodes_of_mem_children hchild child.mem_nodes_self
    exact (hplaced child (Tree.mem_nodes_trans hmem hnode)).span_le (hplaced node hnode) hchild

/-- Grouping parentheses are outside of a span, and those of a call inside. -/
theorem span_isLUB_call :
    let two : Tree := .leaf .number ⟨.number, "2", ⟨6, 7⟩⟩
    let call : Tree := .call "ABS" ⟨.function, "ABS", ⟨1, 4⟩⟩ [two] ⟨1, 9⟩
    "(ABS((2)))".utf8ByteSize < UInt32.size ∧ standard.parse "(ABS((2)))" = .ok call ∧
      ∃ body, standard.lex "(ABS((2)))" = .ok (body ++ [.endAt 10]) ∧
        IsLUB (call.marks body) ⟨1, 9⟩ ∧ call.PartsInOrder body := by
  intro two call
  have hparse : standard.parse "(ABS((2)))" = .ok call := by decide +kernel
  have hsize : "(ABS((2)))".utf8ByteSize < UInt32.size := by decide
  obtain ⟨body, hlex, hnodes⟩ := span_isLUB standard _ call hsize hparse
  obtain ⟨hlub, -, -, -, horder⟩ := hnodes call call.mem_nodes_self
  exact ⟨hsize, hparse, body, hlex, hlub, horder⟩

/-! ### Beyond 4 GiB -/

/-- A one, a minus, blanks and a two. -/
theorem lexes_of_distant_subtrahend (registry : Registry) (n : Nat) :
    Lexer.Lexes registry (.start ('1' :: '-' :: (List.replicate n ' ' ++ ['2'])))
      [⟨.number, "1", .between 0 1⟩, ⟨.minus, "-", .between 1 2⟩,
        ⟨.number, "2", .between (2 + n) (2 + n + 1)⟩] ⟨2 + n + 1, []⟩ := by
  have hone : Lexeme registry .number "1" ['1'] :=
    .number (d := ⟨false, 1, 0, by decide, by decide⟩)
      (.whole (List.cons_ne_nil _ _) (List.forall_mem_singleton.mpr rfl)) (by decide)
  have htwo : Lexeme registry .number "2" ['2'] :=
    .number (d := ⟨false, 2, 0, by decide, by decide⟩)
      (.whole (List.cons_ne_nil _ _) (List.forall_mem_singleton.mpr rfl)) (by decide)
  have hminus : Lexeme registry .minus "-" ['-'] := .symbol rfl
  have hnone : ∀ b ∈ ([] : List Char), isBlank b = true := List.forall_mem_nil _
  refine .cons (Lexer.scanToken_of_lexeme hnone hone (TokenKind.endsAt_cons rfl)) rfl ?_
  refine .cons (Lexer.scanToken_of_lexeme hnone hminus (fun _ _ ↦ rfl)) rfl ?_
  have hends : TokenKind.number.EndsAt [] := fun _ h ↦ by cases h
  have hlast := Lexer.scanToken_of_lexeme (n := 2) (isBlank_of_mem_replicate n) htwo hends
  rw [byteLength_append, byteLength_replicate_blank] at hlast
  exact .cons hlast rfl .nil

theorem derives_of_difference {t u v : Token} (ht : t.kind = .number) (hu : u.kind = .minus)
    (hv : v.kind = .number) : Derives .disjunction [t, u, v]
      (.mkBinary .subtract u (.leaf .number t) (.leaf .number v)) := by
  have hoperator : u.IsOperator [.add, .subtract] .subtract :=
    ⟨by rw [hu]; rfl, List.mem_cons_of_mem _ List.mem_cons_self⟩
  have hleft : Derives .product [t] (.leaf .number t) :=
    .product_single (.power_single (.number ht))
  have hright : Derives .sum [v] (.leaf .number v) :=
    .sum_single (.product_single (.power_single (.number hv)))
  exact .disjunction_single (.conjunction_single (.negation_single (.comparison_single
    (.sum_join hleft hoperator hright))))

theorem parse_of_distant_subtrahend (n : Nat) :
    standard.parse (.ofList ('1' :: '-' :: (List.replicate n ' ' ++ ['2']))) =
      .ok (.mkBinary .subtract ⟨.minus, "-", .between 1 2⟩
        (.leaf .number ⟨.number, "1", .between 0 1⟩)
        (.leaf .number ⟨.number, "2", .between (2 + n) (2 + n + 1)⟩)) := by
  have hlexes := lexes_of_distant_subtrahend standard.registry n
  rw [← String.toList_ofList (l := '1' :: _)] at hlexes
  refine parse_eq_ok_iff.mpr ⟨_, _, hlexes, List.forall_mem_nil _, ?_, ?_⟩
  · exact (derives_of_difference rfl rfl rfl).within (Nat.le_of_ble_eq_true rfl)
  · have hleaf : ∀ t, (Tree.leaf .number t).Accepted standard.registry := fun t ↦
      Tree.accepted_iff.mpr ⟨trivial, List.forall_mem_nil _⟩
    exact Tree.accepted_iff.mpr ⟨trivial,
      List.forall_mem_cons.mpr ⟨hleaf _, List.forall_mem_singleton.mpr (hleaf _)⟩⟩

/-- With 2³² - 2 blanks behind a minus its right operand stands at 4 GiB. The span of that operand
starts over from zero, and the span of the difference does not cover the minus. -/
theorem span_falls_short :
    let formula := String.ofList ('1' :: '-' :: (List.replicate 4294967294 ' ' ++ ['2']))
    let minus : Token := ⟨.minus, "-", ⟨1, 2⟩⟩
    let two : Tree := .leaf .number ⟨.number, "2", ⟨0, 1⟩⟩
    let tree : Tree := .binary .subtract minus (.leaf .number ⟨.number, "1", ⟨0, 1⟩⟩) two ⟨0, 1⟩
    standard.parse formula = .ok tree ∧ (∀ tokens, ¬ IsLUB (tree.marks tokens) tree.span) ∧
      ¬ minus.span.Precedes two.span := by
  intro formula minus two tree
  have hstop : ¬ (2 : UInt32) ≤ 0 := by decide
  have hroot : ¬ (2 : UInt32) ≤ 1 := by decide
  refine ⟨?_, fun tokens hlub ↦ ?_, hstop⟩
  · have hwraps : Span.between (2 + 4294967294) (2 + 4294967294 + 1) = ⟨0, 1⟩ := by decide
    have hparse := parse_of_distant_subtrahend 4294967294
    rw [hwraps] at hparse
    exact hparse
  · have hminus : minus.span ∈ tree.marks tokens := Tree.mem_marks_iff.mpr (.inl (.inl rfl))
    exact hroot (Span.le_def.mp (hlub.1 hminus)).2

end Engine

end DecimalFormula
