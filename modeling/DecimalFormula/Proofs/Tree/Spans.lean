import DecimalFormula.Evaluation
import DecimalFormula.Proofs.Tree.Places
import DecimalFormula.Tree.Text

/-!
# Trees but for their spans

Spans say where a formula stood in its text. Two trees that differ in nothing else are written alike
and evaluated alike: a value depends on no span, and an error only in the places it points at
(`Tree.evaluate_withoutSpans`).
-/

namespace DecimalFormula

/-- A token as it would be anywhere else. -/
def Token.withoutSpan (t : Token) : Token := { t with span := .emptyAt 0 }

/-- Whether two lists hold the same tokens but for their spans. -/
def SameWords (us ts : List Token) : Prop := us.map Token.withoutSpan = ts.map Token.withoutSpan

/-- An error as it would be anywhere else. -/
def EvalError.withoutSpans (e : EvalError) : EvalError :=
  ⟨e.cause, .emptyAt 0, e.frames.map fun f ↦ { f with span := .emptyAt 0 }⟩

@[simp] theorem Token.withoutSpan_text (t : Token) : t.withoutSpan.text = t.text := rfl

theorem Token.withoutSpan_eq_iff {u t : Token} :
    u.withoutSpan = t.withoutSpan ↔ u.kind = t.kind ∧ u.text = t.text := by
  simp [withoutSpan]

namespace SameWords

variable {us us' ts ts' : List Token} {t : Token}

theorem append (h : SameWords us ts) (h' : SameWords us' ts') :
    SameWords (us ++ us') (ts ++ ts') := by
  rw [SameWords, List.map_append, List.map_append, h, h']

theorem exists_cons (h : SameWords us (t :: ts)) :
    ∃ u vs, us = u :: vs ∧ u.withoutSpan = t.withoutSpan ∧ SameWords vs ts :=
  List.map_eq_cons_iff.mp h

theorem exists_append (h : SameWords us (ts ++ ts')) :
    ∃ vs vs', us = vs ++ vs' ∧ SameWords vs ts ∧ SameWords vs' ts' := by
  rw [SameWords, List.map_append] at h
  exact List.map_eq_append_iff.mp h

theorem exists_singleton (h : SameWords us [t]) :
    ∃ u, us = [u] ∧ u.withoutSpan = t.withoutSpan := by
  obtain ⟨u, vs, rfl, hu, hvs⟩ := h.exists_cons
  rw [List.map_eq_nil_iff.mp hvs]
  exact ⟨u, rfl, hu⟩

end SameWords

theorem EvalError.withoutSpans_through (t : Token) (e : EvalError) :
    (e.through t).withoutSpans = e.withoutSpans.through t.withoutSpan := by
  rw [through, through, withoutSpans, withoutSpans, List.map_append]
  rfl

theorem mapError_through_withoutSpan {α : Type} (t : Token) (r : Except EvalError α) :
    (r.mapError EvalError.withoutSpans).mapError (.through t.withoutSpan) =
      (r.mapError (.through t)).mapError EvalError.withoutSpans := by
  cases r with
  | ok => rfl
  | error e => simp only [Except.mapError, EvalError.withoutSpans_through]

theorem bind_withoutSpans {α β : Type} (r : Except EvalError α) (f : α → Except EvalError β) :
    (r.mapError EvalError.withoutSpans).bind (fun x ↦ (f x).mapError EvalError.withoutSpans) =
      (r.bind f).mapError EvalError.withoutSpans := by
  cases r <;> rfl

theorem located_withoutSpan (t : Token) (outcome : Except EvalCause Decimal) :
    located t.withoutSpan outcome = (located t outcome).mapError EvalError.withoutSpans := by
  cases outcome <;> rfl

namespace Tree

mutual

/-- A tree as it would be had its formula stood anywhere else. -/
def withoutSpans : Tree → Tree
  | leaf k t => leaf k t.withoutSpan
  | unary o t x _ => unary o t.withoutSpan (withoutSpans x) (.emptyAt 0)
  | binary o t l r _ => binary o t.withoutSpan (withoutSpans l) (withoutSpans r) (.emptyAt 0)
  | call name t args _ => call name t.withoutSpan (withoutSpansAll args) (.emptyAt 0)

def withoutSpansAll : List Tree → List Tree
  | [] => []
  | x :: xs => withoutSpans x :: withoutSpansAll xs

end

theorem withoutSpansAll_eq (xs : List Tree) : withoutSpansAll xs = xs.map withoutSpans := by
  induction xs with
  | nil => rfl
  | cons x xs ih => rw [withoutSpansAll, ih, List.map_cons]

/-! ## Texts -/

theorem renderLeaf_withoutSpan (kind : LeafKind) (t : Token) :
    renderLeaf kind t.withoutSpan = renderLeaf kind t := by
  cases kind <;> rfl

theorem render_withoutSpans (tree : Tree) : render (withoutSpans tree) = render tree := by
  induction tree with
  | leaf kind t => rw [withoutSpans, render, render, renderLeaf_withoutSpan]
  | unary _ _ _ _ ih => rw [withoutSpans, render, render, ih]
  | binary _ _ _ _ _ ihl ihr => rw [withoutSpans, render, render, ihl, ihr]
  | call name t args span ih =>
    have hargs : (args.map withoutSpans).map render = args.map render := by
      rw [List.map_map]
      exact List.map_congr_left ih
    rw [withoutSpans, render, render, withoutSpansAll_eq, renderAll_eq, renderAll_eq, hargs]

theorem words_withoutSpans (tree : Tree) : words (withoutSpans tree) = words tree := by
  induction tree with
  | leaf kind t => rw [withoutSpans, words, words, renderLeaf_withoutSpan]
  | unary _ _ _ _ ih => rw [withoutSpans, words, words, ih]
  | binary _ _ _ _ _ ihl ihr => rw [withoutSpans, words, words, ihl, ihr]
  | call name t args span ih =>
    have hargs : (args.map withoutSpans).flatMap words = args.flatMap words := by
      rw [List.flatMap_map]
      exact List.flatMap_congr ih
    rw [withoutSpans, words, words, withoutSpansAll_eq, wordsAll_eq, wordsAll_eq, hargs,
      List.length_map]

/-! ## Values and errors -/

variable {registry : Registry} {bindings : Bindings}

private theorem evaluateAll_withoutSpans {xs : List Tree}
    (h : ∀ x ∈ xs, evaluate registry bindings (withoutSpans x) =
      (evaluate registry bindings x).mapError EvalError.withoutSpans) :
    evaluateAll registry bindings (xs.map withoutSpans) =
      (evaluateAll registry bindings xs).mapError EvalError.withoutSpans := by
  induction xs with
  | nil => rfl
  | cons x xs ih =>
    obtain ⟨hx, hxs⟩ := List.forall_mem_cons.mp h
    rw [List.map_cons, evaluateAll, evaluateAll, hx, ih hxs]
    cases evaluate registry bindings x with
    | error e => rfl
    | ok v => cases evaluateAll registry bindings xs <;> rfl

/-- Without its spans a tree has the same value, or the same error but for the spans. -/
theorem evaluate_withoutSpans (registry : Registry) (bindings : Bindings) (tree : Tree) :
    evaluate registry bindings (withoutSpans tree) =
      (evaluate registry bindings tree).mapError EvalError.withoutSpans := by
  induction tree with
  | leaf kind t =>
    rw [withoutSpans, evaluate, evaluate, ← located_withoutSpan, Token.withoutSpan_text]
  | unary o t x span ih =>
    rw [withoutSpans, evaluate, evaluate, ih, mapError_through_withoutSpan]
    cases evaluate registry bindings x <;> rfl
  | binary o t l r span ihl ihr =>
    simp only [withoutSpans, evaluate, ihl, ihr, mapError_through_withoutSpan, located_withoutSpan,
      bind_withoutSpans]
  | call name t args span ih =>
    simp only [withoutSpans, evaluate, withoutSpansAll_eq, evaluateAll_withoutSpans ih,
      mapError_through_withoutSpan, located_withoutSpan, bind_withoutSpans]

end Tree

end DecimalFormula
