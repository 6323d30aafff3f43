import DecimalFormula.Proofs.Engine.Reading
import DecimalFormula.Proofs.Evaluation.Order
import DecimalFormula.Proofs.Scanning.Lossless
import DecimalFormula.Report.Basic

/-!
# Where errors are

All spans in an error about a formula of less than 4 GiB lie in that formula, so a report can point
at each of them (`Engine.spans_within`). There are three reasons. What the scanner complains about
are characters of the formula. The parser points at tokens, at one or from one to another. The
evaluator points at the tokens of nodes, which are tokens of the formula.
-/

namespace DecimalFormula

/-! ## The spans of an error -/

def ParseCause.tokens : ParseCause → List Token
  | unexpectedToken token _ | incompleteParse token => [token]
  | unexpectedEnd _ | wrongArgumentCount .. | tooDeep _ | unknownFunction _ => []

namespace Error

def spans : Error → List Span
  | lexical _ e => [e.span]
  | parse _ e => e.span :: e.cause.tokens.map Token.span
  | evaluation _ e => e.span :: e.frames.map Frame.span
  | file _ => []

def source? : Error → Option String
  | lexical source _ | parse source _ => some source
  | evaluation source? _ => source?
  | file _ => none

end Error

/-- A report on an error about a formula shows the formula, and labels the spans of the error. -/
theorem Report.exists_place_ofError {error : Error} {formula : String}
    (h : error.source? = some formula) : ∃ place, (ofError error).place? = some place ∧
      place.source = formula ∧
      ∀ label ∈ place.primary :: place.others, label.span ∈ error.spans := by
  cases error with
  | lexical source e =>
    obtain rfl : source = formula := Option.some.inj h
    exact ⟨_, rfl, rfl, by simp [Error.spans]⟩
  | parse source e =>
    obtain rfl : source = formula := Option.some.inj h
    exact ⟨_, rfl, rfl, by simp [Error.spans]⟩
  | evaluation source? e =>
    obtain rfl : source? = some formula := h
    refine ⟨_, rfl, rfl, List.forall_mem_cons.mpr ⟨List.mem_cons_self, ?_⟩⟩
    refine List.forall_mem_map.mpr fun frame hframe ↦ List.mem_cons_of_mem _ ?_
    exact List.mem_map_of_mem hframe
  | file e => cases h

/-! ## Scanning -/

theorem TextCursor.covers_here {source : String} {pre rest : List Char}
    (hsource : source.toList = pre ++ rest) :
    (TextCursor.here ⟨byteLength pre, rest⟩).Covers source (rest.take 1) := by
  refine ⟨pre, rest.drop 1, ?_, ?_⟩
  · rw [List.take_append_drop, hsource]
  · cases rest with
    | nil => rfl
    | cons c rest => rfl

/-- A malformed lexeme is wrong in some characters of the source, or at its end. -/
theorem Malformed.exists_covers {registry : Registry} {source : String} {pre rest : List Char}
    {e : LexicalError} (h : Malformed registry (byteLength pre) rest e)
    (hsource : source.toList = pre ++ rest) : ∃ cs, e.span.Covers source cs := by
  cases h with
  | @unrecognized c rest => exact ⟨[c], pre, rest, hsource, rfl⟩
  | @secondPoint ds es rest =>
    have hpoint : source.toList = pre ++ (ds ++ '.' :: es) ++ '.' :: rest := by simp [hsource]
    rw [← byteLength_append]
    exact ⟨_, TextCursor.covers_here hpoint⟩
  | @missingFraction ds rest =>
    refine ⟨['.'], pre ++ ds, rest, by simp [hsource], ?_⟩
    rw [byteLength_append]
    rfl
  | @outOfRange cs rest => exact ⟨cs, pre, rest, hsource, rfl⟩
  | @badIdentifierStart rest =>
    have hopening : source.toList = pre ++ ['\x7b'] ++ rest := by simp [hsource]
    have hcovers := TextCursor.covers_here hopening
    rw [byteLength_append] at hcovers
    exact ⟨_, hcovers⟩
  | @missingBrace c cs rest =>
    have hname : source.toList = pre ++ ['\x7b'] ++ c :: cs ++ rest := by simp [hsource]
    have hcovers := TextCursor.covers_here hname
    rw [byteLength_append, byteLength_append] at hcovers
    exact ⟨_, hcovers⟩
  | @unknownFunction c cs rest => exact ⟨c :: cs, pre, rest, hsource, rfl⟩

theorem Lexer.span_within_of_scan {registry : Registry} {formula : String} {e : LexicalError}
    (hsize : formula.utf8ByteSize < UInt32.size) (h : scan registry formula = .error e) :
    e.span.Within formula := by
  obtain ⟨pieces, blanks, rest, hrefusal⟩ := scan_eq_error_iff_refusal.mp h
  have hmalformed := hrefusal.malformed
  rw [← byteLength_append] at hmalformed
  obtain ⟨cs, hcovers⟩ := hmalformed.exists_covers (by rw [hrefusal.chars, List.append_assoc])
  exact hcovers.within hsize

/-! ## Parsing -/

theorem Tree.exists_tokens_of_ofTokens {registry : Registry} {limit : Nat} {tokens : List Token}
    {e : ParseError} (h : ofTokens registry limit tokens = .error e) :
    (∃ t ∈ TokenCursor.closed tokens, ∃ u ∈ TokenCursor.closed tokens,
      e.span = t.span.merge u.span) ∧ ∀ t ∈ e.cause.tokens, t ∈ TokenCursor.closed tokens := by
  obtain ⟨passed, c, hpass, h⟩ := exists_fault_of_ofTokens h
  rw [← TokenCursor.tokens_start, hpass.tokens_eq]
  have hcurrent : c.current ∈ passed ++ c.tokens := List.mem_append_right _ List.mem_cons_self
  have hspan : c.current.span = c.current.span.merge c.current.span := (Span.merge_self _).symm
  rcases h with ⟨headroom, hfault⟩ | rfl
  · cases hfault with
    | tooDeep => exact ⟨⟨_, hcurrent, _, hcurrent, hspan⟩, List.forall_mem_nil _⟩
    | mismatch =>
      refine ⟨⟨_, hcurrent, _, hcurrent, hspan⟩, ?_⟩
      dsimp only [Parser.mismatch]
      split
      · exact List.forall_mem_nil _
      · exact List.forall_mem_singleton.mpr hcurrent
    | @unknownFunction _ name hname =>
      have hname := List.mem_append_left c.tokens hname
      exact ⟨⟨name, hname, name, hname, (Span.merge_self _).symm⟩, List.forall_mem_nil _⟩
    | wrongArgumentCount hname =>
      exact ⟨⟨_, List.mem_append_left _ hname, _, hcurrent, rfl⟩, List.forall_mem_nil _⟩
  · exact ⟨⟨_, hcurrent, _, hcurrent, hspan⟩, List.forall_mem_singleton.mpr hcurrent⟩

/-! ## Evaluating -/

theorem Tree.exists_nodes_of_evaluate {registry : Registry} {bindings : Bindings} {tree : Tree}
    {e : EvalError} (h : evaluate registry bindings tree = .error e) :
    ∀ s ∈ e.span :: e.frames.map Frame.span, ∃ node ∈ tree.nodes, s = node.token.span := by
  obtain ⟨p, cause, inner, ⟨before, after, hplaces, -⟩, habove, rfl⟩ :=
    blames_of_evaluate_eq_error h []
  obtain ⟨hnode, hnodes⟩ : p.node ∈ tree.nodes ∧ ∀ node ∈ p.above, node ∈ tree.nodes ∨ node ∈ [] :=
    mem_nodes_of_mem_postorder (by rw [hplaces]; exact List.mem_append_right _ List.mem_cons_self)
  refine List.forall_mem_cons.mpr ⟨⟨p.node, hnode, rfl⟩, fun s hs ↦ ?_⟩
  obtain ⟨frame, hframe, rfl⟩ := List.mem_map.mp hs
  obtain ⟨node, hmem, rfl⟩ := List.mem_map.mp hframe
  rw [habove, List.append_nil] at hnodes
  exact ⟨node, (hnodes node hmem).resolve_right List.not_mem_nil, rfl⟩

/-! ## Formulas -/

namespace Engine

variable {e : Engine} {bindings : Bindings} {formula : String} {error : Error}

theorem spans_within_of_parse (hsize : formula.utf8ByteSize < UInt32.size)
    (h : e.parse formula = .error error) :
    error.source? = some formula ∧ ∀ s ∈ error.spans, s.Within formula := by
  rcases exists_of_parse_eq_error h with ⟨lexical, hscan, rfl⟩ | ⟨tokens, parse, hscan, hparse, rfl⟩
  · exact ⟨rfl, List.forall_mem_singleton.mpr (Lexer.span_within_of_scan hsize hscan)⟩
  · have hwithin : ∀ t ∈ TokenCursor.closed tokens, t.span.Within formula := by
      rw [Lexer.closed_of_scan hscan]
      exact fun t ht ↦ ((Lexer.pairwise_behind_of_scan hsize hscan).1 t ht).within hsize
    obtain ⟨⟨t, ht, u, hu, hspan⟩, htokens⟩ := Tree.exists_tokens_of_ofTokens hparse
    refine ⟨rfl, List.forall_mem_cons.mpr ⟨?_, ?_⟩⟩
    · rw [hspan]
      exact (hwithin t ht).merge (hwithin u hu)
    · exact List.forall_mem_map.mpr fun t ht ↦ hwithin t (htokens t ht)

theorem spans_within_of_evalFormula (hsize : formula.utf8ByteSize < UInt32.size)
    (h : e.evalFormula bindings formula = .error error) :
    error.source? = some formula ∧ ∀ s ∈ error.spans, s.Within formula := by
  rcases exists_of_evalFormula_eq_error h with hparse | ⟨tree, evaluation, hparse, heval, rfl⟩
  · exact spans_within_of_parse hsize hparse
  · obtain ⟨body, c, hlexes, hblanks, hderives, -⟩ := parse_eq_ok_iff.mp hparse
    have hfrom := (Lexer.pairwise_behind_of_scan hsize (Lexer.scan_of_blanks hlexes hblanks)).1
    refine ⟨rfl, fun s hs ↦ ?_⟩
    obtain ⟨node, hnode, rfl⟩ := Tree.exists_nodes_of_evaluate heval s hs
    exact (hfrom _ (List.mem_append_left _ (hderives.token_mem hnode))).within hsize

/-- **Errors are in the formula.** Whatever goes wrong when a formula of less than 4 GiB is read or
evaluated, all spans in the error lie in the formula: their ends are in order, not beyond the last
byte, and not inside a character. So the report of the error shows the formula, and every label in
it is about a part of that. -/
theorem spans_within (e : Engine) (bindings : Bindings) (formula : String) (error : Error)
    (hsize : formula.utf8ByteSize < UInt32.size)
    (h : e.parse formula = .error error ∨ e.evalFormula bindings formula = .error error) :
    (∀ s ∈ error.spans, s.Within formula) ∧
    ∃ place, (Report.ofError error).place? = some place ∧ place.source = formula ∧
      ∀ label ∈ place.primary :: place.others, label.span.Within place.source := by
  obtain ⟨hsource, hspans⟩ : error.source? = some formula ∧ ∀ s ∈ error.spans, s.Within formula :=
    h.elim (spans_within_of_parse hsize) (spans_within_of_evalFormula hsize)
  obtain ⟨place, hplace, hformula, hlabels⟩ := Report.exists_place_ofError hsource
  refine ⟨hspans, place, hplace, hformula, fun label hlabel ↦ ?_⟩
  rw [hformula]
  exact hspans _ (hlabels label hlabel)

/-- A character of two bytes is pointed at as a whole. -/
theorem spans_within_two_bytes :
    "1+é".utf8ByteSize < UInt32.size ∧ standard.evalFormula .empty "1+é" =
      .error (.lexical "1+é" ⟨.unrecognized 'é', ⟨2, 4⟩⟩) ∧ (Span.mk 2 4).Within "1+é" := by
  have herror : standard.evalFormula .empty "1+é" =
      .error (.lexical "1+é" ⟨.unrecognized 'é', ⟨2, 4⟩⟩) := by
    decide +kernel
  have hsize : "1+é".utf8ByteSize < UInt32.size := by decide
  obtain ⟨hspans, -⟩ := spans_within standard .empty "1+é" _ hsize (.inr herror)
  exact ⟨hsize, herror, hspans _ List.mem_cons_self⟩

end Engine

end DecimalFormula
