import DecimalFormula.Proofs.Engine.Layout
import DecimalFormula.Proofs.Printing.Text

/-!
# Formulas made of formulas

Formulas that can be parsed may be put into parentheses, behind an operator, on either side of one,
and between the parentheses of a call. The whole then is parsed as the tree put together from
theirs, within a limit that is eight or nine levels higher, and its value is computed from their
values, or its error from the error of the first that has none (`Engine.compositional`).

What has to be seen is that a formula is read in the longer text as it is read by itself. In the
text it is followed by a closing parenthesis or a comma, with which no lexeme goes on; blanks at its
end go with that. Where it stands there and how deep makes no difference, because a parser looks at
no span and reads a formula with any headroom that is enough for it.
-/

namespace DecimalFormula

/-! ## Texts that are read alike everywhere -/

/-- Wherever they stand, the characters are scanned as tokens that are read as a tree. -/
def ReadsAs (registry : Registry) (n : Nat) (level : Level) (cs : List Char) (tree : Tree) : Prop :=
  ∃ ts, (∀ rest, Lexer.Spells registry cs ts rest) ∧ Parser.Reads registry n level ts tree

/-- What may stand behind a formula in a longer text. -/
def closingSymbols : List (Char × TokenKind) := [(')', .rightParen), (',', .comma)]

/-- No lexeme goes on with a symbol that may stand behind a formula. -/
theorem TokenKind.of_closingSymbol {c : Char} {kind : TokenKind}
    (h : (c, kind) ∈ closingSymbols) :
    ofSymbol? c = some kind ∧ ∀ k : TokenKind, k.extendedBy c = false := by
  simp only [closingSymbols, List.mem_cons, List.not_mem_nil, or_false, Prod.mk.injEq] at h
  obtain ⟨rfl, rfl⟩ | ⟨rfl, rfl⟩ := h <;> exact ⟨rfl, fun k ↦ by cases k <;> rfl⟩

namespace Lexer

variable {registry : Registry} {cs rest : List Char} {ts us body : List Token} {end' : TextCursor}

theorem Spells.congr (h : Spells registry cs ts rest) (hsame : SameWords ts us) :
    Spells registry cs us rest := by
  intro n
  obtain ⟨vs, n', hvs, hwords⟩ := h n
  exact ⟨vs, n', hvs, hwords.trans hsame⟩

/-- A text is scanned as the same tokens by itself and in front of such a symbol. -/
theorem spells_append_symbol {c : Char} {kind : TokenKind} (hsymbol : (c, kind) ∈ closingSymbols)
    (h : Lexes registry (.start cs) body end') (hblanks : ∀ b ∈ end'.rest, isBlank b = true) :
    Spells registry (cs ++ [c]) (body ++ [.ofKind kind]) rest := by
  obtain ⟨ps, hchars, hrow, rfl, -⟩ := lexes_iff.mp h
  obtain ⟨hsymbol, hc⟩ := TokenKind.of_closingSymbol hsymbol
  obtain ⟨-, hliteral, hextended⟩ := TokenKind.of_symbol hsymbol
  -- The blanks behind the last lexeme are in front of the symbol now.
  let p : Piece := ⟨end'.rest, kind, kind.literal, [c]⟩
  have hlexeme : Lexeme registry kind kind.literal [c] := hliteral ▸ .symbol hsymbol
  have hp : Row registry rest [p] := .cons ⟨hblanks, hlexeme, fun d _ ↦ hextended d⟩ .nil
  have hspelling : spelling [p] = end'.rest ++ [c] := by
    rw [spelling_cons, Piece.chars]
    exact List.append_nil _
  have hends (k : TokenKind) : k.EndsAt (spelling [p] ++ rest) := by
    rw [hspelling]
    cases hrest : end'.rest with
    | nil => exact TokenKind.endsAt_cons (hc k)
    | cons b bs => exact TokenKind.endsAt_of_blank (hblanks b (by simp [hrest])) _ _
  have hspells := Spells.append (.of_row (hrow.of_endsAt fun k _ ↦ hends k)) (.of_row hp)
  rw [hspelling, ← List.append_assoc, ← hchars] at hspells
  exact hspells.congr (SameWords.append rfl rfl)

end Lexer

namespace Lexeme

variable {registry : Registry} {kind : TokenKind}

theorem of_isOperator (h : kind.isOperator = true) :
    Lexeme registry kind kind.literal kind.literal.toList := by
  have hchar : ∃ c, TokenKind.ofSymbol? c = some kind ∨
      (c, kind) ∈ openOperators ∨ (c, kind) ∈ closedOperators := by
    refine ⟨kind.literal.toList.headD ' ', ?_⟩
    revert h
    cases kind <;> decide
  obtain ⟨c, h | h | h⟩ := hchar
  · rw [(TokenKind.of_symbol h).2.1, String.toList_ofList]
    exact .symbol h
  · rw [(TokenKind.of_openOperator h).2.1, String.toList_ofList]
    exact .openOperator h
  · rw [(TokenKind.of_closedOperator h).2.1, String.toList_ofList]
    exact .closedOperator h

theorem spells_operator (h : kind.isOperator = true) (rest : List Char) :
    Lexer.Spells registry kind.literal.toList [.ofKind kind] ('(' :: rest) := by
  have hword : kind.isNamedByWord = false := by
    revert h
    cases kind <;> decide
  exact .lexeme (of_isOperator h) (TokenKind.endsAt_of_ne_equals hword (by decide))

end Lexeme

namespace ReadsAs

variable {registry : Registry} {n : Nat} {cs ds : List Char} {t u : Tree}

theorem of_primary (h : ReadsAs registry n .primary cs t) :
    ReadsAs registry (n + 7) .disjunction cs t := by
  obtain ⟨ts, hspells, hderives, haccepted⟩ := h
  exact ⟨ts, hspells, hderives.of_primary (Nat.le_add_right _ _), haccepted⟩

theorem unary (o : UnaryOp) (h : ReadsAs registry n .primary ('(' :: cs) t) :
    ReadsAs registry (n + 8) .disjunction (o.literal.toList ++ '(' :: cs)
      (.mkUnary o (.ofKind o.kind) t) := by
  obtain ⟨ts, hspells, hderives, haccepted⟩ := h
  have ho : o.kind.isOperator = true := by cases o <;> rfl
  have hliteral := UnaryOp.literal_of_ofKind? o.ofKind?_kind
  refine ⟨.ofKind o.kind :: ts, fun rest ↦ ?_, hderives.sign_primary o.ofKind?_kind, ?_⟩
  · rw [← hliteral]
    exact (Lexeme.spells_operator ho (cs ++ rest)).append (hspells rest)
  · exact Tree.accepted_iff.mpr ⟨trivial, by simpa using haccepted⟩

theorem binary (o : BinaryOp) (hx : ReadsAs registry n .primary cs t)
    (hy : ReadsAs registry n .primary ('(' :: ds) u) :
    ReadsAs registry (n + 8) .disjunction (cs ++ (o.literal.toList ++ '(' :: ds))
      (.mkBinary o (.ofKind o.kind) t u) := by
  obtain ⟨ts, hts, hderives, haccepted⟩ := hx
  obtain ⟨us, hus, hderives', haccepted'⟩ := hy
  have ho : o.kind.isOperator = true := by cases o <;> rfl
  have hliteral := BinaryOp.literal_of_ofKind? o.ofKind?_kind
  refine ⟨ts ++ .ofKind o.kind :: us, fun rest ↦ ?_,
    hderives.join_primary o.ofKind?_kind hderives', ?_⟩
  · rw [← hliteral]
    exact (hts _).append ((Lexeme.spells_operator ho (ds ++ rest)).append (hus rest))
  · exact Tree.accepted_iff.mpr ⟨trivial, by simpa using ⟨haccepted, haccepted'⟩⟩

end ReadsAs

/-! ## Formulas as parts -/

namespace Engine

variable {e : Engine} {f g text : String} {t u : Tree} {fs : List String} {ts : List Tree}

/-- A formula in front of a closing parenthesis or a comma is read as by itself. -/
theorem exists_reads_of_parse (h : e.parse f = .ok t) :
    ∃ body, Parser.Reads e.registry e.limit .disjunction body t ∧
      ∀ {c kind rest}, (c, kind) ∈ closingSymbols →
        Lexer.Spells e.registry (f.toList ++ [c]) (body ++ [.ofKind kind]) rest := by
  obtain ⟨body, end', hlexes, hblanks, hreads⟩ := parse_eq_ok_iff.mp h
  exact ⟨body, hreads, fun hsymbol ↦ Lexer.spells_append_symbol hsymbol hlexes hblanks⟩

theorem readsAs_parenthesized (h : e.parse f = .ok t) :
    ReadsAs e.registry (e.limit + 1) .primary ('(' :: (f.toList ++ [')'])) t := by
  obtain ⟨body, ⟨hderives, haccepted⟩, hspells⟩ := exists_reads_of_parse h
  refine ⟨_, fun rest ↦ ?_, .parenthesized (t := .ofKind .leftParen) (u := .ofKind .rightParen)
    rfl hderives rfl, haccepted⟩
  have hclose : Lexer.Spells e.registry (f.toList ++ [')']) (body ++ [.ofKind .rightParen]) rest :=
    hspells (by decide)
  exact (Tree.spells_symbol .leftParen rfl).append hclose

/-- Formulas with commas between them and a closing parenthesis behind the last. By induction on the
formulas behind the first: each of them ends at the comma of the next. -/
theorem exists_readsFurther (hf : e.parse f = .ok t)
    (hfs : List.Forall₂ (fun f t ↦ e.parse f = .ok t) fs ts) :
    ∃ us vs, Parser.Reads e.registry e.limit .disjunction us t ∧
      Parser.ReadsFurther e.registry e.limit vs ts ∧
      ∀ rest, Lexer.Spells e.registry
        ([','].intercalate ((f :: fs).map String.toList) ++ [')'])
        (us ++ vs ++ [.ofKind .rightParen]) rest := by
  induction hfs generalizing f t with
  | nil =>
    obtain ⟨us, hus, hspells⟩ := exists_reads_of_parse hf
    refine ⟨us, [], hus, ⟨[], rfl, rfl, by simp, by simp⟩, fun rest ↦ ?_⟩
    rw [List.append_nil, List.map_singleton, List.intercalate_singleton]
    exact hspells (by decide)
  | @cons g u gs us' hg _ ih =>
    obtain ⟨us, hus, hspells⟩ := exists_reads_of_parse hf
    obtain ⟨vs, ws, hvs, ⟨more, rfl, rfl, hcommas, hmore⟩, hrest⟩ := ih hg
    refine ⟨us, _, hus, ⟨⟨.ofKind .comma, vs, u⟩ :: more, rfl, rfl, ?_, ?_⟩, fun rest ↦ ?_⟩
    · exact List.forall_mem_cons.mpr ⟨rfl, hcommas⟩
    · exact List.forall_mem_cons.mpr ⟨hvs, hmore⟩
    · have hcomma {rest : List Char} : Lexer.Spells e.registry (f.toList ++ [','])
          (us ++ [.ofKind .comma]) rest := hspells (by decide)
      have hall := hcomma.append (hrest rest)
      simpa [furtherTokens, List.intercalate_cons_cons] using hall

theorem exists_readsArguments (h : List.Forall₂ (fun f t ↦ e.parse f = .ok t) fs ts) :
    ∃ us, Parser.ReadsArguments e.registry e.limit us ts ∧
      ∀ rest, Lexer.Spells e.registry ([','].intercalate (fs.map String.toList) ++ [')'])
        (us ++ [.ofKind .rightParen]) rest := by
  cases h with
  | nil => exact ⟨[], .inl ⟨rfl, rfl⟩, fun rest ↦ Tree.spells_symbol .rightParen rfl⟩
  | @cons f t fs ts hf hfs =>
    obtain ⟨us, vs, hus, hvs, hspells⟩ := exists_readsFurther hf hfs
    exact ⟨us ++ vs, .inr ⟨us, t, vs, ts, rfl, rfl, hus, hvs⟩, hspells⟩

theorem readsAs_call {name : List Char} {arity : Arity}
    (hname : Lexeme e.registry .function text name) (harity : e.registry.arity? text = some arity)
    (haccepts : arity.accepts fs.length = true)
    (h : List.Forall₂ (fun f t ↦ e.parse f = .ok t) fs ts) :
    ReadsAs e.registry (e.limit + 1) .primary
      (name ++ '(' :: ([','].intercalate (fs.map String.toList) ++ [')']))
      (.call text ⟨.function, text, .emptyAt 0⟩ ts (.emptyAt 0)) := by
  obtain ⟨us, hus, hspells⟩ := exists_readsArguments h
  rw [h.length_eq] at haccepts
  have hreads := Parser.reads_call (f := ⟨.function, text, .emptyAt 0⟩) (t := .ofKind .leftParen)
    (u := .ofKind .rightParen) rfl rfl rfl hus ⟨arity, harity, haccepts⟩
  refine ⟨_, fun rest ↦ ?_, hreads⟩
  have hfunction : Lexer.Spells e.registry name [⟨.function, text, .emptyAt 0⟩]
      ('(' :: ([','].intercalate (fs.map String.toList) ++ [')']) ++ rest) :=
    .lexeme hname (TokenKind.endsAt_cons rfl)
  exact hfunction.append ((Tree.spells_symbol .leftParen rfl).append (hspells rest))

theorem shape_of_readsAs (h : ReadsAs e.registry e.limit .disjunction text.toList t) :
    e.shape text = .ok t.withoutSpans := by
  obtain ⟨ts, hspells, hderives, haccepted⟩ := h
  obtain ⟨us, n, hlexes, hsame⟩ := hspells [] 0
  rw [List.append_nil] at hlexes
  exact shape_of_sameWords (Lexer.scan_of_blanks hlexes (List.forall_mem_nil _)) hsame hderives
    haccepted

end Engine

/-! ## Values of the whole -/

/-- An error that has come out of one more application. -/
def Error.framed (operator : String) : Error → Error
  | evaluation source error =>
    evaluation source { error with frames := error.frames ++ [⟨operator, .emptyAt 0⟩] }
  | error => error

/-- The error of a node whose own step fails. -/
def Error.ofCause (cause : EvalCause) : Error := .evaluation none ⟨cause, .emptyAt 0, []⟩

namespace Engine

variable {e : Engine} {bindings : Bindings}

def deeper (n : Nat) (e : Engine) : Engine := { e with limit := e.limit + n }

theorem evaluation_through {α : Type} (t : Token) (r : Except EvalError α) :
    (r.mapError (EvalError.through t.withoutSpan)).mapError (Error.evaluation none) =
      (r.mapError (Error.evaluation none)).mapError (Error.framed t.text) := by
  cases r <;> rfl

theorem evaluation_located (t : Token) (r : Except EvalCause Decimal) :
    (located t.withoutSpan r).mapError (Error.evaluation none) = r.mapError Error.ofCause := by
  cases r <;> rfl

private theorem mapError_bind {ε ε' α β : Type} (r : Except ε α) (next : α → Except ε β)
    (f : ε → ε') :
    (r.bind next).mapError f = (r.mapError f).bind fun x ↦ (next x).mapError f := by
  cases r <;> rfl

/-- An operator in front of its operand adds a frame to the error of that, and has none itself. -/
theorem evaluate_unary (o : UnaryOp) (x : Tree) :
    e.evaluate bindings (.mkUnary o (.ofKind o.kind) x) =
      ((e.evaluate bindings x).mapError (.framed o.literal)).map o.apply := by
  have htoken : Token.ofKind o.kind = (Token.ofKind o.kind).withoutSpan := rfl
  rw [← UnaryOp.literal_of_ofKind? o.ofKind?_kind, evaluate, evaluate, Tree.mkUnary, Tree.evaluate,
    htoken]
  cases x.evaluate e.registry bindings <;> rfl

/-- An operator between its operands adds a frame to the error of the first that fails. -/
theorem evaluate_binary (o : BinaryOp) (x y : Tree) :
    e.evaluate bindings (.mkBinary o (.ofKind o.kind) x y) =
      ((e.evaluate bindings x).mapError (.framed o.literal)).bind fun a ↦
        ((e.evaluate bindings y).mapError (.framed o.literal)).bind fun b ↦
          (o.apply a b).mapError fun error ↦ .ofCause (.operation error) := by
  have hstep (a b : Decimal) : (binaryStep o a b).mapError Error.ofCause =
      (o.apply a b).mapError fun error ↦ .ofCause (.operation error) := by
    rw [binaryStep]
    cases o.apply a b <;> rfl
  have htoken : Token.ofKind o.kind = (Token.ofKind o.kind).withoutSpan := rfl
  rw [← BinaryOp.literal_of_ofKind? o.ofKind?_kind, evaluate, evaluate, evaluate, Tree.mkBinary,
    Tree.evaluate, htoken]
  simp only [mapError_bind, evaluation_through, evaluation_located, hstep]
  rfl

/-- A function adds a frame to the error of the first argument that fails. -/
theorem evaluate_call (name : String) (xs : List Tree) :
    e.evaluate bindings (.call name ⟨.function, name, .emptyAt 0⟩ xs (.emptyAt 0)) =
      ((xs.mapM (e.evaluate bindings)).mapError (.framed name)).bind fun values ↦
        (e.registry.call name values).mapError fun error ↦ .ofCause (.call name error) := by
  have hstep (values : List Decimal) : (callStep e.registry name values).mapError Error.ofCause =
      (e.registry.call name values).mapError fun error ↦ .ofCause (.call name error) := by
    rw [callStep]
    cases e.registry.call name values <;> rfl
  have htoken : (⟨.function, name, .emptyAt 0⟩ : Token) =
      Token.withoutSpan ⟨.function, name, .emptyAt 0⟩ := rfl
  have hall : (Tree.evaluateAll e.registry bindings xs).mapError (.evaluation none) =
      xs.mapM (e.evaluate bindings) := by
    induction xs with
    | nil => rfl
    | cons x xs ih =>
      rw [Tree.evaluateAll, List.mapM_cons, ← ih, evaluate]
      cases x.evaluate e.registry bindings with
      | error error => rfl
      | ok value => cases Tree.evaluateAll e.registry bindings xs <;> rfl
  rw [← hall, evaluate, Tree.evaluate, htoken]
  simp only [mapError_bind, evaluation_through, evaluation_located, hstep]

theorem outcome_of_shape {text : String} {x : Tree} (h : e.shape text = .ok x)
    (bindings : Bindings) : e.outcome bindings text = e.evaluate bindings x := by
  rw [outcome_eq, h]
  rfl

theorem shape_and_outcome_of_readsAs {text : String} {t x : Tree} {r : Except Error Decimal}
    (h : ReadsAs e.registry e.limit .disjunction text.toList t) (hx : t.withoutSpans = x)
    (hr : e.evaluate bindings x = r) :
    e.shape text = .ok x ∧ e.outcome bindings text = r := by
  have hshape := shape_of_readsAs h
  rw [hx] at hshape
  exact ⟨hshape, (outcome_of_shape hshape bindings).trans hr⟩

theorem mapM_outcome {fs : List String} {ts : List Tree}
    (h : List.Forall₂ (fun f t ↦ e.parse f = .ok t) fs ts) (bindings : Bindings) :
    fs.mapM (e.outcome bindings) = (ts.map Tree.withoutSpans).mapM (e.evaluate bindings) := by
  induction h with
  | nil => rfl
  | cons hf _ ih =>
    rw [List.mapM_cons, List.map_cons, List.mapM_cons, ih, outcome_of_shape (shape_of_parse hf)]

/-! ## Composition -/

/-- **Composition.** Let two formulas be parsed within a limit. With nine levels more the first is
parsed in parentheses behind every operator of one operand, and with an operator and the second in
parentheses behind it; with eight levels more it is parsed in parentheses by themselves, and so is
every call of a function with a number of such formulas that the function takes. The tree is put
together from theirs.

The value is that of the operator or the function at their values. If one of them has none, the
error is that of the first that has none with one frame more, that of the operator or the function.
Parentheses add no frame. -/
theorem compositional {f g : String} {t u : Tree} (hf : e.parse f = .ok t)
    (hg : e.parse g = .ok u) (bindings : Bindings) :
    (∀ o : BinaryOp,
      let text := "(" ++ f ++ ")" ++ o.literal ++ "(" ++ g ++ ")"
      (e.deeper 9).shape text =
        .ok (.mkBinary o (.ofKind o.kind) t.withoutSpans u.withoutSpans) ∧
      (e.deeper 9).outcome bindings text =
        ((e.outcome bindings f).mapError (Error.framed o.literal)).bind fun x ↦
          ((e.outcome bindings g).mapError (Error.framed o.literal)).bind fun y ↦
            (o.apply x y).mapError fun error ↦ Error.ofCause (.operation error)) ∧
    (∀ o : UnaryOp,
      let text := o.literal ++ "(" ++ f ++ ")"
      (e.deeper 9).shape text = .ok (.mkUnary o (.ofKind o.kind) t.withoutSpans) ∧
      (e.deeper 9).outcome bindings text =
        ((e.outcome bindings f).mapError (Error.framed o.literal)).map o.apply) ∧
    ((e.deeper 8).shape ("(" ++ f ++ ")") = .ok t.withoutSpans ∧
      (e.deeper 8).outcome bindings ("(" ++ f ++ ")") = e.outcome bindings f) ∧
    ∀ (name : String) (arity : Arity) (fs : List String) (ts : List Tree),
      Lexeme e.registry .function (Text.upper name) name.toList →
      e.registry.arity? name = some arity → arity.accepts fs.length = true →
      List.Forall₂ (fun f t ↦ e.parse f = .ok t) fs ts →
      let text := name ++ "(" ++ ",".intercalate fs ++ ")"
      (e.deeper 8).shape text = .ok (.call (Text.upper name)
        ⟨.function, Text.upper name, .emptyAt 0⟩ (ts.map Tree.withoutSpans) (.emptyAt 0)) ∧
      (e.deeper 8).outcome bindings text =
        ((fs.mapM (e.outcome bindings)).mapError (Error.framed (Text.upper name))).bind
          fun values ↦ (e.registry.call (Text.upper name) values).mapError
            fun error ↦ Error.ofCause (.call (Text.upper name) error) := by
  have hreads := readsAs_parenthesized hf
  have hreads' := readsAs_parenthesized hg
  have hvalue := outcome_of_shape (shape_of_parse hf) bindings
  have hvalue' := outcome_of_shape (shape_of_parse hg) bindings
  refine ⟨fun o ↦ ?_, fun o ↦ ?_, ?_, fun name arity fs ts hname harity haccepts hfs ↦ ?_⟩
  · intro text
    have htext : text.toList = '(' :: (f.toList ++ [')']) ++
        (o.literal.toList ++ '(' :: (g.toList ++ [')'])) := by simp [text]
    refine shape_and_outcome_of_readsAs (e := e.deeper 9) (htext ▸ hreads.binary o hreads')
      (Tree.withoutSpans_mkBinary ..) ?_
    rw [hvalue, hvalue']
    exact evaluate_binary ..
  · intro text
    have htext : text.toList = o.literal.toList ++ '(' :: (f.toList ++ [')']) := by simp [text]
    refine shape_and_outcome_of_readsAs (e := e.deeper 9) (htext ▸ hreads.unary o)
      (Tree.withoutSpans_mkUnary ..) ?_
    rw [hvalue]
    exact evaluate_unary ..
  · have htext : ("(" ++ f ++ ")").toList = '(' :: (f.toList ++ [')']) := by simp
    exact shape_and_outcome_of_readsAs (e := e.deeper 8) (htext ▸ hreads.of_primary) rfl
      hvalue.symm
  · intro text
    have htext : text.toList =
        name.toList ++ '(' :: ([','].intercalate (fs.map String.toList) ++ [')']) := by simp [text]
    have harity : e.registry.arity? (Text.upper name) = some arity := by
      rw [Registry.arity?, Registry.get?_upper]
      exact harity
    have hcall := (readsAs_call hname harity haccepts hfs).of_primary
    refine shape_and_outcome_of_readsAs (e := e.deeper 8) (htext ▸ hcall) ?_ ?_
    · rw [Tree.withoutSpans, Tree.withoutSpansAll_eq]
      rfl
    · rw [mapM_outcome hfs]
      exact evaluate_call ..

/-- A quotient of numbers, a number in parentheses behind a sign, and a call. -/
theorem compositional_numbers :
    let two : Tree := .leaf .number ⟨.number, "2", .emptyAt 0⟩
    let zero : Tree := .leaf .number ⟨.number, "0", .emptyAt 0⟩
    standard.shape "2 " = .ok two ∧ standard.shape "0" = .ok zero ∧
    (standard.deeper 9).shape "(2 )/(0)" = .ok (.mkBinary .divide (.ofKind .divide) two zero) ∧
    (standard.deeper 9).outcome .empty "(2 )/(0)" =
      .error (.ofCause (.operation .divisionByZero)) ∧
    (standard.deeper 9).outcome .empty "-(2 )" = .ok ⟨true, 2, 0, by decide, by decide⟩ ∧
    (standard.deeper 8).outcome .empty "max(0,2 )" = .ok ⟨false, 2, 0, by decide, by decide⟩ := by
  intro two zero
  have htwo : standard.parse "2 " = .ok (.leaf .number ⟨.number, "2", ⟨0, 1⟩⟩) := by
    decide +kernel
  have hzero : standard.parse "0" = .ok (.leaf .number ⟨.number, "0", ⟨0, 1⟩⟩) := by
    decide +kernel
  have hname : Lexeme .standard .function (Text.upper "max") ['m', 'a', 'x'] :=
    @Lexeme.function _ 'm' ['a', 'x'] rfl (List.all_eq_true.mp rfl) (by decide +kernel)
  obtain ⟨hbinary, hunary, -, hcall⟩ := compositional htwo hzero .empty
  have hquotient := hbinary .divide
  have hmaximum := hcall "max" .atLeastOne ["0", "2 "] _ hname (by decide +kernel) rfl
    (.cons hzero (.cons htwo .nil))
  refine ⟨shape_of_parse htwo, shape_of_parse hzero, hquotient.1, hquotient.2.trans ?_,
    (hunary .minus).2.trans ?_, hmaximum.2.trans ?_⟩ <;> decide +kernel

end Engine

end DecimalFormula
