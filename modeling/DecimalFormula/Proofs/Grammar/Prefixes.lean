import DecimalFormula.Proofs.Grammar.Derivation

/-!
# How formulas begin

Some tokens begin something of a sort, such as a formula of a level or the arguments of a call, if
others can follow them that make it complete (`Begins`). What follows is up to the grammar alone: an
operand that is missing can always be a number, and what is open can be closed.

Beginnings are put together as formulas are. If all that is of one sort, with some tokens in front,
begins something of another sort, then the same tokens lead from the beginnings of the one to those
of the other (`Begins.behind`). So every production needs one rule, for what is complete.
-/

namespace DecimalFormula

variable {level : Level} {ts us xs ys : List Token} {t f u : Token}
  {sort sort' : List Token → Prop}

def IsFormula (level : Level) (ts : List Token) : Prop := ∃ tree, Derives level ts tree

def AreFurther (ts : List Token) : Prop :=
  ∃ more, ts = furtherTokens more ∧ (∀ m ∈ more, m.comma.kind = .comma) ∧
    ∀ m ∈ more, Derives .disjunction m.tokens m.tree

def AreArguments (ts : List Token) : Prop :=
  ts = [] ∨ ∃ xs ys, ts = xs ++ ys ∧ IsFormula .disjunction xs ∧ AreFurther ys

/-- Some tokens begin something of a sort: others can follow them that make it complete. -/
def Begins (sort : List Token → Prop) (ts : List Token) : Prop := ∃ rest, sort (ts ++ rest)

/-! ## Beginnings -/

namespace Begins

theorem of_complete (h : sort ts) : Begins sort ts := ⟨[], by rwa [List.append_nil]⟩

theorem of_append (us : List Token) (h : Begins sort (ts ++ us)) : Begins sort ts := by
  obtain ⟨rest, hrest⟩ := h
  exact ⟨us ++ rest, by rwa [← List.append_assoc]⟩

/-- **Behind some tokens** what begins the one sort begins the other if all of the one sort does. -/
theorem behind (ts : List Token) (h : Begins sort us)
    (hsort : ∀ vs, sort vs → Begins sort' (ts ++ vs)) : Begins sort' (ts ++ us) := by
  obtain ⟨rest, hrest⟩ := h
  refine of_append rest ?_
  rw [List.append_assoc]
  exact hsort _ hrest

end Begins

/-! ## Formulas -/

namespace IsFormula

theorem exists_within (h : IsFormula level xs) : ∃ n x, DerivesWithin n level xs x := by
  obtain ⟨x, hx⟩ := h
  exact ⟨8 * xs.length, x, hx.within (Nat.le_add_right _ _)⟩

theorem of_within {n : Nat} {x : Tree} (h : DerivesWithin n level xs x) : IsFormula level xs :=
  ⟨x, h.derives⟩

theorem tighter (hlevel : level ≠ .primary) (h : IsFormula level.tighter xs) :
    IsFormula level xs := by
  obtain ⟨n, x, hx⟩ := h.exists_within
  exact .of_within (.tighter hlevel hx)

theorem sign {o : UnaryOp} (ht : level.sign? t.kind = some o) (h : IsFormula level xs) :
    IsFormula level (t :: xs) := by
  obtain ⟨n, x, hx⟩ := h.exists_within
  exact .of_within (.sign ht hx)

theorem join {o : BinaryOp} (hx : IsFormula level.tighter xs)
    (ht : level.operator? t.kind = some o) (hy : IsFormula level.right ys) :
    IsFormula level (xs ++ t :: ys) := by
  obtain ⟨n, x, hx⟩ := hx.exists_within
  obtain ⟨m, y, hy⟩ := hy.exists_within
  have hx := hx.mono (Nat.le_max_left n m)
  have hy := hy.mono (Nat.le_max_right n m)
  exact .of_within (.join hx ht hy)

theorem looser {looser : Level} (h : IsFormula level xs) (hrank : looser.rank ≤ level.rank) :
    IsFormula looser xs := by
  obtain ⟨n, x, hx⟩ := h.exists_within
  exact .of_within (hx.looser (m := n + level.rank) hrank (Nat.le_add_right _ _))

theorem of_primary (h : IsFormula .primary xs) (level : Level) : IsFormula level xs :=
  h.looser level.rank_le

theorem number (level : Level) (ht : t.kind = .number) : IsFormula level [t] :=
  of_primary ⟨_, .number ht⟩ level

theorem parenthesized (ht : t.kind = .leftParen) (h : IsFormula .disjunction xs)
    (hu : u.kind = .rightParen) : IsFormula .primary (t :: (xs ++ [u])) := by
  obtain ⟨x, hx⟩ := h
  exact ⟨x, .parenthesized ht hx hu⟩

theorem call (hf : f.kind = .function) (ht : t.kind = .leftParen) (hargs : AreArguments xs)
    (hu : u.kind = .rightParen) : IsFormula .primary (f :: t :: (xs ++ [u])) := by
  obtain rfl | ⟨xs, ys, rfl, ⟨x, hx⟩, more, rfl, hcommas, hmore⟩ := hargs
  · exact ⟨_, .emptyCall hf ht hu⟩
  · exact ⟨_, .call hf ht hx hcommas hmore hu⟩

end IsFormula

theorem AreFurther.nil : AreFurther [] :=
  ⟨[], rfl, List.forall_mem_nil _, List.forall_mem_nil _⟩

theorem AreFurther.cons (ht : t.kind = .comma) (hxs : IsFormula .disjunction xs)
    (h : AreFurther ys) : AreFurther (t :: (xs ++ ys)) := by
  obtain ⟨x, hx⟩ := hxs
  obtain ⟨more, rfl, hcommas, hmore⟩ := h
  exact ⟨⟨t, xs, x⟩ :: more, rfl, List.forall_mem_cons.mpr ⟨ht, hcommas⟩,
    List.forall_mem_cons.mpr ⟨hx, hmore⟩⟩

theorem AreFurther.append (h : AreFurther xs) (h' : AreFurther ys) : AreFurther (xs ++ ys) := by
  obtain ⟨more, rfl, hcommas, hmore⟩ := h
  obtain ⟨more', rfl, hcommas', hmore'⟩ := h'
  exact ⟨more ++ more', List.flatMap_append.symm, List.forall_mem_append.mpr ⟨hcommas, hcommas'⟩,
    List.forall_mem_append.mpr ⟨hmore, hmore'⟩⟩

/-! ## What can still follow -/

theorem begins_nil (level : Level) : Begins (IsFormula level) [] :=
  ⟨[⟨.number, "0", .emptyAt 0⟩], .number level rfl⟩

theorem begins_sign {o : UnaryOp} (ht : level.sign? t.kind = some o) :
    Begins (IsFormula level) [t] :=
  (begins_nil level).behind [t] fun _ hxs ↦ .of_complete (.sign ht hxs)

theorem begins_parenthesized (ht : t.kind = .leftParen) (h : IsFormula .disjunction xs) :
    Begins (IsFormula .primary) (t :: xs) :=
  ⟨[⟨.rightParen, ")", .emptyAt 0⟩], .parenthesized ht h rfl⟩

theorem begins_call (hf : f.kind = .function) (ht : t.kind = .leftParen) (h : AreArguments xs) :
    Begins (IsFormula .primary) (f :: t :: xs) :=
  ⟨[⟨.rightParen, ")", .emptyAt 0⟩], .call hf ht h rfl⟩

theorem begins_comma (h : AreArguments xs) (hne : xs ≠ []) (ht : t.kind = .comma) :
    Begins AreArguments (xs ++ [t]) := by
  obtain hnil | ⟨xs, ys, rfl, hxs, hys⟩ := h
  · exact absurd hnil hne
  obtain ⟨zs, hzs⟩ := begins_nil .disjunction
  refine ⟨zs, .inr ⟨xs, ys ++ t :: zs, ?_, hxs, ?_⟩⟩
  · simp only [List.append_assoc, List.singleton_append]
  · have hfurther := hys.append (.cons ht hzs .nil)
    rwa [List.nil_append, List.append_nil] at hfurther

theorem begins_primary (ht : t.kind ∈ [.number, .identifier, .function, .leftParen]) :
    Begins (IsFormula .primary) [t] := by
  simp only [List.mem_cons, List.not_mem_nil, or_false] at ht
  rcases ht with h | h | h | h
  · exact .of_complete (.number .primary h)
  · exact .of_complete ⟨_, .identifier h⟩
  · let opening : Token := ⟨.leftParen, "(", .emptyAt 0⟩
    exact .of_append [opening] (begins_call h rfl (.inl rfl))
  · exact (begins_nil .disjunction).behind [t] fun _ ↦ begins_parenthesized h

theorem begins_of_canStart (ht : level.CanStart t.kind) : Begins (IsFormula level) [t] := by
  rcases ht with ht | ⟨o, ho, hrank⟩
  · exact (begins_primary ht).behind [] fun _ hxs ↦ .of_complete (hxs.of_primary level)
  · have hsign : o.level.sign? t.kind = some o := Level.sign?_eq_some_iff.mpr ⟨ho, rfl⟩
    exact (begins_sign hsign).behind [] fun _ hxs ↦ .of_complete (hxs.looser hrank)

/-- A power begins with any of the tokens that a message names where an operand is missing. -/
theorem begins_operand (ht : t.kind ∈ Level.operandKinds) : Begins (IsFormula .power) [t] :=
  begins_of_canStart (Level.canStart_of_mem_operandKinds ht (by decide))

end DecimalFormula
