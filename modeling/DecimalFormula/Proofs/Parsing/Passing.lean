import DecimalFormula.TokenCursor
import Mathlib.Data.List.Basic

/-!
# What a token cursor passes

A parser moves its cursor over some tokens and stops in front of the rest. `TokenCursor.Passes` says
so without a parser: the tokens in front of the second cursor are split off what the first one still
has, the index grows by their number, and none of them ends the input.

A cursor that was started on a list of tokens always has an end of input ahead (`Closed`), which is
why it can move past every other token.
-/

namespace DecimalFormula

namespace TokenCursor

/-- The last token ahead ends the input. -/
def Closed (c : TokenCursor) : Prop := ∃ last, c.tokens.getLast? = some last ∧ last.isEnd = true

/-- Going on from the first cursor over some tokens, none of which ends the input, leads to the
second one. -/
structure Passes (c : TokenCursor) (ts : List Token) (c' : TokenCursor) : Prop where
  /-- The tokens are the first of those ahead. -/
  tokens_eq : c.tokens = ts ++ c'.tokens
  /-- They are counted. -/
  index_eq : c'.index = c.index + ts.length
  /-- None of them ends the input. -/
  inner : ∀ t ∈ ts, t.isEnd = false

variable {c c' c'' : TokenCursor} {ts us : List Token} {t : Token}

theorem tokens_eq_cons (c : TokenCursor) : c.tokens = c.current :: c.ahead := rfl

@[ext] theorem ext_tokens (hindex : c.index = c'.index) (htokens : c.tokens = c'.tokens) :
    c = c' := by
  obtain ⟨i, t, ts⟩ := c
  obtain ⟨i', t', ts'⟩ := c'
  rw [tokens_eq_cons, tokens_eq_cons, List.cons.injEq] at htokens
  obtain ⟨rfl, rfl⟩ := htokens
  cases hindex
  rfl

namespace Passes

theorem refl (c : TokenCursor) : c.Passes [] c := ⟨rfl, rfl, by simp⟩

theorem trans (h : c.Passes ts c') (h' : c'.Passes us c'') : c.Passes (ts ++ us) c'' where
  tokens_eq := by rw [h.tokens_eq, h'.tokens_eq, List.append_assoc]
  index_eq := by rw [h'.index_eq, h.index_eq, List.length_append, Nat.add_assoc]
  inner t ht := (List.mem_append.mp ht).elim (h.inner t) (h'.inner t)

theorem unique (h : c.Passes ts c') (h' : c.Passes ts c'') : c' = c'' := by
  refine ext_tokens (by rw [h.index_eq, h'.index_eq]) ?_
  exact List.append_cancel_left (h.tokens_eq.symm.trans h'.tokens_eq)

theorem closed (h : c.Passes ts c') (hc : c.Closed) : c'.Closed := by
  obtain ⟨last, hlast, hend⟩ := hc
  refine ⟨last, ?_, hend⟩
  rwa [h.tokens_eq, List.getLast?_append_of_ne_nil _ (by simp [tokens])] at hlast

theorem exists_between (h : c.Passes (ts ++ us) c'') : ∃ c', c.Passes ts c' ∧ c'.Passes us c'' := by
  obtain ⟨t, rest, hrest⟩ : ∃ t rest, us ++ c''.tokens = t :: rest :=
    List.exists_cons_of_ne_nil (by simp [tokens])
  refine ⟨⟨c.index + ts.length, t, rest⟩, ⟨?_, rfl, ?_⟩, ⟨hrest.symm, ?_, ?_⟩⟩
  · rw [h.tokens_eq, List.append_assoc, hrest]
    rfl
  · exact fun t ht ↦ h.inner t (List.mem_append_left _ ht)
  · rw [h.index_eq, List.length_append, Nat.add_assoc]
  · exact fun t ht ↦ h.inner t (List.mem_append_right _ ht)

theorem of_cons (h : c.Passes (t :: ts) c') : c.current = t ∧ c.advance.Passes ts c' := by
  obtain ⟨i, t', ahead⟩ := c
  obtain ⟨htokens, hindex, hinner⟩ := h
  obtain ⟨rfl, rfl⟩ : t' = t ∧ ahead = ts ++ c'.tokens := List.cons.inj htokens
  obtain ⟨u, rest, hrest⟩ : ∃ u rest, ts ++ c'.tokens = u :: rest :=
    List.exists_cons_of_ne_nil (by simp [tokens])
  have hadvance : advance ⟨i, t', ts ++ c'.tokens⟩ = ⟨i + 1, u, rest⟩ := by
    rw [hrest, advance]
    simp [hinner t' List.mem_cons_self]
  refine ⟨rfl, ?_⟩
  rw [hadvance]
  refine ⟨hrest.symm, ?_, fun t ht ↦ hinner t (List.mem_cons_of_mem _ ht)⟩
  rw [hindex, List.length_cons]
  exact Nat.add_right_comm i ts.length 1

theorem kind_eq (h : c.Passes (t :: ts) c') : c.kind = t.kind := congrArg Token.kind h.of_cons.1

theorem advance_eq (h : c.Passes [t] c') : c.advance = c' :=
  h.of_cons.2.unique (refl _) |>.symm

theorem length_ahead (h : c.Passes ts c') : c.ahead.length = ts.length + c'.ahead.length := by
  have := congrArg List.length h.tokens_eq
  rw [tokens_eq_cons, tokens_eq_cons, List.length_append, List.length_cons,
    List.length_cons] at this
  omega

theorem eq_of_isEnd (h : c.Passes ts c') (h' : c.Passes us c'') (hend : c'.current.isEnd = true)
    (hend' : c''.current.isEnd = true) : ts = us := by
  have heq : ts ++ c'.tokens = us ++ c''.tokens := h.tokens_eq.symm.trans h'.tokens_eq
  have hnil : ∀ {u d : TokenCursor} {vs : List Token}, u.tokens = vs ++ d.tokens →
      u.current.isEnd = true → (∀ t ∈ vs, t.isEnd = false) → vs = [] := by
    intro u d vs hvs hu hinner
    cases vs with
    | nil => rfl
    | cons t vs =>
      obtain ⟨hcurrent, -⟩ := List.cons.inj hvs
      have := hinner t List.mem_cons_self
      rw [← hcurrent, hu] at this
      cases this
  -- The longer run would have passed the end of input that the shorter one stopped at.
  rcases List.append_eq_append_iff.mp heq with ⟨vs, rfl, hvs⟩ | ⟨vs, rfl, hvs⟩
  · rw [hnil hvs hend fun t ht ↦ h'.inner t (List.mem_append_right _ ht), List.append_nil]
  · rw [hnil hvs hend' fun t ht ↦ h.inner t (List.mem_append_right _ ht), List.append_nil]

end Passes

theorem Closed.passes_advance (hc : c.Closed) (hkind : c.kind ≠ .endOfInput) :
    c.Passes [c.current] c.advance := by
  obtain ⟨last, hlast, hend⟩ := hc
  obtain ⟨i, t, ahead⟩ := c
  have ht : t.isEnd = false := by simpa [Token.isEnd, kind] using hkind
  cases ahead with
  | nil =>
    obtain rfl : t = last := by simpa [tokens] using hlast
    rw [ht] at hend
    cases hend
  | cons u rest =>
    have hadvance : advance ⟨i, t, u :: rest⟩ = ⟨i + 1, u, rest⟩ := by simp [advance, ht]
    rw [hadvance]
    exact ⟨rfl, rfl, by simpa using ht⟩

/-- Nothing stands behind a last token that ends the input, and a cursor comes to no other stop. -/
theorem Closed.ahead_ne_nil (hc : c.Closed) (hkind : c.kind ≠ .endOfInput) : c.ahead ≠ [] := by
  have := (hc.passes_advance hkind).length_ahead
  intro h
  rw [h, List.length_nil, List.length_singleton] at this
  omega

theorem closed_append {body : List Token} {eof : Token} (heof : eof.isEnd = true) :
    closed (body ++ [eof]) = body ++ [eof] := by
  rw [closed, List.getLast?_concat]
  exact if_pos heof

theorem exists_passes_start {body : List Token} {eof : Token}
    (hbody : ∀ t ∈ body, t.isEnd = false) (heof : eof.isEnd = true) :
    ∃ c, (start (body ++ [eof])).Passes body c ∧ c.current = eof :=
  ⟨⟨(start (body ++ [eof])).index + body.length, eof, []⟩,
    ⟨(tokens_start _).trans (closed_append heof), rfl, hbody⟩, rfl⟩

theorem closed_start (tokens : List Token) : (start tokens).Closed := by
  rw [Closed, tokens_start, closed]
  cases hlast : tokens.getLast? with
  | none => exact ⟨_, rfl, rfl⟩
  | some last =>
    cases hend : last.isEnd with
    | true => exact ⟨last, by simpa [hend] using hlast, hend⟩
    | false => exact ⟨.endAt last.span.stop, by simp [hend], rfl⟩

end TokenCursor

end DecimalFormula
