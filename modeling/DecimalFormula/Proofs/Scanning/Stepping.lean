import DecimalFormula.Proofs.Scanning.Progress
import DecimalFormula.Proofs.Scanning.Run
import DecimalFormula.Proofs.Scanning.Shift

/-!
# A scanner that is used step by step

A scanner may be asked for tokens in two ways, one of which ends with the first end of input or
error, and in any mixture of them, also after errors. Whatever was asked before, it stands between
two characters of its formula, has not moved back, and answers as a fresh scanner would on what is
left of the formula (`Lexer.stepping_resumes`).

The invariant is that what the cursor has passed and what it holds are the formula, and that its
offset counts what it has passed (`Lexer.afterSteps_passes`). Both ways of asking move the cursor
alike, so one lemma on a step is enough for it. Whether the iteration is over is not a matter of the
cursor: it depends on the earlier steps of one of the two ways only (`Lexer.finished_iff`).

The position of a scanner is that offset in 32 bits. In a formula of 4 GiB or more it starts over
from zero (`Lexer.position_starts_over`), so what is said about positions is said of shorter ones.
-/

namespace DecimalFormula

namespace Lexer

/-! ## Steps -/

/-- What may be asked of a scanner. -/
inductive Step
  /-- The next token, whatever was answered before. -/
  | nextToken
  /-- The next token of an iteration. -/
  | next
deriving DecidableEq, Repr

def perform (l : Lexer) : Step → Option (Except LexicalError Token) × Lexer
  | .nextToken => (some l.nextToken.1, l.nextToken.2)
  | .next => l.next?

def afterSteps (l : Lexer) (steps : List Step) : Lexer :=
  steps.foldl (fun l step ↦ (l.perform step).2) l

def answers (l : Lexer) : List Step → List (Option (Except LexicalError Token))
  | [] => []
  | step :: steps => (l.perform step).1 :: answers (l.perform step).2 steps

def isLast : Except LexicalError Token → Bool
  | .ok t => t.isEnd
  | .error _ => true

/-- In some steps an iteration has come to its last answer. -/
def Exhausted (l : Lexer) (steps : List Step) : Prop :=
  ∃ earlier later answer, steps = earlier ++ .next :: later ∧
    (l.afterSteps earlier).next?.1 = some answer ∧ isLast answer = true

variable {l : Lexer} {registry : Registry} {c c' : TextCursor} {step : Step} {steps : List Step}

theorem afterSteps_cons (l : Lexer) (step : Step) (steps : List Step) :
    l.afterSteps (step :: steps) = (l.perform step).2.afterSteps steps :=
  rfl

theorem afterSteps_append_singleton (l : Lexer) (steps : List Step) (step : Step) :
    l.afterSteps (steps ++ [step]) = ((l.afterSteps steps).perform step).2 := by
  rw [afterSteps, List.foldl_append]
  rfl

theorem next?_of_finished (h : l.finished = true) : l.next? = (none, l) := by
  rw [next?, if_pos h]

theorem next?_of_unfinished (h : l.finished = false) :
    l.next? = (some l.nextToken.1, { l.nextToken.2 with finished := isLast l.nextToken.1 }) := by
  rw [next?, if_neg (Bool.eq_false_iff.mp h)]
  generalize l.nextToken = scanned
  obtain ⟨answer, l'⟩ := scanned
  cases answer with
  | ok t => rfl
  | error e => rfl

/-- Both ways of asking move the cursor alike, if at all. -/
theorem perform_moves (l : Lexer) (step : Step) :
    (l.perform step).2.registry = l.registry ∧
      ((l.perform step).2.cursor = l.cursor ∨
        (l.perform step).2.cursor = (scanToken l.registry l.cursor).2) := by
  cases step with
  | nextToken => exact ⟨rfl, .inr rfl⟩
  | next =>
    rw [perform]
    cases hfinished : l.finished with
    | true =>
      rw [next?_of_finished hfinished]
      exact ⟨rfl, .inl rfl⟩
    | false =>
      rw [next?_of_unfinished hfinished]
      exact ⟨rfl, .inr rfl⟩

/-! ## Where a scanner stands -/

theorem exists_passes_perform (l : Lexer) (step : Step) :
    ∃ cs, l.cursor.Passes cs (l.perform step).2.cursor := by
  rcases (perform_moves l step).2 with hstays | hmoves
  · rw [hstays]
    exact ⟨[], .refl _⟩
  · rw [hmoves]
    exact exists_passes_scanToken _ _

/-- **Any steps** pass some characters of the formula. -/
theorem afterSteps_passes (l : Lexer) (steps : List Step) :
    (l.afterSteps steps).registry = l.registry ∧
      ∃ cs, l.cursor.Passes cs (l.afterSteps steps).cursor := by
  induction steps generalizing l with
  | nil => exact ⟨rfl, [], .refl _⟩
  | cons step steps ih =>
    rw [afterSteps_cons]
    obtain ⟨cs, hstep⟩ := exists_passes_perform l step
    obtain ⟨hregistry, ds, hsteps⟩ := ih (l.perform step).2
    exact ⟨hregistry.trans (perform_moves l step).1, cs ++ ds, hstep.trans hsteps⟩

/-- A scanner stands at a place in a formula: its position is the offset of the character under the
cursor, or of the end. -/
structure StandsIn (l : Lexer) (formula : String) : Prop where
  /-- The place is not beyond the end. -/
  position_le : l.position.toNat ≤ formula.utf8ByteSize
  /-- No character is cut in two there. -/
  isValid : String.Pos.Raw.IsValid formula ⟨l.position.toNat⟩
  /-- The character under the cursor stands there. -/
  peek?_eq : l.cursor.peek? = String.Pos.Raw.get? formula ⟨l.position.toNat⟩
  /-- Without a character there, it is the end. -/
  position_eq : l.cursor.peek? = none → l.position.toNat = formula.utf8ByteSize

theorem exists_passed (registry : Registry) (formula : String) (steps : List Step) :
    ∃ passed, formula.toList =
        passed ++ ((ofFormula registry formula).afterSteps steps).cursor.rest ∧
      ((ofFormula registry formula).afterSteps steps).cursor.position = byteLength passed := by
  obtain ⟨-, passed, hpass⟩ := afterSteps_passes (ofFormula registry formula) steps
  refine ⟨passed, hpass.rest_eq, hpass.position_eq.trans ?_⟩
  exact Nat.zero_add _

theorem position_of_peek?_eq_none (registry : Registry) (formula : String) (steps : List Step)
    (h : ((ofFormula registry formula).afterSteps steps).cursor.peek? = none) :
    ((ofFormula registry formula).afterSteps steps).cursor.position = formula.utf8ByteSize := by
  obtain ⟨passed, hformula, hposition⟩ := exists_passed registry formula steps
  rw [List.head?_eq_none_iff.mp h, List.append_nil] at hformula
  rw [hposition, ← hformula, byteLength_toList]

theorem covers_rest {formula : String} {passed rest : List Char}
    (h : formula.toList = passed ++ rest) :
    (Span.between (byteLength passed) formula.utf8ByteSize).Covers formula rest := by
  refine ⟨passed, [], by rw [List.append_nil, h], ?_⟩
  rw [← byteLength_append, ← h, byteLength_toList]

section

variable {formula : String} (hsize : formula.utf8ByteSize < UInt32.size) (registry : Registry)
  (steps : List Step)

include hsize

theorem toNat_position : ((ofFormula registry formula).afterSteps steps).position.toNat =
    ((ofFormula registry formula).afterSteps steps).cursor.position := by
  obtain ⟨passed, hformula, hposition⟩ := exists_passed registry formula steps
  rw [position, hposition]
  exact UInt32.toNat_ofNat_of_lt' (byteLength_lt_size hsize hformula)

theorem afterSteps_standsIn :
    ((ofFormula registry formula).afterSteps steps).StandsIn formula := by
  obtain ⟨passed, hformula, hposition⟩ := exists_passed registry formula steps
  have hoffset := toNat_position hsize registry steps
  have hend := position_of_peek?_eq_none registry formula steps
  generalize (ofFormula registry formula).afterSteps steps = l at hformula hposition hoffset hend ⊢
  have hvalid := isValid_byteLength hformula
  rw [← hposition, ← hoffset] at hvalid
  refine ⟨hvalid.le_utf8ByteSize, hvalid, ?_, fun hnone ↦ hoffset.trans (hend hnone)⟩
  rw [hoffset, hposition, byteLength_eq_utf8Len, ← String.ofList_toList (s := formula), hformula]
  exact (String.get?_of_valid passed l.cursor.rest).symm

theorem position_lt_perform (step : Step) (h : TextCursor.Gains
    ((ofFormula registry formula).afterSteps steps).cursor
    (((ofFormula registry formula).afterSteps steps).perform step).2.cursor) :
    ((ofFormula registry formula).afterSteps steps).position <
      (((ofFormula registry formula).afterSteps steps).perform step).2.position := by
  have hoffset' := toNat_position hsize registry (steps ++ [step])
  rw [afterSteps_append_singleton] at hoffset'
  rw [UInt32.lt_iff_toNat_lt, toNat_position hsize, hoffset']
  exact h.position_lt

theorem position_le_perform (step : Step) :
    ((ofFormula registry formula).afterSteps steps).position ≤
      (((ofFormula registry formula).afterSteps steps).perform step).2.position := by
  obtain ⟨cs, hpass⟩ := exists_passes_perform ((ofFormula registry formula).afterSteps steps) step
  have hoffset' := toNat_position hsize registry (steps ++ [step])
  rw [afterSteps_append_singleton] at hoffset'
  rw [UInt32.le_iff_toNat_le, toNat_position hsize, hoffset']
  exact hpass.position_le

/-- A scanner answers as a fresh one does on the part of the formula from its position on. -/
theorem nextToken_eq_shiftAnswer :
    ((ofFormula registry formula).afterSteps steps).nextToken.1 =
      shiftAnswer ((ofFormula registry formula).afterSteps steps).position
        (ofFormula registry (Span.slice formula
          ⟨((ofFormula registry formula).afterSteps steps).position,
            .ofNat formula.utf8ByteSize⟩)).nextToken.1 := by
  obtain ⟨passed, hformula, hposition⟩ := exists_passed registry formula steps
  have hregistry : ((ofFormula registry formula).afterSteps steps).registry = registry :=
    (afterSteps_passes (ofFormula registry formula) steps).1
  generalize (ofFormula registry formula).afterSteps steps = l at hformula hposition hregistry ⊢
  have hcovers := covers_rest hformula
  rw [← hposition] at hcovers
  have hleft :
      Span.slice formula ⟨l.position, .ofNat formula.utf8ByteSize⟩ = .ofList l.cursor.rest :=
    hcovers.slice_eq hsize
  have hshift := congrArg Prod.fst (scanToken_eq_shift_start l.registry l.cursor)
  rw [hregistry] at hshift
  rw [hleft]
  change (scanToken l.registry l.cursor).1 =
    shiftAnswer _ (scanToken registry (.start (String.ofList l.cursor.rest).toList)).1
  rw [hregistry, String.toList_ofList]
  exact hshift

end

/-! ## Scanners that stay -/

theorem scanToken_perform (h : Halts (scanToken l.registry l.cursor).1) (step : Step) :
    scanToken (l.perform step).2.registry (l.perform step).2.cursor =
      scanToken l.registry l.cursor := by
  obtain ⟨hregistry, hstays | hmoves⟩ := perform_moves l step
  · rw [hregistry, hstays]
  · rw [hregistry, hmoves, scanToken_again h]

theorem scanToken_afterSteps (h : Halts (scanToken l.registry l.cursor).1) (steps : List Step) :
    scanToken (l.afterSteps steps).registry (l.afterSteps steps).cursor =
      scanToken l.registry l.cursor := by
  induction steps generalizing l with
  | nil => rfl
  | cons step steps ih =>
    have hstep := scanToken_perform h step
    rw [afterSteps_cons, ih (by rwa [hstep]), hstep]

/-! ## Iterations -/

theorem finished_perform_iff : (l.perform step).2.finished = true ↔ l.finished = true ∨
    step = .next ∧ ∃ answer, l.next?.1 = some answer ∧ isLast answer = true := by
  cases step with
  | nextToken =>
    rw [perform]
    exact ⟨fun h ↦ .inl h, fun h ↦ h.resolve_right fun ⟨hstep, _⟩ ↦ by cases hstep⟩
  | next =>
    rw [perform]
    cases hfinished : l.finished with
    | true =>
      rw [next?_of_finished hfinished]
      exact ⟨fun _ ↦ .inl rfl, fun _ ↦ hfinished⟩
    | false =>
      rw [next?_of_unfinished hfinished]
      simp

/-- An iteration is over if and only if it has come to its last answer. -/
theorem finished_iff (l : Lexer) (steps : List Step) :
    (l.afterSteps steps).finished = true ↔ l.finished = true ∨ l.Exhausted steps := by
  induction steps generalizing l with
  | nil =>
    refine ⟨.inl, fun h ↦ h.resolve_right ?_⟩
    rintro ⟨earlier, later, answer, hsteps, -⟩
    cases earlier <;> cases hsteps
  | cons step steps ih =>
    rw [afterSteps_cons, ih, finished_perform_iff, or_assoc]
    refine or_congr_right ?_
    constructor
    · rintro (⟨rfl, answer, hanswer, hlast⟩ | ⟨earlier, later, answer, rfl, hanswer, hlast⟩)
      · exact ⟨[], steps, answer, rfl, hanswer, hlast⟩
      · exact ⟨step :: earlier, later, answer, rfl, hanswer, hlast⟩
    · rintro ⟨_ | ⟨step', earlier⟩, later, answer, hsteps, hanswer, hlast⟩
      · cases hsteps
        exact .inl ⟨rfl, answer, hanswer, hlast⟩
      · cases hsteps
        exact .inr ⟨earlier, later, answer, rfl, hanswer, hlast⟩

theorem answers_of_finished (h : l.finished = true) (k : Nat) :
    l.answers (List.replicate k .next) = List.replicate k none := by
  induction k with
  | zero => rfl
  | succ k ih =>
    rw [List.replicate_succ, answers, perform, next?_of_finished h, ih, List.replicate_succ]

/-- The answers from a cursor on, in both ways of asking, up to the last one and behind it. -/
theorem answers_of_lexes {body : List Token} {answer : Except LexicalError Token}
    (h : Lexes registry c body c') (hanswer : (scanToken registry c').1 = answer)
    (hlast : isLast answer = true) (hregistry : l.registry = registry) (hcursor : l.cursor = c)
    (hfinished : l.finished = false) :
    l.answers (List.replicate (body.length + 1) .nextToken) =
        body.map (fun t ↦ some (.ok t)) ++ [some answer] ∧
      ∀ k, l.answers (List.replicate (body.length + 1 + k) .next) =
        body.map (fun t ↦ some (.ok t)) ++ some answer :: List.replicate k none := by
  -- By induction on the tokens. Both ways of asking give the same scanner behind each of them, as
  -- none ends the iteration.
  induction h generalizing l with
  | nil =>
    subst hregistry hcursor
    refine ⟨by rw [← hanswer]; rfl, fun k ↦ ?_⟩
    have hnext := next?_of_unfinished hfinished
    rw [show l.nextToken.1 = answer from hanswer, hlast] at hnext
    rw [List.length_nil, Nat.zero_add, Nat.add_comm, List.replicate_succ, answers, perform, hnext,
      answers_of_finished rfl]
    rfl
  | @cons c t next body c' hscan hend _ ih =>
    subst hregistry hcursor
    have htoken : l.nextToken = (.ok t, { l with cursor := next }) := by
      rw [nextToken, hscan]
    have hnext : l.next? = (some (.ok t), { l with cursor := next }) := by
      rw [next?_of_unfinished hfinished, htoken, isLast, hend, ← hfinished]
    obtain ⟨hbody, hiteration⟩ := ih (l := { l with cursor := next }) hanswer rfl rfl hfinished
    constructor
    · rw [List.length_cons, List.replicate_succ, answers, perform, htoken, hbody]
      rfl
    · intro k
      rw [List.length_cons, Nat.add_right_comm, List.replicate_succ, answers, perform, hnext,
        hiteration]
      rfl

theorem mapM_id_append (body : List Token) (last : Except LexicalError Token) :
    (body.map Except.ok ++ [last]).mapM id = last.map fun t ↦ body ++ [t] := by
  induction body with
  | nil =>
    rw [List.map_nil, List.nil_append, List.mapM_cons, List.mapM_nil]
    cases last <;> rfl
  | cons t body ih =>
    rw [List.map_cons, List.cons_append, List.mapM_cons, ih]
    cases last <;> rfl

/-- Asked for nothing but tokens, in one way or the other, a scanner answers these tokens and then a
last answer, behind which an iteration has no more. -/
structure IteratesOver (l : Lexer) (body : List Token) (last : Except LexicalError Token) :
    Prop where
  /-- No token in front of the last answer is the end of input. -/
  inner : ∀ t ∈ body, t.isEnd = false
  /-- The last answer is the end of input or an error. -/
  isLast : isLast last = true
  /-- These are the answers to the question for a token. -/
  tokens : l.answers (List.replicate (body.length + 1) .nextToken) =
    body.map (fun t ↦ some (.ok t)) ++ [some last]
  /-- These are the answers of an iteration. -/
  iteration : ∀ k, l.answers (List.replicate (body.length + 1 + k) .next) =
    body.map (fun t ↦ some (.ok t)) ++ some last :: List.replicate k none

/-- Scanning a formula collects an iteration over it. -/
theorem exists_iteratesOver (registry : Registry) (formula : String) :
    ∃ body last, (ofFormula registry formula).IteratesOver body last ∧
      scan registry formula = (body.map Except.ok ++ [last]).mapM id := by
  obtain ⟨body, c, hlexes, hblanks | ⟨e, he⟩⟩ := exists_lexes registry (.start formula.toList)
  · obtain ⟨hanswer, hend⟩ : scanToken registry c = (.ok _, _) ∧ _ :=
      scanToken_isEnd_iff.mpr ⟨hblanks, rfl, rfl⟩
    obtain ⟨htokens, hiteration⟩ := answers_of_lexes (l := ofFormula registry formula) hlexes
      (congrArg Prod.fst hanswer) hend rfl rfl rfl
    refine ⟨body, .ok (.endAt (.ofNat (c.position + byteLength c.rest))),
      ⟨hlexes.isEnd_eq_false, rfl, htokens, hiteration⟩, ?_⟩
    have hposition : c.position + byteLength c.rest = byteLength formula.toList := by
      rw [hlexes.length_eq, TextCursor.start, Nat.zero_add]
    rw [scan_of_blanks hlexes hblanks, mapM_id_append, hposition]
    rfl
  · obtain ⟨htokens, hiteration⟩ := answers_of_lexes (l := ofFormula registry formula) hlexes he
      rfl rfl rfl rfl
    refine ⟨body, _, ⟨hlexes.isEnd_eq_false, rfl, htokens, hiteration⟩, ?_⟩
    rw [scan_of_error hlexes he, mapM_id_append]
    rfl

/-! ## Scanners in use -/

/-- **A scanner resumes**, whatever was asked of it and whatever was wrong with it. In a formula of
less than 4 GiB it stands in front of a character of the formula, or at the end, and its position is
the offset there. No step moves it back. Asked for a token, it answers as a fresh scanner does on
the formula from that offset on, with all spans moved by the offset, and it moves, unless it answers
that the input has ended or that it does not recognize a character.

In a formula of any length, if it gives one of these two answers, the formula has ended, or it
stands at that character; and it gives the same answer whenever it is asked again, whatever else is
asked in between.

An iteration has no answer once it has answered the end of input or an error; until then its answers
are those to the question for a token. If nothing else is asked, these are the tokens in front of
the first such answer and that answer, and scanning a formula collects them. -/
theorem stepping_resumes (registry : Registry) (formula : String) (steps : List Step) :
    let fresh := ofFormula registry formula
    let l := fresh.afterSteps steps
    let answer := l.nextToken.1
    let after := l.nextToken.2
    let left := Span.slice formula ⟨l.position, .ofNat formula.utf8ByteSize⟩
    (formula.utf8ByteSize < UInt32.size → l.StandsIn formula ∧
      (∀ step, l.position ≤ (l.perform step).2.position) ∧
      answer = shiftAnswer l.position (ofFormula registry left).nextToken.1 ∧
      (l.position < after.position ∨ Halts answer)) ∧
    (Halts answer →
      (after.cursor.peek? = none ∧ answer = .ok (.endAt (.ofNat formula.utf8ByteSize)) ∨
        ∃ c, after.cursor.peek? = some c ∧
          answer = .error ⟨.unrecognized c, after.cursor.here⟩) ∧
      ∀ later, (after.afterSteps later).nextToken.1 = answer) ∧
    (fresh.Exhausted steps → l.next? = (none, l)) ∧
    (¬ fresh.Exhausted steps → l.next?.1 = some answer ∧ l.next?.2.cursor = after.cursor) ∧
    ∃ body last, fresh.IteratesOver body last ∧
      scan registry formula = (body.map Except.ok ++ [last]).mapM id := by
  intro fresh l answer after left
  have hfinished := finished_iff fresh steps
  refine ⟨fun hsize ↦ ⟨afterSteps_standsIn hsize registry steps,
    position_le_perform hsize registry steps, nextToken_eq_shiftAnswer hsize registry steps, ?_⟩,
    fun hhalts ↦ ⟨?_, fun later ↦ ?_⟩, fun hover ↦ ?_, fun hgoes ↦ ?_,
    exists_iteratesOver registry formula⟩
  · exact (gains_or_halts l.registry l.cursor).imp_left
      (position_lt_perform hsize registry steps .nextToken)
  -- The end of input is answered at the offset behind the last character, and nowhere else.
  · have hhalts' : Halts (scanToken l.registry l.cursor).1 := hhalts
    obtain ⟨hcursor, hcases⟩ := scanToken_of_halts hhalts'
    rw [← hcursor] at hcases
    refine hcases.imp_left fun ⟨hpeek, hend⟩ ↦ ⟨hpeek, ?_⟩
    have hnext : (fresh.afterSteps (steps ++ [.nextToken])).cursor = after.cursor := by
      rw [afterSteps_append_singleton]
      rfl
    have hall := position_of_peek?_eq_none registry formula (steps ++ [.nextToken])
    rw [hnext] at hall
    rw [← hall hpeek]
    exact hend
  -- An answer that leaves the cursor in its place is also the answer to every later question.
  · have hhalts' : Halts (scanToken l.registry l.cursor).1 := hhalts
    have hagain : scanToken after.registry after.cursor = scanToken l.registry l.cursor :=
      scanToken_again hhalts'
    have hlater := scanToken_afterSteps (l := after) (by rwa [hagain]) later
    have hsame := congrArg Prod.fst (hlater.trans hagain)
    exact hsame
  · exact next?_of_finished (hfinished.mpr (.inr hover))
  · have hunfinished : l.finished = false := by
      rw [← Bool.not_eq_true, hfinished]
      exact not_or.mpr ⟨Bool.false_ne_true, hgoes⟩
    rw [next?_of_unfinished hunfinished]
    exact ⟨rfl, rfl⟩

/-- Behind a second point the iteration is over. The scanner still answers, and does not get on. -/
theorem stepping_resumes_second_point :
    let fresh := ofFormula .standard "1..2"
    let l := fresh.afterSteps [.next]
    let complaint : Except LexicalError Token := .error ⟨.unrecognized '.', ⟨2, 3⟩⟩
    fresh.next?.1 = some (.error ⟨.secondPoint, ⟨2, 3⟩⟩) ∧
      "1..2".utf8ByteSize < UInt32.size ∧ l.StandsIn "1..2" ∧ l.position = 2 ∧
      l.next? = (none, l) ∧ l.nextToken.1 = complaint ∧
      (l.nextToken.2.afterSteps [.next, .nextToken]).nextToken.1 = complaint := by
  intro fresh l complaint
  obtain ⟨-, -, -, hgoes, -⟩ := stepping_resumes .standard "1..2" []
  obtain ⟨hplace, hhalts, hover, -, -⟩ := stepping_resumes .standard "1..2" [.next]
  have hsize : "1..2".utf8ByteSize < UInt32.size := by decide
  have hfirst : fresh.next?.1 = some fresh.nextToken.1 := by
    refine (hgoes ?_).1
    rintro ⟨earlier, later, answer, hsteps, -⟩
    cases earlier <;> cases hsteps
  have hsecondPoint : fresh.nextToken.1 = .error ⟨.secondPoint, ⟨2, 3⟩⟩ := by decide
  rw [hsecondPoint] at hfirst
  have hcomplaint : l.nextToken.1 = complaint := by decide
  have hhalt : Halts l.nextToken.1 := by
    rw [hcomplaint]
    exact ⟨'.', rfl⟩
  have hlater := (hhalts hhalt).2 [.next, .nextToken]
  exact ⟨hfirst, hsize, (hplace hsize).1, by decide, hover ⟨[], [], _, rfl, hfirst, rfl⟩,
    hcomplaint, hlater.trans hcomplaint⟩

/-! ## Beyond 4 GiB -/

/-- A one and blanks behind it: the second step goes over the blanks to the end. -/
theorem cursors_of_one_and_blanks (registry : Registry) {n : Nat} (hn : 0 < n) :
    let l := (ofFormula registry (.ofList ('1' :: List.replicate n ' '))).afterSteps [.nextToken]
    l.cursor = ⟨1, List.replicate n ' '⟩ ∧ (l.perform .nextToken).2.cursor = ⟨1 + n, []⟩ := by
  intro l
  have hlexeme : Lexeme registry .number "1" ['1'] :=
    .number (d := ⟨false, 1, 0, by decide, by decide⟩)
      (.whole (List.cons_ne_nil _ _) (List.forall_mem_singleton.mpr rfl)) (by decide)
  have hends : TokenKind.number.EndsAt (List.replicate n ' ') := by
    rw [← Nat.sub_add_cancel hn, List.replicate_succ]
    exact TokenKind.endsAt_of_blank rfl _ _
  have hfirst : scanToken registry (.start ('1' :: List.replicate n ' ')) =
      (.ok ⟨.number, "1", .between 0 1⟩, ⟨1, List.replicate n ' '⟩) :=
    scanToken_of_lexeme (List.forall_mem_nil _) hlexeme hends
  have hcursor : l.cursor = ⟨1, List.replicate n ' '⟩ := by
    change (scanToken registry (.start (String.ofList _).toList)).2 = _
    rw [String.toList_ofList, hfirst]
  refine ⟨hcursor, ?_⟩
  change (scanToken registry l.cursor).2 = _
  rw [hcursor, scanToken_of_blanks (isBlank_of_mem_replicate n), byteLength_replicate_blank]

theorem positions_of_one_and_blanks (registry : Registry) {n : Nat} (hn : 1 + n = UInt32.size) :
    let l := (ofFormula registry (.ofList ('1' :: List.replicate n ' '))).afterSteps [.nextToken]
    l.position = 1 ∧ (l.perform .nextToken).2.position = 0 := by
  intro l
  have hpos : 0 < n := Nat.pos_of_ne_zero fun hzero ↦ by rw [hzero] at hn; cases hn
  obtain ⟨hfirst, hsecond⟩ := cursors_of_one_and_blanks registry hpos
  constructor
  · rw [position, hfirst]
    rfl
  · rw [position, hsecond, hn]
    rfl

/-- With 2³² - 1 blanks behind a one the end of the formula is at 4 GiB. There the position starts
over: the second step moves it back from 1 to 0. -/
theorem position_starts_over :
    let formula := String.ofList ('1' :: List.replicate 4294967295 ' ')
    let l := (ofFormula .standard formula).afterSteps [.nextToken]
    l.position = 1 ∧ (l.perform .nextToken).2.position = 0 ∧
      ¬ l.position ≤ (l.perform .nextToken).2.position := by
  intro formula l
  obtain ⟨hone, hzero⟩ : l.position = 1 ∧ (l.perform .nextToken).2.position = 0 :=
    positions_of_one_and_blanks .standard rfl
  refine ⟨hone, hzero, ?_⟩
  rw [hone, hzero]
  decide

end Lexer

end DecimalFormula
