import DecimalFormula.CommandLine.Invocation
import DecimalFormula.Decimal.Text
import DecimalFormula.Proofs.Text.Words
import Mathlib.Data.List.Forall2

/-!
# Writing the arguments of the program

Whatever a formula or a path looks like, there are arguments that the program takes for a limit,
some definitions and the formula or path: options with their values attached, and the rest behind
`--` (`read_argumentsOf`). A definition that holds no white space is read as it was written, but for
the braces around its name (`Definition.IsPlain.read_text`).
-/

namespace DecimalFormula

namespace CommandLine

/-! ## Numbers -/

/-- Digits are read as their number if that is not too large; what comes before it is smaller. -/
theorem readDigits_eq {n : Nat} {cs : List Char} (hcs : ∀ c ∈ cs, c.isDigit = true)
    (h : Nat.ofDigitChars 10 cs n < numberLimit) :
    readDigits n cs = .ok (Nat.ofDigitChars 10 cs n) := by
  induction cs generalizing n with
  | nil => rw [readDigits, Nat.ofDigitChars_nil]
  | cons c cs ih =>
    obtain ⟨hc, hcs⟩ := List.forall_mem_cons.mp hcs
    rw [Nat.ofDigitChars_cons] at h ⊢
    -- The number never shrinks while it is read, so what is read so far is below the limit, too.
    have hnext : n * 10 + (c.toNat - '0'.toNat) < numberLimit := by
      rw [Nat.ofDigitChars_eq_ofDigitChars_zero] at h
      have hgrows := Nat.le_mul_of_pos_left (10 * n + (c.toNat - '0'.toNat))
        (Nat.pow_pos (n := cs.length) (show 0 < 10 by decide))
      omega
    rw [readDigits, if_neg (by simp [hc])]
    dsimp only
    rw [if_pos hnext, Nat.mul_comm n 10]
    exact ih hcs h

theorem readNumber_toString {n : Nat} (h : n < numberLimit) : readNumber (toString n) = .ok n := by
  have hdigits : ∀ c ∈ Nat.toDigits 10 n, c.isDigit = true :=
    fun c ↦ Nat.isDigit_of_mem_toDigits (by decide) (by decide)
  obtain ⟨c, cs, hchars⟩ := List.exists_cons_of_ne_nil (Nat.toDigits_ne_nil (n := n) (b := 10))
  have hplus : c ≠ '+' := by
    rintro rfl
    exact absurd (hdigits '+' (hchars ▸ List.mem_cons_self)) (by decide)
  have hread : readDigits 0 (Nat.toDigits 10 n) = .ok n := by
    rw [readDigits_eq hdigits (by rwa [Nat.ofDigitChars_ten_toDigits]),
      Nat.ofDigitChars_ten_toDigits]
  rw [readNumber, Nat.toString_eq_ofList_toDigits, String.toList_ofList, hchars]
  rw [hchars] at hread
  -- The digits do not start with a plus sign, which rules out the other cases of the reader.
  split
  · next h => cases h
  · next h => exact absurd (List.cons.inj h).1 hplus
  · next h => exact absurd (List.cons.inj h).1 hplus
  · exact hread

/-! ## Definitions -/

theorem takeWhile_ne_append {c : Char} {cs : List Char} (h : c ∉ cs) (ds : List Char) :
    (cs ++ c :: ds).takeWhile (· != c) = cs ∧ (cs ++ c :: ds).dropWhile (· != c) = c :: ds := by
  have hcs : ∀ d ∈ cs, (d != c) = true := by
    intro d hd
    rw [bne_iff_ne]
    rintro rfl
    exact h hd
  rw [List.takeWhile_append_of_pos hcs, List.dropWhile_append_of_pos hcs]
  simp

end CommandLine

namespace Definition

def text (d : Definition) : String := d.name ++ ("=" ++ d.value)

/-- A definition without the braces around its name. -/
def bare (d : Definition) : Definition := ⟨.ofList (bareName d.name.toList), d.value⟩

/-- A definition of a number that stays as it is wherever it is written, braces apart. -/
structure IsPlain (d : Definition) : Prop where
  /-- There is no white space in the name. -/
  name : ∀ c ∈ d.name.toList, Text.isSpace c = false
  /-- There is no equals sign in the name. -/
  equals : '=' ∉ d.name.toList
  /-- Something is left of the name without its braces. -/
  bareName : bareName d.name.toList ≠ []
  /-- There is no white space in the value. -/
  value : ∀ c ∈ d.value.toList, Text.isSpace c = false
  /-- The value is a number. -/
  number : (Decimal.readValue? d.value).isSome = true

theorem read_text {d : Definition} (hname : ∀ c ∈ d.name.toList, Text.isSpace c = false)
    (hequals : '=' ∉ d.name.toList) (hvalue : ∀ c ∈ d.value.toList, Text.isSpace c = false) :
    read d.text = if (Definition.bareName d.name.toList).isEmpty then .error .emptyName
      else .ok d.bare := by
  have hchars : d.text.toList = d.name.toList ++ '=' :: d.value.toList := by simp [text]
  obtain ⟨htake, hdrop⟩ := CommandLine.takeWhile_ne_append hequals d.value.toList
  simp only [read, hchars, htake, hdrop, Text.trim_eq_self hname, Text.trim_eq_self hvalue,
    String.ofList_toList]
  rfl

theorem IsPlain.read_text {d : Definition} (h : d.IsPlain) : read d.text = .ok d.bare := by
  rw [Definition.read_text h.name h.equals h.value, if_neg (by simpa using h.bareName)]

end Definition

namespace CommandLine

/-! ## Options with values -/

/-- An option and its value in one argument. -/
def optionArgument (name value : String) : String := "--" ++ (name ++ ("=" ++ value))

theorem longOption?_optionArgument {name : String} (hname : '=' ∉ name.toList) (value : String) :
    longOption? (optionArgument name value) = some (name, some value) := by
  have hchars : (optionArgument name value).toList =
      '-' :: '-' :: (name.toList ++ '=' :: value.toList) := by
    simp [optionArgument]
  obtain ⟨htake, hdrop⟩ := takeWhile_ne_append hname value.toList
  rw [longOption?, hchars]
  simp only [htake, hdrop, String.ofList_toList]

theorem readOne_optionArgument {scope : Option Verb} {g : Given} {s : Switch} {name value : String}
    (hname : '=' ∉ name.toList) (hswitch : Switch.ofLong? scope name = some s)
    (hvalue : s.takesValue = true) (htrailing : g.trailing = false) (hpending : g.pending? = none) :
    readOne scope g (optionArgument name value) = g.applyValue s value := by
  have hdashes : optionArgument name value ≠ "--" := by
    intro h
    have hlist := congrArg String.toList h
    simp [optionArgument] at hlist
  rw [readOne, htrailing, if_neg Bool.false_ne_true, if_neg hdashes,
    longOption?_optionArgument hname]
  dsimp only
  rw [readLong, hswitch]
  dsimp only
  rw [if_pos hvalue, Given.settle, hpending]
  rfl

def limitArgument (limit : Nat) : String := optionArgument "max-depth" (toString limit)

def defineArgument (text : String) : String := optionArgument "define" text

theorem readOne_limitArgument {scope : Option Verb} {g : Given} {limit : Nat}
    (hlimit : limit < numberLimit) (htrailing : g.trailing = false) (hpending : g.pending? = none)
    (hnone : g.limit? = none) :
    readOne scope g (limitArgument limit) = .ok { g with limit? := some limit } := by
  have hswitch : Switch.ofLong? scope "max-depth" = some .maxDepth := by
    rcases scope with _ | verb
    · decide
    · cases verb <;> decide
  rw [limitArgument, readOne_optionArgument (by decide) hswitch rfl htrailing hpending,
    Given.applyValue, hnone, readNumber_toString hlimit]
  rfl

theorem readOne_defineArgument {verb : Verb} {g : Given} {text : String} {d : Definition}
    (hverb : verb.evaluates = true) (hread : Definition.read text = .ok d)
    (htrailing : g.trailing = false) (hpending : g.pending? = none) :
    readOne (some verb) g (defineArgument text) =
      .ok { g with definitions := g.definitions ++ [d] } := by
  have hswitch : Switch.ofLong? (some verb) "define" = some .define := by
    revert hverb
    cases verb <;> decide
  rw [defineArgument, readOne_optionArgument (by decide) hswitch rfl htrailing hpending,
    Given.applyValue, hread]

theorem foldlM_defineArgument {verb : Verb} {g : Given} {texts : List String}
    {definitions : List Definition} (hverb : verb.evaluates = true)
    (hread : List.Forall₂ (fun text d ↦ Definition.read text = .ok d) texts definitions)
    (htrailing : g.trailing = false) (hpending : g.pending? = none) :
    (texts.map defineArgument).foldlM (readOne (some verb)) g =
      .ok { g with definitions := g.definitions ++ definitions } := by
  induction hread generalizing g with
  | nil =>
    rw [List.append_nil]
    rfl
  | @cons text d texts definitions hd _ ih =>
    rw [List.map_cons, List.foldlM_cons, readOne_defineArgument hverb hd htrailing hpending]
    have hrest := ih (g := { g with definitions := g.definitions ++ [d] }) htrailing hpending
    rw [List.append_assoc] at hrest
    exact hrest

/-! ## All arguments -/

/-- Behind `--` the argument of a command may look like anything. -/
theorem foldlM_argument {verb : Verb} {g : Given} {argument : String}
    (hverb : verb.takesArgument = true) (htrailing : g.trailing = false)
    (hpending : g.pending? = none) (hargument : g.hasArgument = false) :
    ["--", argument].foldlM (readOne (some verb)) g = .ok { g with
      pending? := some (.argument argument), hasArgument := true, trailing := true } := by
  have hdashes : readOne (some verb) g "--" = .ok { g with trailing := true } := by
    rw [readOne, htrailing, if_neg Bool.false_ne_true, if_pos rfl]
  have hread : readOne (some verb) { g with trailing := true } argument = .ok { g with
      pending? := some (.argument argument), hasArgument := true, trailing := true } := by
    rw [readOne, if_pos rfl, readArgument, if_pos (by simp [hverb, hargument]), Given.settle]
    dsimp only
    rw [hpending]
    rfl
  rw [List.foldlM_cons, hdashes]
  exact congrArg (· >>= pure) hread

/-- Arguments for a command on a formula or a path. -/
def argumentsOf (verb : Verb) (limit : Nat) (texts : List String) (argument : String) :
    List String :=
  verb.word :: limitArgument limit :: (texts.map defineArgument ++ ["--", argument])

def sessionArguments (limit : Nat) : List String := ["repl", limitArgument limit]

theorem readRest_argumentsOf {verb : Verb} {limit : Nat} {texts : List String}
    {definitions : List Definition} {argument : String} (hverb : verb.evaluates = true)
    (hlimit : limit < numberLimit)
    (hread : List.Forall₂ (fun text d ↦ Definition.read text = .ok d) texts definitions)
    (hargument : argument ≠ "") :
    readRest verb (limitArgument limit :: (texts.map defineArgument ++ ["--", argument])) =
      .ok ⟨0, some limit, definitions, false, false, some argument, true, none, true⟩ := by
  have htakes : verb.takesArgument = true := by
    revert hverb
    cases verb <;> decide
  let limited : Given := ⟨0, some limit, [], false, false, none, false, none, false⟩
  let defined : Given := ⟨0, some limit, definitions, false, false, none, false, none, false⟩
  let given : Given :=
    ⟨0, some limit, definitions, false, false, none, true, some (.argument argument), true⟩
  have hlimited : readOne (some verb) .nothing (limitArgument limit) = .ok limited :=
    readOne_limitArgument hlimit rfl rfl rfl
  have hdefined : (texts.map defineArgument).foldlM (readOne (some verb)) limited = .ok defined :=
    foldlM_defineArgument hverb hread rfl rfl
  have hgiven : ["--", argument].foldlM (readOne (some verb)) defined = .ok given :=
    foldlM_argument htakes rfl rfl rfl
  have hfold : (limitArgument limit :: (texts.map defineArgument ++ ["--", argument])).foldlM
      (readOne (some verb)) .nothing = .ok given := by
    rw [List.foldlM_cons, hlimited]
    change List.foldlM (readOne (some verb)) limited (_ ++ _) = _
    rw [List.foldlM_append, hdefined]
    exact hgiven
  rw [readRest, hfold, Except.bind, Given.settle]
  dsimp only [given]
  rw [if_neg fun h ↦ hargument (String.isEmpty_iff.mp h.2)]

theorem read_sessionArguments {limit : Nat} (hlimit : limit < numberLimit) :
    read (sessionArguments limit) = .ok ⟨0, limit, .values⟩ := by
  have hword : Verb.ofWord? "repl" = some .values := by decide
  have hrest : readRest .values [limitArgument limit] =
      .ok ⟨0, some limit, [], false, false, none, false, none, false⟩ := by
    rw [readRest, List.foldlM_cons, readOne_limitArgument hlimit rfl rfl rfl]
    rfl
  rw [read, sessionArguments, readFrom, if_neg (by decide), if_neg (by decide), hword]
  dsimp only
  rw [hrest]
  rfl

/-- **Arguments.** What is written for a limit, some definitions and the formula or the path of a
command is taken for them. -/
theorem read_argumentsOf {verb : Verb} {limit : Nat} {texts : List String}
    {definitions : List Definition} {argument : String} (hverb : verb.evaluates = true)
    (hlimit : limit < numberLimit)
    (hread : List.Forall₂ (fun text d ↦ Definition.read text = .ok d) texts definitions)
    (hargument : argument ≠ "") :
    read (argumentsOf verb limit texts argument) = .ok ⟨0, limit,
      if verb = .eval then .eval argument ⟨definitions, false, false⟩
      else .file argument ⟨definitions, false, false⟩⟩ := by
  have hhelp : verb.word ≠ helpWord := by cases verb <;> decide
  have hword : Verb.ofWord? verb.word = some verb := by cases verb <;> decide
  rw [read, argumentsOf, readFrom, if_neg (by decide), if_neg hhelp, hword]
  dsimp only
  rw [readRest_argumentsOf hverb hlimit hread hargument]
  cases verb with
  | eval | file => rfl
  | check | tokens | trees | values => exact absurd hverb Bool.false_ne_true

end CommandLine

end DecimalFormula
