import DecimalFormula.Text.Utf8

/-!
# Writing UTF-8

A character is written as one to four bytes. Read from the front of any bytes, those that were
written give the character back and leave the rest (`decodeChar_of_encode`), so a text is read back
as a whole (`decode_encode`).

No other bytes are read. A character is not taken from more bytes than it needs, nor from bytes with
other marks, so those it was taken from are its own (`eq_encode_of_decodeChar`), and what is read as
a text was written as that text (`decode_eq_ok_iff`).
-/

namespace DecimalFormula.Text.Utf8

def encode (cs : List Char) : List UInt8 := cs.flatMap String.utf8EncodeChar

/-! ## Single bytes -/

variable {count bits d n : Nat} {b : UInt8} {bytes rest : List UInt8} {c : Char}

/-- A first byte is told by its number. -/
theorem lead?_ofNat (h : n < 0x100) : lead? (.ofNat n) =
    if n < 0x80 then some (0, n) else if n < 0xC0 then none
    else if n < 0xE0 then some (1, n % 0x20) else if n < 0xF0 then some (2, n % 0x10)
    else if n < 0xF8 then some (3, n % 0x08) else none := by
  have hn : (UInt8.ofNat n).toNat = n := by
    rw [UInt8.toNat_ofNat', Nat.mod_eq_of_lt h]
  simp only [lead?, UInt8.lt_iff_toNat_lt, hn]
  rfl

/-- A byte that follows carries six bits. -/
theorem followers_cons (hd : d < 0x40) : followers (count + 1) bits (.ofNat (d + 0x80) :: rest) =
    followers count (bits * 0x40 + d) rest := by
  have hbyte : (UInt8.ofNat (d + 0x80)).toNat = d + 0x80 := by
    rw [UInt8.toNat_ofNat', Nat.mod_eq_of_lt (by omega)]
  have hrange : (0x80 ≤ UInt8.ofNat (d + 0x80) && UInt8.ofNat (d + 0x80) < 0xC0) = true := by
    rw [Bool.and_eq_true, decide_eq_true_eq, decide_eq_true_eq, UInt8.le_iff_toNat_le,
      UInt8.lt_iff_toNat_lt, hbyte]
    exact ⟨Nat.le_add_left _ _, Nat.add_lt_add_right hd 0x80⟩
  rw [followers, if_pos hrange, hbyte]
  congr 2
  omega

/-! ## Characters -/

theorem decodeChar_of_followers (count bits : Nat) {c : Char} {b : UInt8} {bytes : List UInt8}
    (hlead : lead? b = some (count, bits)) (hsmallest : smallest count ≤ c.toNat)
    (hfollowers : followers count bits bytes = .ok (c.toNat, rest)) :
    decodeChar b bytes = .ok (c, rest) := by
  rw [decodeChar, hlead]
  dsimp only
  rw [hfollowers, Except.bind]
  dsimp only
  rw [if_pos ⟨c.valid, hsmallest⟩, Char.ofNat_toNat]

theorem toNat_lt (c : Char) : c.toNat < 0x110000 := by
  have hvalid : c.val.toNat.isValidChar := c.valid
  rw [Nat.isValidChar] at hvalid
  rw [Char.toNat]
  omega

/-- The bytes of a character give it back, whatever follows them. There is a case for each number of
bytes; the bits that the bytes carry are those of the character. -/
theorem decodeChar_of_encode (c : Char) (rest : List UInt8) : ∃ b bytes,
    String.utf8EncodeChar c = b :: bytes ∧ decodeChar b (bytes ++ rest) = .ok (c, rest) := by
  have hlt := toNat_lt c
  rw [String.utf8EncodeChar]
  generalize hv : c.val.toNat = v
  rw [Char.toNat, hv] at hlt
  by_cases h1 : v ≤ 0x7F
  · rw [if_pos h1]
    refine ⟨_, _, rfl, decodeChar_of_followers 0 v ?_ (Nat.zero_le _) ?_⟩
    · rw [lead?_ofNat (by omega), if_pos (by omega)]
    · rw [List.nil_append, followers, Char.toNat, hv]
  rw [if_neg h1]
  by_cases h2 : v ≤ 0x7FF
  · rw [if_pos h2]
    refine ⟨_, _, rfl, decodeChar_of_followers 1 (v / 64) ?_ ?_ ?_⟩
    · rw [lead?_ofNat (by omega), if_neg (by omega), if_neg (by omega), if_pos (by omega)]
      congr 2
      omega
    · rw [smallest, Char.toNat, hv]
      omega
    · rw [List.cons_append, List.nil_append, followers_cons (by omega), followers, Char.toNat, hv]
      congr 2
      omega
  rw [if_neg h2]
  by_cases h3 : v ≤ 0xFFFF
  · rw [if_pos h3]
    refine ⟨_, _, rfl, decodeChar_of_followers 2 (v / 4096) ?_ ?_ ?_⟩
    · rw [lead?_ofNat (by omega), if_neg (by omega), if_neg (by omega), if_neg (by omega),
        if_pos (by omega)]
      congr 2
      omega
    · rw [smallest, Char.toNat, hv]
      omega
    · simp only [List.cons_append, List.nil_append]
      rw [followers_cons (by omega), followers_cons (by omega), followers, Char.toNat, hv]
      congr 2
      omega
  rw [if_neg h3]
  refine ⟨_, _, rfl, decodeChar_of_followers 3 (v / 262144) ?_ ?_ ?_⟩
  · rw [lead?_ofNat (by omega), if_neg (by omega), if_neg (by omega), if_neg (by omega),
      if_neg (by omega), if_pos (by omega)]
    congr 2
    omega
  · rw [show smallest 3 = 0x10000 from rfl, Char.toNat, hv]
    omega
  · simp only [List.cons_append, List.nil_append]
    rw [followers_cons (by omega), followers_cons (by omega), followers_cons (by omega), followers,
      Char.toNat, hv]
    congr 2
    omega

/-! ## Bytes that make a character -/

/-- A first byte is made of the mark for the number of bytes that follow, and of its bits. -/
theorem lead?_eq_some (h : lead? b = some (count, bits)) :
    count = 0 ∧ bits < 0x80 ∧ b = .ofNat bits ∨
    count = 1 ∧ bits < 0x20 ∧ b = .ofNat (bits + 0xC0) ∨
    count = 2 ∧ bits < 0x10 ∧ b = .ofNat (bits + 0xE0) ∨
    count = 3 ∧ bits < 0x08 ∧ b = .ofNat (bits + 0xF0) := by
  have hlt : b.toNat < 0x100 := b.toNat_lt
  rw [← UInt8.ofNat_toNat (x := b)] at h ⊢
  generalize b.toNat = m at h hlt ⊢
  rw [lead?_ofNat hlt] at h
  have hmark : ∀ {k}, m = k → UInt8.ofNat m = .ofNat k := fun hk ↦ congrArg _ hk
  split at h
  · cases h
    exact .inl ⟨rfl, by omega, rfl⟩
  split at h
  · cases h
  split at h
  · cases h
    exact .inr (.inl ⟨rfl, by omega, hmark (by omega)⟩)
  split at h
  · cases h
    exact .inr (.inr (.inl ⟨rfl, by omega, hmark (by omega)⟩))
  split at h
  · cases h
    exact .inr (.inr (.inr ⟨rfl, by omega, hmark (by omega)⟩))
  · cases h

/-- A byte that was taken to go on with a character is made of a mark and six bits. -/
theorem followers_succ_eq_ok (h : followers (count + 1) bits bytes = .ok (n, rest)) :
    ∃ d bytes', d < 0x40 ∧ bytes = .ofNat (d + 0x80) :: bytes' ∧
      followers count (bits * 0x40 + d) bytes' = .ok (n, rest) := by
  cases bytes with
  | nil => cases h
  | cons b bytes' =>
    rw [followers] at h
    split at h
    · next hrange =>
      rw [Bool.and_eq_true, decide_eq_true_eq, decide_eq_true_eq, UInt8.le_iff_toNat_le,
        UInt8.lt_iff_toNat_lt] at hrange
      obtain ⟨hlow, hhigh⟩ : 0x80 ≤ b.toNat ∧ b.toNat < 0xC0 := hrange
      refine ⟨b.toNat % 0x40, bytes', Nat.mod_lt _ (by decide), ?_, h⟩
      rw [show b.toNat % 0x40 + 0x80 = b.toNat by omega, UInt8.ofNat_toNat]
    · cases h

theorem toNat_val_ofNat (h : n.isValidChar) : (Char.ofNat n).val.toNat = n := by
  rw [Char.ofNat, dif_pos h]
  rfl

/-- A character was read from a first byte and as many others as that byte calls for, and it needs
so many. -/
theorem exists_of_decodeChar (h : decodeChar b bytes = .ok (c, rest)) :
    ∃ count bits, lead? b = some (count, bits) ∧
      followers count bits bytes = .ok (c.val.toNat, rest) ∧ smallest count ≤ c.val.toNat := by
  rw [decodeChar] at h
  cases hlead : lead? b with
  | none =>
    rw [hlead] at h
    cases h
  | some first =>
    obtain ⟨count, bits⟩ := first
    rw [hlead] at h
    dsimp only at h
    cases hfollowers : followers count bits bytes with
    | error fault =>
      rw [hfollowers] at h
      cases h
    | ok result =>
      obtain ⟨n, rest'⟩ := result
      rw [hfollowers, Except.bind] at h
      dsimp only at h
      split at h
      · next hn =>
        cases h
        refine ⟨count, bits, rfl, ?_⟩
        rw [toNat_val_ofNat hn.1]
        exact ⟨hfollowers, hn.2⟩
      · cases h

/-- Bytes that are read as a character are the bytes of that character. There is a case for each
number of bytes, and the smallest character that needs so many rules out the longer forms. -/
theorem eq_encode_of_decodeChar (h : decodeChar b bytes = .ok (c, rest)) :
    b :: bytes = String.utf8EncodeChar c ++ rest := by
  obtain ⟨count, bits, hlead, hfollowers, hsmallest⟩ := exists_of_decodeChar h
  have hlt := toNat_lt c
  rw [Char.toNat] at hlt
  rw [String.utf8EncodeChar]
  generalize c.val.toNat = v at hfollowers hsmallest hlt ⊢
  have hbyte : ∀ {i j : Nat}, i = j → UInt8.ofNat i = .ofNat j := fun h ↦ congrArg _ h
  obtain ⟨rfl, hbits, rfl⟩ | ⟨rfl, hbits, rfl⟩ | ⟨rfl, hbits, rfl⟩ | ⟨rfl, hbits, rfl⟩ :=
    lead?_eq_some hlead
  -- The bits that the bytes carry are the digits of the character to the base 64.
  · cases hfollowers
    rw [if_pos (by omega)]
    rfl
  · obtain ⟨d₁, bytes, hd₁, rfl, hfirst⟩ := followers_succ_eq_ok hfollowers
    cases hfirst
    rw [show smallest 1 = 0x80 from rfl] at hsmallest
    rw [if_neg (by omega), if_pos (by omega)]
    simp only [List.cons_append, List.nil_append, List.cons.injEq, and_true]
    exact ⟨hbyte (by omega), hbyte (by omega)⟩
  · obtain ⟨d₁, bytes, hd₁, rfl, hfirst⟩ := followers_succ_eq_ok hfollowers
    obtain ⟨d₂, bytes, hd₂, rfl, hsecond⟩ := followers_succ_eq_ok hfirst
    cases hsecond
    rw [show smallest 2 = 0x800 from rfl] at hsmallest
    rw [if_neg (by omega), if_neg (by omega), if_pos (by omega)]
    simp only [List.cons_append, List.nil_append, List.cons.injEq, and_true]
    exact ⟨hbyte (by omega), hbyte (by omega), hbyte (by omega)⟩
  · obtain ⟨d₁, bytes, hd₁, rfl, hfirst⟩ := followers_succ_eq_ok hfollowers
    obtain ⟨d₂, bytes, hd₂, rfl, hsecond⟩ := followers_succ_eq_ok hfirst
    obtain ⟨d₃, bytes, hd₃, rfl, hthird⟩ := followers_succ_eq_ok hsecond
    cases hthird
    rw [show smallest 3 = 0x10000 from rfl] at hsmallest
    rw [if_neg (by omega), if_neg (by omega), if_neg (by omega)]
    simp only [List.cons_append, List.nil_append, List.cons.injEq, and_true]
    exact ⟨hbyte (by omega), hbyte (by omega), hbyte (by omega), hbyte (by omega)⟩

/-! ## Texts -/

theorem decode_encode (cs : List Char) : decode (encode cs) = .ok cs := by
  induction cs with
  | nil =>
    rw [encode, List.flatMap_nil, decode]
  | cons c cs ih =>
    obtain ⟨b, bytes, hbytes, hdecode⟩ := decodeChar_of_encode c (encode cs)
    rw [encode, List.flatMap_cons, hbytes, List.cons_append, decode]
    split
    · next fault h =>
      rw [← encode, hdecode] at h
      cases h
    · next c' rest h =>
      rw [← encode, hdecode] at h
      cases h
      rw [ih]
      rfl

theorem encode_of_decode {cs : List Char} (h : decode bytes = .ok cs) : encode cs = bytes := by
  fun_induction decode bytes generalizing cs with
  | case1 =>
    cases h
    rfl
  | case2 => cases h
  | case3 b bytes c rest hchar ih =>
    cases hrest : decode rest with
    | error fault =>
      rw [hrest] at h
      cases h
    | ok cs' =>
      rw [hrest] at h
      cases h
      rw [encode, List.flatMap_cons, ← encode, ih hrest, eq_encode_of_decodeChar hchar]

/-- Exactly the bytes of some text are read. -/
theorem decode_eq_ok_iff {cs : List Char} : decode bytes = .ok cs ↔ encode cs = bytes :=
  ⟨encode_of_decode, fun h ↦ h ▸ decode_encode cs⟩

end DecimalFormula.Text.Utf8
