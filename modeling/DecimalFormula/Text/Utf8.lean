/-!
# Reading UTF-8

Bytes are decoded from the front. The first byte of a character tells how many bytes follow, and
they are all taken before the character is looked at. So there are two ways to fail: the bytes end
inside a character, or they make none, because a byte has the wrong form, the character could have
been written with fewer bytes, or its number belongs to no character.
-/

namespace DecimalFormula.Text.Utf8

/-- Why bytes are no text. -/
inductive Fault
  /-- The bytes of some character make no character. -/
  | malformed
  /-- The bytes end inside a character. -/
  | truncated
deriving DecidableEq, Repr

/-- The number of bytes that follow a first byte, and the bits of the character it carries. -/
def lead? (b : UInt8) : Option (Nat × Nat) :=
  if b < 0x80 then some (0, b.toNat)
  else if b < 0xC0 then none
  else if b < 0xE0 then some (1, b.toNat % 0x20)
  else if b < 0xF0 then some (2, b.toNat % 0x10)
  else if b < 0xF8 then some (3, b.toNat % 0x08)
  else none

/-- The smallest character that needs so many bytes behind the first. -/
def smallest : Nat → Nat
  | 0 => 0
  | 1 => 0x80
  | 2 => 0x800
  | _ => 0x10000

/-- Takes bytes that go on with a character, six bits each. -/
def followers : (count : Nat) → (bits : Nat) → List UInt8 → Except Fault (Nat × List UInt8)
  | 0, bits, bytes => .ok (bits, bytes)
  | _ + 1, _, [] => .error .truncated
  | count + 1, bits, b :: bytes =>
    if 0x80 ≤ b && b < 0xC0 then followers count (bits * 0x40 + b.toNat % 0x40) bytes
    else .error .malformed

/-- The character at the front, whose first byte is given, and the bytes behind it. -/
def decodeChar (b : UInt8) (bytes : List UInt8) : Except Fault (Char × List UInt8) :=
  match lead? b with
  | none => .error .malformed
  | some (count, bits) =>
    (followers count bits bytes).bind fun (n, rest) ↦
      if n.isValidChar ∧ smallest count ≤ n then .ok (.ofNat n, rest) else .error .malformed

theorem length_le_of_followers {count bits n : Nat} {bytes rest : List UInt8}
    (h : followers count bits bytes = .ok (n, rest)) : rest.length ≤ bytes.length := by
  induction count generalizing bits bytes with
  | zero =>
    simp only [followers, Except.ok.injEq, Prod.mk.injEq] at h
    exact h.2 ▸ Nat.le_refl _
  | succ count ih =>
    cases bytes with
    | nil => simp [followers] at h
    | cons b bytes =>
      rw [followers] at h
      split at h
      · exact Nat.le_succ_of_le (ih h)
      · simp at h

theorem length_le_of_decodeChar {b : UInt8} {bytes rest : List UInt8} {c : Char}
    (h : decodeChar b bytes = .ok (c, rest)) : rest.length ≤ bytes.length := by
  unfold decodeChar at h
  split at h
  · simp at h
  · next count bits _ =>
    cases hf : followers count bits bytes with
    | error => simp [hf, Except.bind] at h
    | ok r =>
      simp only [hf, Except.bind] at h
      split at h
      · simp only [Except.ok.injEq, Prod.mk.injEq] at h
        exact h.2 ▸ length_le_of_followers hf
      · simp at h

/-- The characters that bytes encode. -/
def decode : List UInt8 → Except Fault (List Char)
  | [] => .ok []
  | b :: bytes =>
    match _h : decodeChar b bytes with
    | .error fault => .error fault
    | .ok (c, rest) => (decode rest).map (c :: ·)
termination_by bytes => bytes.length
decreasing_by
  have := length_le_of_decodeChar _h
  simp only [List.length_cons]
  omega

end DecimalFormula.Text.Utf8
