import DecimalFormula.Proofs.Text.Encoding

/-!
# The order of texts is that of their bytes

Texts are ordered by the numbers of their characters, from the first one that differs. Written as
UTF-8 they are ordered alike by their bytes (`bytes_lt_iff`). The reason is that the bytes of two
characters differ before either of them ends, and where they first differ the smaller character has
the smaller byte (`encodeChar_append_lt`): the first byte grows with the number of bytes, and of two
characters with equally many bytes it is the digits to the base 64 that are compared, from the
highest on.
-/

namespace DecimalFormula.Text

def bytes (s : String) : List UInt8 := Utf8.encode s.toList

namespace Utf8

variable {i j : Nat} {xs ys : List UInt8} {c d : Char} {cs ds : List Char}

theorem ofNat_cons_lt_of_lt (hj : j < 0x100) (h : i < j) :
    UInt8.ofNat i :: xs < UInt8.ofNat j :: ys := by
  refine List.cons_lt_cons_iff.mpr (.inl (UInt8.lt_iff_toNat_lt.mpr ?_))
  rw [UInt8.toNat_ofNat', UInt8.toNat_ofNat', Nat.mod_eq_of_lt hj,
    Nat.mod_eq_of_lt (Nat.lt_trans h hj)]
  exact h

/-- Of two numbers the digits from some place on are compared first, and then those behind. -/
theorem ofNat_cons_lt_of_div {k v w : Nat} (hj : j < 0x100) (hvw : v < w)
    (hlt : v / k < w / k → i < j) (heq : v / k = w / k → i = j ∧ xs < ys) :
    UInt8.ofNat i :: xs < UInt8.ofNat j :: ys := by
  rcases Nat.lt_or_eq_of_le (Nat.div_le_div_right (Nat.le_of_lt hvw)) with hdigits | hdigits
  · exact ofNat_cons_lt_of_lt hj (hlt hdigits)
  · obtain ⟨rfl, hrest⟩ := heq hdigits
    exact List.cons_lt_cons_iff.mpr (.inr ⟨rfl, hrest⟩)

/-- The bytes of a smaller character come first, whatever follows them. There is a case for each
number of bytes of the larger one, and in it one for each number that the smaller one can have. -/
theorem encodeChar_append_lt (h : c < d) (xs ys : List UInt8) :
    String.utf8EncodeChar c ++ xs < String.utf8EncodeChar d ++ ys := by
  have hd := toNat_lt d
  have hlt : c.val.toNat < d.val.toNat := UInt32.lt_iff_toNat_lt.mp h
  rw [Char.toNat] at hd
  rw [String.utf8EncodeChar, String.utf8EncodeChar]
  generalize c.val.toNat = v at hlt ⊢
  generalize d.val.toNat = w at hlt hd ⊢
  -- The first bytes decide, unless the two characters have as many bytes and the same leading bits.
  by_cases h1 : w ≤ 0x7F
  · rw [if_pos h1, if_pos (by omega)]
    exact ofNat_cons_lt_of_lt (by omega) hlt
  rw [if_neg h1]
  by_cases h2 : w ≤ 0x7FF
  · rw [if_pos h2]
    split
    · exact ofNat_cons_lt_of_lt (by omega) (by omega)
    rw [if_pos (by omega)]
    refine ofNat_cons_lt_of_div (k := 64) (by omega) hlt (by omega) fun _ ↦ ⟨by omega, ?_⟩
    exact ofNat_cons_lt_of_lt (by omega) (by omega)
  rw [if_neg h2]
  by_cases h3 : w ≤ 0xFFFF
  · rw [if_pos h3]
    split
    · exact ofNat_cons_lt_of_lt (by omega) (by omega)
    split
    · exact ofNat_cons_lt_of_lt (by omega) (by omega)
    rw [if_pos (by omega)]
    refine ofNat_cons_lt_of_div (k := 4096) (by omega) hlt (by omega) fun _ ↦ ⟨by omega, ?_⟩
    refine ofNat_cons_lt_of_div (k := 64) (by omega) hlt (by omega) fun _ ↦ ⟨by omega, ?_⟩
    exact ofNat_cons_lt_of_lt (by omega) (by omega)
  rw [if_neg h3]
  split
  · exact ofNat_cons_lt_of_lt (by omega) (by omega)
  split
  · exact ofNat_cons_lt_of_lt (by omega) (by omega)
  split
  · exact ofNat_cons_lt_of_lt (by omega) (by omega)
  refine ofNat_cons_lt_of_div (k := 262144) (by omega) hlt (by omega) fun _ ↦ ⟨by omega, ?_⟩
  refine ofNat_cons_lt_of_div (k := 4096) (by omega) hlt (by omega) fun _ ↦ ⟨by omega, ?_⟩
  refine ofNat_cons_lt_of_div (k := 64) (by omega) hlt (by omega) fun _ ↦ ⟨by omega, ?_⟩
  exact ofNat_cons_lt_of_lt (by omega) (by omega)

theorem encode_lt_of_lt (h : cs < ds) : encode cs < encode ds := by
  induction h with
  | @nil d ds =>
    obtain ⟨b, bytes, hd, -⟩ := decodeChar_of_encode d []
    rw [encode, encode, List.flatMap_nil, List.flatMap_cons, hd]
    exact List.nil_lt_cons b _
  | rel h => exact encodeChar_append_lt h _ _
  | cons h ih => exact List.append_left_lt ih

end Utf8

/-- **Texts are ordered as their bytes are.** -/
theorem bytes_lt_iff {s t : String} : bytes s < bytes t ↔ s < t := by
  refine ⟨fun h ↦ ?_, fun h ↦ Utf8.encode_lt_of_lt (String.lt_iff.mp h)⟩
  by_cases hst : s < t
  · exact hst
  rcases Std.le_iff_lt_or_eq.mp (String.not_lt.mp hst) with hts | rfl
  · exact absurd h (List.lt_asymm (Utf8.encode_lt_of_lt (String.lt_iff.mp hts)))
  · exact absurd h (List.lt_irrefl _)

end DecimalFormula.Text
