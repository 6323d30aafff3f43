import DecimalFormula.Proofs.Scanning.Lexeme
import Mathlib.Data.String.Basic

/-!
# What spans cover

A span is two numbers, which need not have anything to do with a text. `Span.Within source s` says
that they do: they are offsets of bytes in the source, in order, and none of them cuts a character
in two. Then `Span.slice source s` is what stands between them.

Both follow from `Span.Covers source s cs`, which takes the characters of the source apart into
those before the span, those it covers and those behind it, provided that the offsets in the source
fit into 32 bits. Only there the bytes of characters are counted, so that everything else about
spans is about lists of characters.
-/

namespace DecimalFormula

theorem byteLength_eq_utf8Len (cs : List Char) : byteLength cs = String.utf8Len cs := by
  induction cs with
  | nil => rfl
  | cons c cs ih => rw [byteLength_cons, String.utf8Len_cons, ih, Nat.add_comm]

theorem byteLength_toList (s : String) : byteLength s.toList = s.utf8ByteSize := by
  rw [byteLength_eq_utf8Len, String.utf8Len_toList]

theorem byteLength_pos {cs : List Char} (h : cs ≠ []) : 0 < byteLength cs := by
  obtain ⟨c, cs, rfl⟩ := List.exists_cons_of_ne_nil h
  rw [byteLength_cons]
  exact Nat.add_pos_left c.utf8Size_pos _

theorem byteLength_replicate_blank (n : Nat) : byteLength (List.replicate n ' ') = n := by
  induction n with
  | zero => rfl
  | succ n ih =>
    rw [List.replicate_succ, byteLength_cons, ih]
    exact Nat.add_comm 1 n

theorem isBlank_of_mem_replicate (n : Nat) : ∀ b ∈ List.replicate n ' ', isBlank b = true := by
  intro b hb
  rw [List.eq_of_mem_replicate hb]
  rfl

theorem isValid_byteLength {source : String} {pre post : List Char}
    (h : source.toList = pre ++ post) : String.Pos.Raw.IsValid source ⟨byteLength pre⟩ := by
  rw [String.Pos.Raw.isValid_iff_exists_append]
  refine ⟨.ofList pre, .ofList post, ?_, ?_⟩
  · rw [← String.ofList_append, ← h, String.ofList_toList]
  · rw [String.rawEndPos, String.utf8ByteSize_ofList, byteLength_eq_utf8Len]

theorem byteLength_lt_size {source : String} (hsize : source.utf8ByteSize < UInt32.size)
    {pre post : List Char} (h : source.toList = pre ++ post) : byteLength pre < UInt32.size := by
  rw [← byteLength_toList, h, byteLength_append] at hsize
  omega

namespace Span

/-- The part of a source that a span is about. -/
def slice (source : String) (s : Span) : String :=
  String.Pos.Raw.extract source ⟨s.start.toNat⟩ ⟨s.stop.toNat⟩

/-- A span lies in a source. -/
structure Within (source : String) (s : Span) : Prop where
  /-- Its ends are in order. -/
  start_le : s.start ≤ s.stop
  /-- It does not go beyond the end. -/
  stop_le : s.stop.toNat ≤ source.utf8ByteSize
  /-- It starts in front of a character or at the end. -/
  start_isValid : String.Pos.Raw.IsValid source ⟨s.start.toNat⟩
  /-- It stops in front of a character or at the end. -/
  stop_isValid : String.Pos.Raw.IsValid source ⟨s.stop.toNat⟩

/-- A span is about these characters of a source. -/
def Covers (source : String) (s : Span) (cs : List Char) : Prop :=
  ∃ pre post, source.toList = pre ++ (cs ++ post) ∧
    s = .between (byteLength pre) (byteLength pre + byteLength cs)

variable {source : String} {s s' : Span} {cs : List Char}

namespace Covers

theorem exists_parts (hsize : source.utf8ByteSize < UInt32.size) (h : s.Covers source cs) :
    ∃ pre post, source.toList = pre ++ (cs ++ post) ∧ s.start.toNat = byteLength pre ∧
      s.stop.toNat = byteLength (pre ++ cs) := by
  obtain ⟨pre, post, hsource, rfl⟩ := h
  refine ⟨pre, post, hsource, toNat_start_between (byteLength_lt_size hsize hsource), ?_⟩
  rw [← byteLength_append]
  exact toNat_stop_between (byteLength_lt_size hsize (by rw [hsource, List.append_assoc]))

theorem within (hsize : source.utf8ByteSize < UInt32.size) (h : s.Covers source cs) :
    s.Within source := by
  obtain ⟨pre, post, hsource, hstart, hstop⟩ := h.exists_parts hsize
  have hvalid : String.Pos.Raw.IsValid source ⟨byteLength (pre ++ cs)⟩ :=
    isValid_byteLength (by rw [hsource, List.append_assoc])
  refine ⟨UInt32.le_iff_toNat_le.mpr ?_, ?_, ?_, ?_⟩
  · rw [hstart, hstop, byteLength_append]
    exact Nat.le_add_right _ _
  · rw [hstop]
    exact hvalid.le_utf8ByteSize
  · rw [hstart]
    exact isValid_byteLength hsource
  · rw [hstop]
    exact hvalid

theorem slice_eq (hsize : source.utf8ByteSize < UInt32.size) (h : s.Covers source cs) :
    s.slice source = .ofList cs := by
  obtain ⟨pre, post, hsource, hstart, hstop⟩ := h.exists_parts hsize
  obtain rfl : source = .ofList (pre ++ cs ++ post) := by
    rw [List.append_assoc, ← hsource, String.ofList_toList]
  rw [slice, hstart, hstop, byteLength_append, byteLength_eq_utf8Len, byteLength_eq_utf8Len]
  exact String.extract_of_valid pre cs post

theorem start_lt (hsize : source.utf8ByteSize < UInt32.size) (h : s.Covers source cs)
    (hne : cs ≠ []) : s.start < s.stop := by
  obtain ⟨pre, post, -, hstart, hstop⟩ := h.exists_parts hsize
  rw [UInt32.lt_iff_toNat_lt, hstart, hstop, byteLength_append]
  exact Nat.lt_add_of_pos_right (byteLength_pos hne)

end Covers

theorem Within.merge (h : s.Within source) (h' : s'.Within source) :
    (s.merge s').Within source := by
  have hle := UInt32.le_iff_toNat_le.mp h.start_le
  constructor
  · rw [UInt32.le_iff_toNat_le, toNat_start_merge, toNat_stop_merge]
    exact Nat.le_trans (Nat.min_le_left _ _) (Nat.le_trans hle (Nat.le_max_left _ _))
  · rw [toNat_stop_merge]
    exact Nat.max_le.mpr ⟨h.stop_le, h'.stop_le⟩
  · rw [toNat_start_merge]
    rcases Nat.le_total s.start.toNat s'.start.toNat with hstart | hstart
    · rw [Nat.min_eq_left hstart]
      exact h.start_isValid
    · rw [Nat.min_eq_right hstart]
      exact h'.start_isValid
  · rw [toNat_stop_merge]
    rcases Nat.le_total s.stop.toNat s'.stop.toNat with hstop | hstop
    · rw [Nat.max_eq_right hstop]
      exact h'.stop_isValid
    · rw [Nat.max_eq_left hstop]
      exact h.stop_isValid

end Span

end DecimalFormula
