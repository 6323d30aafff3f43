/-!
# Spans of a formula text

A span is a half-open range of byte offsets into the UTF-8 encoding of a formula. Every token, tree
and error carries one, so that a report can point at the characters it is about.

Offsets are kept in 32 bits. Those of a text of 4 GiB or more do not fit, and what is kept of them
is the remainder (`Span.between`). A span whose stop lies before its start is allowed and counts as
empty: spans are plain data that callers may build by hand, and every operation below is total on
them.
-/

namespace DecimalFormula

/-- A half-open range of byte offsets. -/
structure Span where
  /-- Offset of the first byte. -/
  start : UInt32
  /-- Offset just past the last byte. -/
  stop : UInt32
deriving DecidableEq, Repr, Inhabited

namespace Span

/-- The span from one offset to another, as far as 32 bits can tell. -/
def between (start stop : Nat) : Span := ⟨.ofNat start, .ofNat stop⟩

def emptyAt (offset : UInt32) : Span := ⟨offset, offset⟩

/-- The smallest span that covers both arguments. -/
def merge (a b : Span) : Span := ⟨min a.start b.start, max a.stop b.stop⟩

/-- The number of bytes covered; a reversed span covers none. -/
def length (s : Span) : Nat := s.stop.toNat - s.start.toNat

def isEmpty (s : Span) : Bool := s.length == 0

/-- Offsets are written `start..stop`. -/
def render (s : Span) : String := toString s.start ++ ".." ++ toString s.stop

/-- The span moved to the right, as for a text that is read from a later offset on. -/
def shift (offset : UInt32) (s : Span) : Span := ⟨s.start + offset, s.stop + offset⟩

variable {start stop : Nat}

@[simp] theorem start_between : (between start stop).start = .ofNat start := rfl

@[simp] theorem stop_between : (between start stop).stop = .ofNat stop := rfl

theorem shift_between (offset start stop : Nat) :
    (between start stop).shift (.ofNat offset) = between (start + offset) (stop + offset) := by
  rw [shift, between, between, UInt32.ofNat_add, UInt32.ofNat_add]

theorem toNat_start_between (h : start < UInt32.size) : (between start stop).start.toNat = start :=
  UInt32.toNat_ofNat_of_lt' h

theorem toNat_stop_between (h : stop < UInt32.size) : (between start stop).stop.toNat = stop :=
  UInt32.toNat_ofNat_of_lt' h

theorem toNat_start_merge (a b : Span) :
    (a.merge b).start.toNat = min a.start.toNat b.start.toNat := by
  change (if a.start ≤ b.start then a.start else b.start).toNat = _
  split
  · next h => rw [Nat.min_eq_left (UInt32.le_iff_toNat_le.mp h)]
  · next h => rw [Nat.min_eq_right (Nat.le_of_not_le (mt UInt32.le_iff_toNat_le.mpr h))]

theorem toNat_stop_merge (a b : Span) :
    (a.merge b).stop.toNat = max a.stop.toNat b.stop.toNat := by
  change (if a.stop ≤ b.stop then b.stop else a.stop).toNat = _
  split
  · next h => rw [Nat.max_eq_right (UInt32.le_iff_toNat_le.mp h)]
  · next h => rw [Nat.max_eq_left (Nat.le_of_not_le (mt UInt32.le_iff_toNat_le.mpr h))]

@[ext] theorem ext {a b : Span} (hstart : a.start.toNat = b.start.toNat)
    (hstop : a.stop.toNat = b.stop.toNat) : a = b := by
  obtain ⟨start, stop⟩ := a
  obtain ⟨start', stop'⟩ := b
  rw [mk.injEq]
  exact ⟨UInt32.toNat_inj.mp hstart, UInt32.toNat_inj.mp hstop⟩

theorem merge_self (a : Span) : a.merge a = a := by
  refine ext ?_ ?_
  · rw [toNat_start_merge, Nat.min_self]
  · rw [toNat_stop_merge, Nat.max_self]

end Span

end DecimalFormula
