import SourceLint.Text.Slice

/-!
# Spans of bytes

A span names a piece of a source text by its first byte and its length. The end of a span is
`stop`. Offsets that leave the library fit in 64 bits, and `upperBound` is the end cut at the
largest such offset: the two agree on every span that fits.
-/

namespace SourceLint

/-- A piece of a text: the offset of its first byte and its number of bytes. -/
structure Span where
  location : Nat
  length : Nat
deriving DecidableEq, Repr, Inhabited

namespace Span

/-- The largest offset that fits in 64 bits. -/
def maxOffset : Nat := Nat.pow 2 64 - 1

/-- The span from `start` up to `stop`, which is empty when `stop` does not come later. -/
def ofBounds (start stop : Nat) : Span := ⟨start, stop - start⟩

/-- One past the last byte. -/
def stop (r : Span) : Nat := r.location + r.length

/-- One past the last byte, cut at the largest offset. -/
def upperBound (r : Span) : Nat := r.location + min r.length (maxOffset - r.location)

/-- One past the last byte, if that is still an offset. -/
def upperBound? (r : Span) : Option Nat := if r.stop ≤ maxOffset then some r.stop else none

def isEmpty (r : Span) : Bool := r.length == 0

/-- The byte at `offset` belongs to the span. -/
def contains (r : Span) (offset : Nat) : Bool := r.location ≤ offset && offset < r.upperBound

/-- The span `inner` lies within the span `outer`. -/
def containsSpan (outer inner : Span) : Bool :=
  outer.location ≤ inner.location && inner.upperBound ≤ outer.upperBound

/-- The span `inner` lies within the span `outer`, however large their ends are. -/
def covers (outer inner : Span) : Bool :=
  outer.location ≤ inner.location && inner.stop ≤ outer.stop

/-- The spans meet. Spans that only touch do not. An empty span meets another span when it lies
strictly inside it, and another empty span when both lie at one place. -/
def intersects (a b : Span) : Bool :=
  if a.isEmpty && b.isEmpty then a.location == b.location
  else if a.isEmpty then b.location < a.location && a.location < b.upperBound
  else if b.isEmpty then a.location < b.location && b.location < a.upperBound
  else a.location < b.upperBound && b.location < a.upperBound

/-- Spans are ordered by their first byte, and then by their length. -/
def order (a b : Span) : Ordering := (compare a.location b.location).then (compare a.length b.length)

/-- The characters under a span, if it lies in the text and cuts no character. -/
def chars? (r : Span) (cs : List Char) : Option (List Char) :=
  (dropBytes? r.location cs).bind (takeBytes? r.length)

/-- The text under a span, if it lies in the source and cuts no character. -/
def slice? (r : Span) (source : String) : Option String := sliceBytes? source r.location r.length

instance : ToString Span where
  toString r := toString r.location ++ ".." ++ toString r.upperBound

theorem slice?_eq (r : Span) (source : String) :
    r.slice? source = (r.chars? source.toList).map String.ofList :=
  sliceBytes?_eq source r.location r.length

@[simp] theorem location_ofBounds (start stop : Nat) : (ofBounds start stop).location = start := rfl

theorem stop_ofBounds {start stop : Nat} (h : start ≤ stop) : (ofBounds start stop).stop = stop := by
  simp only [ofBounds, Span.stop]; omega

theorem upperBound_eq_stop {r : Span} (h : r.stop ≤ maxOffset) : r.upperBound = r.stop := by
  simp only [Span.stop, Span.upperBound] at *; omega

theorem containsSpan_eq_covers {outer inner : Span} (ho : outer.stop ≤ maxOffset)
    (hi : inner.stop ≤ maxOffset) : outer.containsSpan inner = outer.covers inner := by
  rw [containsSpan, covers, upperBound_eq_stop ho, upperBound_eq_stop hi]

theorem location_le_upperBound (r : Span) : r.location ≤ r.upperBound :=
  Nat.le_add_right _ _

theorem upperBound_le_stop (r : Span) : r.upperBound ≤ r.stop := by
  simp only [Span.stop, Span.upperBound]; omega

end Span

end SourceLint
