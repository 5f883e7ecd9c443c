import SettingsLint.Text.Bytes

/-! # Spans

A span is a half-open range of byte offsets into one source text. Every token,
node and diagnostic has one. Spans are ordered by their start, then by their end.
-/

namespace SettingsLint

/-- The bytes from `start` up to, but not including, `stop`. -/
structure Span where
  /-- The offset of the first byte. -/
  start : Nat
  /-- The offset just past the last byte. -/
  stop : Nat
  deriving DecidableEq, Repr, Inhabited

namespace Span

/-- The empty span at an offset; replacing it inserts. -/
def point (offset : Nat) : Span := ⟨offset, offset⟩

def size (s : Span) : Nat := s.stop - s.start

def isEmpty (s : Span) : Bool := s.start = s.stop

/-- Does `t` lie entirely inside `s`? -/
def contains (s t : Span) : Bool := s.start ≤ t.start && t.stop ≤ s.stop

/-- Does the byte at `offset` lie inside `s`? -/
def containsOffset (s : Span) (offset : Nat) : Bool := s.start ≤ offset && offset < s.stop

/-- The smallest span that covers both. -/
def union (s t : Span) : Span := ⟨min s.start t.start, max s.stop t.stop⟩

/-- Do the two spans share a byte? -/
def overlaps (s t : Span) : Bool := s.start < t.stop && t.start < s.stop

/-- Spans in order: by start, then by end. -/
def before (s t : Span) : Bool :=
  s.start < t.start || (s.start = t.start && s.stop < t.stop)

/-- The text covered, if the span is a valid range of the text. -/
def slice? (s : Span) (text : List Char) : Option (List Char) :=
  Text.slice? s.start s.stop text

/-- The text covered, or no text if the span is out of range, reversed or cuts a
character. -/
def slice (s : Span) (text : List Char) : List Char :=
  (s.slice? text).getD []

end Span

end SettingsLint
