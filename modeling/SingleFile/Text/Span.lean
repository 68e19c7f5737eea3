/-
  SingleFile.Text.Span — HALF-OPEN BYTE RANGES
  ────────────────────────────────────────────
  A span is a pair of byte offsets.  Offsets are 32-bit numbers; larger ones
  saturate when a span is built from a range.
-/
import SingleFile.Text.Offset

namespace SingleFile.Text

/-- The bytes of a text from `start` up to, not including, `stop`. -/
structure Span where
  start : Nat
  stop : Nat
deriving DecidableEq, Repr, Inhabited

namespace Span

/-- The largest offset a span can hold. -/
def maxOffset : Nat := 0xFFFFFFFF

/-- A span from a range of any size: offsets behind `maxOffset` become `maxOffset`. -/
def ofRange (start stop : Nat) : Span := ⟨min start maxOffset, min stop maxOffset⟩

/-- The span at an offset that holds nothing. -/
def empty (offset : Nat) : Span := ⟨offset, offset⟩

/-- The number of bytes a span covers. -/
def length (s : Span) : Nat := s.stop - s.start

/-- Whether a span covers nothing. -/
def isEmpty (s : Span) : Bool := s.start == s.stop

/-- The text a span covers; nothing when the span is out of bounds or splits
a character. -/
def text? (s : Span) (source : List Char) : Option (List Char) := slice? source s.start s.stop

/-- The smallest span that covers two spans. -/
def cover (a b : Span) : Span := ⟨min a.start b.start, max a.stop b.stop⟩

end Span

end SingleFile.Text
