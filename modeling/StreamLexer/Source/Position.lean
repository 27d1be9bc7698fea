/-!
Positions and spans. Offsets count bytes from the start of the whole input, never from the start of
the bytes that happen to be held. A line directive may rename the file and renumber the lines, so a
position carries the logical file and line beside the physical offset.
-/
namespace StreamLexer

/-- A point in the input. -/
structure Position where
  /-- Logical file name: the configured one, or that of the last line directive that gives one. -/
  file : String
  /-- Logical line number, counted from one. -/
  line : Nat
  /-- Offset of the first byte of the line. -/
  bol : Nat
  /-- Offset of the point. -/
  offset : Nat
  deriving DecidableEq

namespace Position

/-- Line numbers stop here instead of wrapping. -/
def maxLine : Nat := Nat.pow 2 32 - 1

/-- The first byte of a file. -/
def startOf (file : String) : Position :=
  ⟨file, 1, 0, 0⟩

/-- Bytes between the start of the line and the point; zero if the line starts later. -/
def column (p : Position) : Nat :=
  p.offset - p.bol

/-- The point `n` bytes further on, in the same line. -/
def shifted (p : Position) (n : Nat) : Position :=
  { p with offset := p.offset + n }

/-- The same point after `count` more lines, the last of which starts at `bol`. -/
def addLines (p : Position) (count bol : Nat) : Position :=
  { p with line := min (p.line + count) maxLine, bol := bol }

/-- File, line and column, for messages. -/
def display (p : Position) : String :=
  s!"{p.file}:{p.line}:{p.column}"

/-- Line, column and offset, for debug output. -/
def describe (p : Position) : String :=
  s!"{p.line}:{p.column}:{p.offset}"

end Position

/-- A range of the input, from `start` up to and without `stop`. -/
structure Span where
  start : Position
  stop : Position
  deriving DecidableEq

namespace Span

/-- The empty range at a point. -/
def point (p : Position) : Span :=
  ⟨p, p⟩

/-- Length in bytes. -/
def length (s : Span) : Nat :=
  s.stop.offset - s.start.offset

/-- Nothing lies in the range. -/
def isEmpty (s : Span) : Bool :=
  s.start.offset == s.stop.offset

/-- From the start of one range to the end of another. -/
def through (s t : Span) : Span :=
  ⟨s.start, t.stop⟩

/-- File and lines with columns, for messages; the second line only where it differs. -/
def display (s : Span) : String :=
  if s.start.line == s.stop.line then
    s!"{s.start.display}-{s.stop.column}"
  else
    s!"{s.start.display}-{s.stop.line}:{s.stop.column}"

/-- Both ends in debug form. -/
def describe (s : Span) : String :=
  s!"{s.start.describe}..{s.stop.describe}"

end Span

end StreamLexer
