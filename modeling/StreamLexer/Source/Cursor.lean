import StreamLexer.Byte.Class
import StreamLexer.Source.Window

/-!
A cursor reads a lookahead and remembers whether it ever read past the end of an open one: the
answer to such a read may change once more bytes arrive, so whoever used it has not decided
anything. A read past the end of a closed lookahead is plain end of input. Skipping over plain bytes
stops at the end of the held bytes and never counts as such a read.

The scans need no more than looks ahead, runs and skips; the other reads are for whoever goes
through a lookahead by hand.
-/
namespace StreamLexer

/-- A reading position in a lookahead. -/
structure Cursor where
  view : Lookahead
  /-- Bytes passed since the start of the lookahead; it may lie past the held bytes. -/
  pos : Nat := 0
  /-- A read went past the held bytes of an open lookahead. -/
  starved : Bool := false
  deriving DecidableEq

namespace Cursor

/-- The bytes from `n` ahead of the cursor on. -/
def rest (c : Cursor) (n : Nat) : List UInt8 :=
  c.view.bytes.drop (c.pos + n)

/-- The cursor after a look at the byte `n` ahead. -/
def looked (c : Cursor) (n : Nat) : Cursor :=
  if (c.rest n).isEmpty && !c.view.closed then { c with starved := true } else c

/-- The byte `n` ahead. -/
def peekAt (c : Cursor) (n : Nat) : Option UInt8 × Cursor :=
  ((c.rest n).head?, c.looked n)

/-- The byte under the cursor. -/
def current (c : Cursor) : Option UInt8 × Cursor :=
  c.peekAt 0

/-- The byte after the one under the cursor. -/
def peek (c : Cursor) : Option UInt8 × Cursor :=
  c.peekAt 1

/-- Whether the byte `n` ahead is in a set. -/
def isAtIn (c : Cursor) (n : Nat) (p : UInt8 → Bool) : Bool × Cursor :=
  ((c.rest n).head?.any p, c.looked n)

/-- Whether the byte `n` ahead is `b`. -/
def isAt (c : Cursor) (n : Nat) (b : UInt8) : Bool × Cursor :=
  c.isAtIn n (· == b)

/-- Moves on, whatever is there. -/
def advance (c : Cursor) (n : Nat) : Cursor :=
  { c with pos := c.pos + n }

/-- Nothing is left and nothing will come. An open lookahead starves instead. -/
def isEof (c : Cursor) : Bool × Cursor :=
  ((c.rest 0).isEmpty && c.view.closed, c.looked 0)

/-- Takes over the starvation of another cursor. -/
def absorb (c probe : Cursor) : Cursor :=
  { c with starved := c.starved || probe.starved }

/-- Length of the run of bytes of a set that starts `start` ahead. The byte that ends the run is
read too. -/
def runLength (c : Cursor) (start : Nat) (p : UInt8 → Bool) : Nat × Cursor :=
  let n := ((c.rest start).takeWhile p).length
  (n, c.looked (start + n))

/-- Moves over the run of bytes of a set; gives its length. -/
def eatWhile (c : Cursor) (p : UInt8 → Bool) : Nat × Cursor :=
  let (n, c) := c.runLength 0 p
  (n, c.advance n)

/-- Moves over `b` if it is under the cursor. -/
def eat (c : Cursor) (b : UInt8) : Bool × Cursor :=
  match c.isAt 0 b with
  | (true, c) => (true, c.advance 1)
  | (false, c) => (false, c)

/-- Length of the line end (carriage returns, then a newline) that starts `start` ahead. -/
def newlineLength (c : Cursor) (start : Nat) : Option Nat × Cursor :=
  let (returns, c) := c.runLength start (· == '\r'.toUInt8)
  match c.isAt (start + returns) '\n'.toUInt8 with
  | (true, c) => (some (returns + 1), c)
  | (false, c) => (none, c)

/-- Moves over held bytes up to the first one of a set; gives their number. -/
def skipUntil (c : Cursor) (stop : UInt8 → Bool) : Nat × Cursor :=
  let n := ((c.rest 0).takeWhile fun b => !stop b).length
  (n, c.advance n)

/-- Index of the first byte that is one of three, or the number of bytes. -/
def firstOf (bytes : List UInt8) (x y z : UInt8) : Nat :=
  bytes.findIdx fun b => b == x || b == y || b == z

/-- Moves over held bytes up to the first of three. -/
def skipTo (c : Cursor) (x y z : UInt8) : Nat × Cursor :=
  let n := firstOf (c.rest 0) x y z
  (n, c.advance n)

/-- Moves over the plain bytes of a string: up to the first quote, backslash or newline, or the
first carriage return if that comes earlier. -/
def skipStringBody (c : Cursor) : Nat × Cursor :=
  let rest := c.rest 0
  let n := min (firstOf rest '"'.toUInt8 '\\'.toUInt8 '\n'.toUInt8)
    (rest.findIdx (· == '\r'.toUInt8))
  (n, c.advance n)

/-- The held bytes from the start of the lookahead up to `stop`. -/
def sliceTo (c : Cursor) (stop : Nat) : List UInt8 :=
  c.view.bytes.take stop

/-! ## How far a skip goes -/

theorem skipUntil_bounds {view : Lookahead} {stop : UInt8 → Bool} {b : UInt8} {r : List UInt8}
    (hview : view.bytes = b :: r) (hb : stop b = false) :
    0 < (skipUntil ⟨view, 0, false⟩ stop).1 ∧
      (skipUntil ⟨view, 0, false⟩ stop).1 ≤ view.bytes.length := by
  constructor
  · simp [skipUntil, rest, hview, hb]
  · simpa [skipUntil, rest] using (List.takeWhile_sublist fun b => !stop b).length_le

theorem firstOf_le (bytes : List UInt8) (x y z : UInt8) : firstOf bytes x y z ≤ bytes.length :=
  List.findIdx_le_length

theorem firstOf_pos {bytes r : List UInt8} {b x y z : UInt8} (h : bytes = b :: r)
    (hb : (b == x || b == y || b == z) = false) : 0 < firstOf bytes x y z := by
  simp [firstOf, h, List.findIdx_cons, hb]

theorem skipTo_bounds {view : Lookahead} {x y z b : UInt8} {r : List UInt8}
    (hview : view.bytes = b :: r) (hb : (b == x || b == y || b == z) = false) :
    0 < (skipTo ⟨view, 0, false⟩ x y z).1 ∧
      (skipTo ⟨view, 0, false⟩ x y z).1 ≤ view.bytes.length :=
  ⟨firstOf_pos (by simpa [rest] using hview) hb,
    by simpa [skipTo, rest] using firstOf_le view.bytes x y z⟩

theorem skipStringBody_bounds {view : Lookahead} {b : UInt8} {r : List UInt8}
    (hview : view.bytes = b :: r) (hb : Byte.isStringStop b = false) :
    0 < (skipStringBody ⟨view, 0, false⟩).1 ∧
      (skipStringBody ⟨view, 0, false⟩).1 ≤ view.bytes.length := by
  simp only [Byte.isStringStop, Byte.isAny, List.any_cons, List.any_nil, Bool.or_false,
    Bool.or_eq_false_iff] at hb
  obtain ⟨hquote, hback, hnewline, hreturn⟩ := hb
  have hfirst : 0 < firstOf (rest ⟨view, 0, false⟩ 0) '"'.toUInt8 '\\'.toUInt8 '\n'.toUInt8 :=
    firstOf_pos (by simpa [rest] using hview) (by rw [hquote, hback, hnewline]; rfl)
  have hret : 0 < (rest ⟨view, 0, false⟩ 0).findIdx (· == '\r'.toUInt8) := by
    simp [rest, hview, List.findIdx_cons, hreturn]
  have hle := firstOf_le view.bytes '"'.toUInt8 '\\'.toUInt8 '\n'.toUInt8
  simp only [skipStringBody]
  refine ⟨Nat.lt_min.2 ⟨hfirst, hret⟩, Nat.le_trans (Nat.min_le_left _ _) ?_⟩
  simpa [rest] using hle

end Cursor

end StreamLexer
