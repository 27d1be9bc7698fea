/-!
The held part of an input stream. Input arrives in chunks; the window appends them, remembers
whether the end of input has been signalled, and drops bytes that are no longer needed. All offsets
count from the start of the stream.
-/
namespace StreamLexer

/-- What can be seen from some offset on: the bytes held from there, and whether the input ends with
them. -/
structure Lookahead where
  bytes : List UInt8
  /-- No byte can follow the held ones. -/
  closed : Bool
  deriving DecidableEq

/-- The held tail of an input stream. -/
structure Window where
  /-- Offset of the first held byte. -/
  base : Nat := 0
  /-- The held bytes, in order. -/
  bytes : List UInt8 := []
  /-- The end of input has been signalled: no more bytes will follow. -/
  closed : Bool := false
  deriving DecidableEq

namespace Window

/-- A window over the whole of a stream. -/
def ofSource (source : List UInt8) : Window :=
  { bytes := source, closed := true }

/-- Offset just past the last held byte. -/
def stop (w : Window) : Nat :=
  w.base + w.bytes.length

/-- Appends a chunk. A closed window refuses it; the flag says whether it was accepted. -/
def push (w : Window) (chunk : List UInt8) : Window × Bool :=
  if w.closed then (w, false) else ({ w with bytes := w.bytes ++ chunk }, true)

/-- Signals the end of input. -/
def close (w : Window) : Window :=
  { w with closed := true }

/-- Drops the held bytes before an offset; past the end, all of them. -/
def releaseBefore (w : Window) (offset : Nat) : Window :=
  let n := min (offset - w.base) w.bytes.length
  { w with base := w.base + n, bytes := w.bytes.drop n }

/-- What is held from an offset on. -/
def lookahead (w : Window) (offset : Nat) : Lookahead :=
  ⟨w.bytes.drop (offset - w.base), w.closed⟩

/-- The held bytes between two offsets. -/
def slice (w : Window) (start stop : Nat) : List UInt8 :=
  (w.bytes.drop (start - w.base)).take (stop - start)

@[simp] theorem stop_close (w : Window) : w.close.stop = w.stop := rfl

@[simp] theorem stop_releaseBefore (w : Window) (offset : Nat) :
    (w.releaseBefore offset).stop = w.stop := by
  simp only [releaseBefore, stop, List.length_drop]
  omega

theorem stop_push_le (w : Window) (chunk : List UInt8) :
    (w.push chunk).1.stop ≤ w.stop + chunk.length := by
  unfold push
  split
  · simp
  · simp only [stop, List.length_append]
    omega

/-- A lexeme is a slice of the window: the first bytes of what is held from its start. -/
theorem take_lookahead (w : Window) (offset n : Nat) :
    (w.lookahead offset).bytes.take n = w.slice offset (offset + n) := by
  simp [lookahead, slice]

@[simp] theorem length_lookahead (w : Window) (offset : Nat) :
    (w.lookahead offset).bytes.length = w.bytes.length - (offset - w.base) := by
  simp [lookahead]

/-- Where something is held from an offset on, the offset lies before the end. -/
theorem lt_stop_of_lookahead {w : Window} {offset : Nat}
    (h : 0 < (w.lookahead offset).bytes.length) : offset < w.stop := by
  simp only [length_lookahead] at h
  simp only [stop]
  omega

end Window

end StreamLexer
