import StreamLexer.Source.Cursor

/-!
# A window and its whole stream

A window holds the end of a stream: whatever was pushed into it, less what has been released. The
stream itself is told by the operations alone, `WindowStep.pushed`, and `Window.HoldsEnd` ties a
window to it. Each operation keeps that tie, so any list of them does: `Window.HoldsEnd.afterAll`.

The main statement is `window_refines_stream`: whatever can be read from a window, at offsets that
count from the start of the stream, is what the stream has there.
-/
namespace StreamLexer

/-- An operation on a window. -/
inductive WindowStep where
  | push (chunk : List UInt8)
  | close
  | release (offset : Nat)
  deriving DecidableEq

/-- The chunks that are pushed before the end of input is signalled, one behind the other. -/
def WindowStep.pushed : List WindowStep → List UInt8
  | .push chunk :: steps => chunk ++ pushed steps
  | .release _ :: steps => pushed steps
  | .close :: _ => []
  | [] => []

/-- A look at a fresh cursor starves it where it goes past the end of what is open. -/
theorem Cursor.starved_peekAt (view : Lookahead) (n : Nat) :
    (peekAt { view } n).2.starved = (decide (view.bytes.length ≤ n) && !view.closed) := by
  simp only [peekAt, looked, rest, Nat.zero_add]
  by_cases hlt : n < view.bytes.length
  · simp [List.isEmpty_iff, Nat.not_le.mpr hlt]
  · cases hclosed : view.closed <;> simp [List.isEmpty_iff, Nat.not_lt.mp hlt]

namespace Window

/-- The window after an operation. -/
def after (w : Window) : WindowStep → Window
  | .push chunk => (w.push chunk).1
  | .close => w.close
  | .release offset => w.releaseBefore offset

/-- The window after some operations, in order. -/
def afterAll (w : Window) (steps : List WindowStep) : Window :=
  steps.foldl after w

/-- The cursor that reads what is held from an offset on. -/
def cursorAt (w : Window) (offset : Nat) : Cursor :=
  { view := w.lookahead offset }

/-! ## Operations one by one -/

section Operations

variable (w : Window)

theorem push_of_closed (h : w.closed = true) (chunk : List UInt8) : w.push chunk = (w, false) := by
  rw [push, if_pos h]

theorem push_of_open (h : w.closed = false) (chunk : List UInt8) :
    w.push chunk = ({ w with bytes := w.bytes ++ chunk }, true) := by
  rw [push, if_neg (by simp [h])]

theorem base_releaseBefore (offset : Nat) :
    (w.releaseBefore offset).base = max w.base (min offset w.stop) := by
  simp only [releaseBefore, stop]
  omega

/-- Only the end signal closes a window, and nothing opens it again. -/
theorem closed_after (step : WindowStep) :
    (w.after step).closed = (w.closed || decide (step = .close)) := by
  cases step with
  | push chunk =>
    cases h : w.closed with
    | true => simp [after, push_of_closed w h, h]
    | false => simp [after, push_of_open w h, h]
  | close => simp [after, close]
  | release offset => simp [after, releaseBefore]

theorem base_le_after (step : WindowStep) : w.base ≤ (w.after step).base := by
  cases step with
  | push chunk =>
    cases h : w.closed with
    | true => simp [after, push_of_closed w h]
    | false => simp [after, push_of_open w h]
  | close => exact Nat.le_refl _
  | release offset =>
    rw [after, base_releaseBefore]
    exact Nat.le_max_left _ _

end Operations

/-! ## Lists of operations -/

theorem closed_afterAll (w : Window) (steps : List WindowStep) :
    (w.afterAll steps).closed = (w.closed || decide (.close ∈ steps)) := by
  induction steps generalizing w with
  | nil => simp [afterAll]
  | cons step steps ih =>
    have hrest : (w.afterAll (step :: steps)).closed = ((w.after step).afterAll steps).closed := rfl
    rw [hrest, ih, closed_after, Bool.or_assoc, ← Bool.decide_or]
    simp [eq_comm]

theorem base_le_afterAll (w : Window) (steps : List WindowStep) :
    w.base ≤ (w.afterAll steps).base := by
  induction steps generalizing w with
  | nil => exact Nat.le_refl _
  | cons step steps ih => exact Nat.le_trans (base_le_after w step) (ih (w.after step))

/-! ## The stream behind a window -/

/-- The window holds the stream from its base on. -/
structure HoldsEnd (w : Window) (stream : List UInt8) : Prop where
  base_le : w.base ≤ stream.length
  bytes_eq : w.bytes = stream.drop w.base

section HoldsEnd

variable {w : Window} {stream : List UInt8}

theorem HoldsEnd.stop_eq (h : w.HoldsEnd stream) : w.stop = stream.length := by
  have hbase := h.base_le
  rw [stop, h.bytes_eq, List.length_drop]
  omega

theorem HoldsEnd.push (h : w.HoldsEnd stream) (hopen : w.closed = false) (chunk : List UInt8) :
    (w.push chunk).1.HoldsEnd (stream ++ chunk) := by
  rw [push_of_open w hopen]
  constructor
  · have hbase := h.base_le
    rw [List.length_append]
    exact Nat.le_add_right_of_le hbase
  · show w.bytes ++ chunk = (stream ++ chunk).drop w.base
    rw [List.drop_append_of_le_length h.base_le, h.bytes_eq]

theorem HoldsEnd.release (h : w.HoldsEnd stream) (offset : Nat) :
    (w.releaseBefore offset).HoldsEnd stream := by
  have hstop := stop_releaseBefore w offset
  have hbase := h.base_le
  constructor
  · rw [base_releaseBefore, h.stop_eq]
    omega
  · show w.bytes.drop _ = stream.drop (w.base + _)
    rw [h.bytes_eq, List.drop_drop]

/-- After some operations the stream goes on with what they have pushed, unless it had ended. -/
theorem HoldsEnd.afterAll (h : w.HoldsEnd stream) (steps : List WindowStep) :
    (w.afterAll steps).HoldsEnd
      (stream ++ if w.closed then [] else WindowStep.pushed steps) := by
  induction steps generalizing w stream with
  | nil => simpa [Window.afterAll, WindowStep.pushed] using h
  | cons step steps ih =>
    show ((w.after step).afterAll steps).HoldsEnd _
    have hclosed := closed_after w step
    cases step with
    | push chunk =>
      cases hopen : w.closed with
      | true =>
        have hsame : w.after (.push chunk) = w := by rw [after, push_of_closed w hopen]
        simpa [hsame, hopen] using ih h
      | false =>
        have hrest := ih (w := w.after (.push chunk)) (h.push hopen chunk)
        simpa [hclosed, hopen, WindowStep.pushed] using hrest
    | close =>
      have hrest := ih (w := w.after .close) ⟨h.base_le, h.bytes_eq⟩
      simpa [hclosed, WindowStep.pushed] using hrest
    | release offset =>
      have hrest := ih (w := w.after (.release offset)) (h.release offset)
      simpa [hclosed, WindowStep.pushed] using hrest

theorem HoldsEnd.slice_eq (h : w.HoldsEnd stream) {start stop : Nat} (hstart : w.base ≤ start) :
    w.slice start stop = stream.extract start stop := by
  rw [slice, h.bytes_eq, List.drop_drop, List.extract_eq_take_drop, Nat.add_sub_cancel' hstart]

theorem HoldsEnd.lookahead_eq (h : w.HoldsEnd stream) {offset : Nat} (hoffset : w.base ≤ offset) :
    w.lookahead offset = ⟨stream.drop offset, w.closed⟩ := by
  rw [lookahead, h.bytes_eq, List.drop_drop, Nat.add_sub_cancel' hoffset]

theorem HoldsEnd.peekAt_cursorAt (h : w.HoldsEnd stream) {offset : Nat} (hoffset : w.base ≤ offset)
    (n : Nat) :
    ((w.cursorAt offset).peekAt n).1 = stream[offset + n]? ∧
      ((w.cursorAt offset).peekAt n).2.starved =
        (decide (stream.length ≤ offset + n) && !w.closed) := by
  rw [cursorAt, h.lookahead_eq hoffset]
  refine ⟨by simp [Cursor.peekAt, Cursor.rest], ?_⟩
  rw [Cursor.starved_peekAt, List.length_drop]
  congr 2
  rw [eq_iff_iff]
  omega

end HoldsEnd

/-! ## What can be seen of a window -/

/-- Whatever can be read from the window is told by its stream, by whether that has ended, and by
the base. -/
structure Shows (w : Window) (stream : List UInt8) (ended : Bool) : Prop where
  closed_eq : w.closed = ended
  /-- A chunk is accepted exactly while the window is open. -/
  accepts : ∀ chunk, (w.push chunk).2 = !ended
  stop_eq : w.stop = stream.length
  base_le : w.base ≤ w.stop
  released : ∀ offset, (w.releaseBefore offset).base = max w.base (min offset w.stop)
  slice_eq : ∀ start stop, w.base ≤ start → start ≤ stop → stop ≤ w.stop →
    w.slice start stop = stream.extract start stop
  peek_eq : ∀ offset n, w.base ≤ offset →
    ((w.cursorAt offset).peekAt n).1 =
      if offset ≤ w.stop ∧ offset + n < w.stop then stream[offset + n]? else none
  /-- A look past the end starves exactly while the window is open, any other look never. -/
  starved_iff : ∀ offset n, w.base ≤ offset →
    (((w.cursorAt offset).peekAt n).2.starved = true ↔
      ¬ (offset ≤ w.stop ∧ offset + n < w.stop) ∧ ended = false)

theorem HoldsEnd.shows {w : Window} {stream : List UInt8} (h : w.HoldsEnd stream) :
    w.Shows stream w.closed where
  closed_eq := rfl
  accepts chunk := by
    cases hclosed : w.closed with
    | true => simp [push_of_closed w hclosed]
    | false => simp [push_of_open w hclosed]
  stop_eq := h.stop_eq
  base_le := h.stop_eq ▸ h.base_le
  released := base_releaseBefore w
  slice_eq start stop hstart _ _ := h.slice_eq hstart
  peek_eq offset n hoffset := by
    rw [(h.peekAt_cursorAt hoffset n).1, h.stop_eq]
    by_cases hlt : offset + n < stream.length
    · rw [if_pos (by omega)]
    · rw [if_neg (by omega), List.getElem?_eq_none (by omega)]
  starved_iff offset n hoffset := by
    have hpast : ¬ (offset ≤ stream.length ∧ offset + n < stream.length) ↔
        stream.length ≤ offset + n := by omega
    rw [(h.peekAt_cursorAt hoffset n).2, h.stop_eq, hpast]
    simp

end Window

/-- After any operations, a window that started empty or with a whole source shows the stream that
they have given it; and its base never goes back. -/
theorem window_refines_stream (steps : List WindowStep) :
    (Window.afterAll {} steps).Shows (WindowStep.pushed steps) (decide (.close ∈ steps)) ∧
      (∀ source, (Window.afterAll (.ofSource source) steps).Shows source true) ∧
      ∀ start later, (Window.afterAll start steps).base ≤
        (Window.afterAll start (steps ++ later)).base := by
  refine ⟨?_, fun source => ?_, fun start later => ?_⟩
  · have hnew : Window.HoldsEnd {} [] := ⟨Nat.le_refl 0, rfl⟩
    have hshows := (hnew.afterAll steps).shows
    rw [Window.closed_afterAll] at hshows
    exact hshows
  · have hwhole : (Window.ofSource source).HoldsEnd source := ⟨Nat.zero_le _, rfl⟩
    have hshows := (hwhole.afterAll steps).shows
    rw [Window.closed_afterAll] at hshows
    simpa [Window.ofSource] using hshows
  · rw [Window.afterAll, Window.afterAll, List.foldl_append]
    exact Window.base_le_afterAll _ later

/-- What is pushed behind the end signal is no part of the stream, and a release far ahead drops
what is held only. -/
example :
    let steps : List WindowStep :=
      [.push [1, 2, 3], .release 2, .release 9, .push [4], .close, .push [5]]
    Window.afterAll {} steps = { base := 3, bytes := [4], closed := true } ∧
      WindowStep.pushed steps = [1, 2, 3, 4] := by
  decide

end StreamLexer
