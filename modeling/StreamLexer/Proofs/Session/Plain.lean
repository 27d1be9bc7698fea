import StreamLexer.Proofs.Scan.Starvation
import StreamLexer.Proofs.Session.Frame

/-!
# Runs of plain bytes

Inside comments, strings, quoted strings and quotations the bytes that start no rule are content. A
session takes as many of them at once as it holds. `Session.tookPlain` is the session after any
number of them, and `Session.run_tookPlain` says that it does not matter in how many pieces a run is
taken: the session goes on alike, whether it stands before the run, within it or behind it.
-/
namespace StreamLexer

namespace Mode

/-- The byte starts no rule of the mode. In source code every byte starts one. -/
def isPlain : Mode → UInt8 → Bool
  | .code, _ => false
  | .comment .., b => !Byte.isCommentStop b
  | .string o _, b => if o.delimiter.isSome then !Byte.isQuotedStop b else !Byte.isStringStop b
  | .quotation _, b => !Byte.isQuotationStop b

/-- The mode after some plain bytes, which join the text under construction. -/
def took (m : Mode) (bytes : List UInt8) : Mode :=
  match m with
  | .code => .code
  | .comment c text => .comment c (bytes.reverse ++ text)
  | .string o text => .string o (bytes.reverse ++ text)
  | .quotation q => .quotation q

@[simp] theorem took_nil (m : Mode) : m.took [] = m := by
  cases m <;> rfl

@[simp] theorem took_took (m : Mode) (p q : List UInt8) : (m.took p).took q = m.took (p ++ q) := by
  cases m <;> simp [took]

@[simp] theorem isPlain_took (m : Mode) (bytes : List UInt8) :
    (m.took bytes).isPlain = m.isPlain := by
  cases m <;> rfl

end Mode

/-- The bytes before the first stop byte. -/
theorem take_findIdx (isStop : UInt8 → Bool) (bytes : List UInt8) :
    bytes.take (bytes.findIdx isStop) = bytes.takeWhile fun b => !isStop b := by
  simp [List.takeWhile_eq_take_findIdx_not]

namespace Session

/-! ## Moving on in the window -/

/-- After `n` more bytes, `n` fewer are held ahead. -/
theorem lookahead_advance {s s' : Session} {n : Nat} (hwindow : s'.window = s.window)
    (hpos : s'.pos.offset = s.pos.offset + n) (hbase : s.window.base ≤ s.pos.offset) :
    s'.lookahead = ⟨s.lookahead.bytes.drop n, s.window.closed⟩ := by
  have hdrop : s.pos.offset + n - s.window.base = s.pos.offset - s.window.base + n := by omega
  simp [lookahead, Window.lookahead, hwindow, hpos, hdrop]

/-! ## Plain bytes -/

/-- The session after some plain bytes. -/
def tookPlain (s : Session) (bytes : List UInt8) : Session :=
  { s with pos := s.pos.shifted bytes.length, mode := s.mode.took bytes }

@[simp] theorem tookPlain_nil (s : Session) : s.tookPlain [] = s := by
  simp [tookPlain, Position.shifted]

@[simp] theorem tookPlain_tookPlain (s : Session) (p q : List UInt8) :
    (s.tookPlain p).tookPlain q = s.tookPlain (p ++ q) := by
  simp [tookPlain, Position.shifted, Nat.add_assoc]

theorem lookahead_tookPlain {s : Session} {p q : List UInt8}
    (hbase : s.window.base ≤ s.pos.offset) (hview : s.lookahead.bytes = p ++ q) :
    (s.tookPlain p).lookahead = ⟨q, s.window.closed⟩ := by
  have hahead : (s.tookPlain p).lookahead =
      ⟨s.lookahead.bytes.drop p.length, s.window.closed⟩ := lookahead_advance rfl rfl hbase
  rw [hahead, hview, List.drop_left]

/-- Where a plain byte is next, the step takes all plain bytes that are held before a stop byte. -/
theorem stepOn_plain {s : Session} {b : UInt8} (hb : s.mode.isPlain b = true) (rest : List UInt8)
    (closed : Bool) :
    s.stepOn ⟨b :: rest, closed⟩ =
      (s.tookPlain ((b :: rest).takeWhile s.mode.isPlain), .proceed) := by
  cases hmode : s.mode with
  | code => simp [hmode, Mode.isPlain] at hb
  | comment c text =>
    have hstop : Byte.isCommentStop b = false := by simpa [hmode, Mode.isPlain] using hb
    have hscan : CommentRule.scan ⟨b :: rest, closed⟩ =
        .found .plain ((b :: rest).findIdx Byte.isCommentStop) := by
      rw [CommentRule.scan_eq_bodyScan]
      exact CommentRule.bodyTable.scan_plain hstop rest closed
    simp only [stepOn, hmode, hscan, onFound, take_findIdx]
    simp only [actComment, goOn, moveTo, tookPlain, hmode, Mode.took]
    rfl
  | string o text =>
    cases hdelimiter : o.delimiter with
    | none =>
      have hstop : Byte.isStringStop b = false := by
        simpa [hmode, Mode.isPlain, hdelimiter] using hb
      have hscan : StringRule.scan ⟨b :: rest, closed⟩ =
          .found .plain ((b :: rest).findIdx Byte.isStringStop) := by
        rw [StringRule.scan_eq_bodyScan]
        exact StringRule.bodyTable.scan_plain hstop rest closed
      have hplain : Mode.isPlain (.string o text) = fun b => !Byte.isStringStop b := by
        simp [funext_iff, Mode.isPlain, hdelimiter]
      simp only [stepOn, hmode, hdelimiter, hscan, onFound, take_findIdx, hplain]
      simp only [actString, goOn, moveTo, tookPlain, hmode, Mode.took]
    | some id =>
      have hstop : Byte.isQuotedStop b = false := by
        simpa [hmode, Mode.isPlain, hdelimiter] using hb
      have hscan : QuotedRule.scan ⟨b :: rest, closed⟩ =
          .found .plain ((b :: rest).findIdx Byte.isQuotedStop) := by
        rw [QuotedRule.scan_eq_bodyScan]
        exact QuotedRule.bodyTable.scan_plain hstop rest closed
      have hplain : Mode.isPlain (.string o text) = fun b => !Byte.isQuotedStop b := by
        simp [funext_iff, Mode.isPlain, hdelimiter]
      simp only [stepOn, hmode, hdelimiter, hscan, onFound, take_findIdx, hplain]
      simp only [actQuoted, goOn, moveTo, tookPlain, hmode, Mode.took]
  | quotation q =>
    have hstop : Byte.isQuotationStop b = false := by simpa [hmode, Mode.isPlain] using hb
    have hscan : QuotationRule.scan ⟨b :: rest, closed⟩ =
        .found .plain ((b :: rest).findIdx Byte.isQuotationStop) := by
      rw [QuotationRule.scan_eq_bodyScan]
      exact QuotationRule.bodyTable.scan_plain hstop rest closed
    have hlength := congrArg List.length (take_findIdx Byte.isQuotationStop (b :: rest))
    rw [List.length_take_of_le List.findIdx_le_length] at hlength
    simp only [stepOn, hmode, hscan, onFound, hlength]
    simp only [actQuotation, goOn, moveTo, tookPlain, hmode, Mode.took]
    rfl

/-- Plain bytes that are next may be taken in advance. -/
theorem run_tookPlain {s : Session} {p q : List UInt8} (hbase : s.window.base ≤ s.pos.offset)
    (hview : s.lookahead.bytes = p ++ q) (hplain : ∀ b ∈ p, s.mode.isPlain b = true) :
    s.run = (s.tookPlain p).run := by
  -- both sessions come to stand behind the plain bytes that `q` starts with
  cases p with
  | nil => rw [tookPlain_nil]
  | cons b p =>
    -- the whole run is `b :: p` and the plain bytes `w` that `q` starts with
    have hstep : s.step =
        (s.tookPlain (b :: p ++ q.takeWhile s.mode.isPlain), .proceed) := by
      have hlookahead : s.lookahead = ⟨b :: (p ++ q), s.window.closed⟩ := by
        rw [← List.cons_append, ← hview]
        rfl
      rw [step, hlookahead, stepOn_plain (hplain b (by simp))]
      rw [← List.cons_append, List.takeWhile_append_of_pos hplain]
    rw [run_of_proceed hstep]
    have hahead := lookahead_tookPlain hbase hview
    cases hq : q with
    | nil => simp
    | cons c q' =>
      by_cases hc : s.mode.isPlain c = true
      · have hstep' : (s.tookPlain (b :: p)).step =
            ((s.tookPlain (b :: p)).tookPlain (q.takeWhile s.mode.isPlain), .proceed) := by
          have hc' : (s.tookPlain (b :: p)).mode.isPlain c = true := by
            simpa [tookPlain] using hc
          rw [step, hahead, hq, stepOn_plain hc']
          simp [tookPlain]
        rw [run_of_proceed hstep', tookPlain_tookPlain, hq]
      · simp [hc]

end Session

end StreamLexer
