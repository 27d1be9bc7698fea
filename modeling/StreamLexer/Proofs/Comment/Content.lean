import StreamLexer.Proofs.Scan.Lexeme
import StreamLexer.Proofs.Session.Plain

/-!
# Sessions that read a complete source

Where a session stands in its source is told by what it has not taken yet: `StandsBefore`. A session
reads to some rest and mode if it goes on like one that stands there: `ReadsTo`. Both follow the
reader, which knows only what is left as well.

Content of comments, and of the strings in them, can be read byte by byte, whatever pieces the
lexemes come in: `StandsBefore.content`.
-/
namespace StreamLexer

open Reader (afterLineEnd?)

namespace Session

/-- The session holds the whole source, and `rest` is what it has not taken. -/
structure StandsBefore (s : Session) (source rest : List UInt8) : Prop where
  window_eq : s.window = .ofSource source
  offset_add : s.pos.offset + rest.length = source.length
  drop_eq : source.drop s.pos.offset = rest

/-- The session goes on like one that stands before `rest` in the mode. -/
def ReadsTo (s : Session) (source rest : List UInt8) (mode : Mode) : Prop :=
  ∃ t : Session, s.run = t.run ∧ t.StandsBefore source rest ∧ t.mode = mode

section Moves

variable {s t : Session} {source rest : List UInt8}

theorem StandsBefore.lookahead_eq (h : s.StandsBefore source rest) :
    s.lookahead = ⟨rest, true⟩ := by
  rw [lookahead, h.window_eq]
  show (⟨source.drop (s.pos.offset - 0), true⟩ : Lookahead) = _
  rw [Nat.sub_zero, h.drop_eq]

theorem StandsBefore.advance (p : List UInt8) (h : s.StandsBefore source (p ++ rest))
    (hwindow : t.window = s.window) (hoffset : t.pos.offset = s.pos.offset + p.length) :
    t.StandsBefore source rest := by
  refine ⟨hwindow.trans h.window_eq, ?_, ?_⟩
  · have hlength := h.offset_add
    simp only [List.length_append] at hlength
    omega
  · rw [hoffset, ← List.drop_drop, h.drop_eq, List.drop_left]

/-- A session over a source stands before what lies behind its position. -/
theorem standsBefore_drop (hwindow : s.window = .ofSource source)
    (hoffset : s.pos.offset ≤ source.length) :
    s.StandsBefore source (source.drop s.pos.offset) := by
  refine ⟨hwindow, ?_, rfl⟩
  rw [List.length_drop]
  omega

theorem ReadsTo.of_step {mode : Mode} (hstep : s.step = (t, .proceed))
    (h : t.StandsBefore source rest) (hmode : t.mode = mode) : s.ReadsTo source rest mode :=
  ⟨t, run_of_proceed hstep, h, hmode⟩

end Moves

/-! ## Lexemes -/

section Lexemes

variable {s : Session} {source rest : List UInt8}

theorem StandsBefore.step_comment (lexeme : List UInt8) {c : OpenComment} {text : List UInt8}
    {rule : CommentRule}
    (h : s.StandsBefore source (lexeme ++ rest)) (hmode : s.mode = .comment c text)
    (hscan : CommentRule.scan ⟨lexeme ++ rest, true⟩ = .found rule lexeme.length) :
    s.step = s.actComment c text rule lexeme := by
  simp only [step, stepOn, hmode, h.lookahead_eq, hscan, onFound, List.take_left]

theorem StandsBefore.step_string (lexeme : List UInt8) {o : OpenString} {text : List UInt8}
    {rule : StringRule}
    (h : s.StandsBefore source (lexeme ++ rest)) (hmode : s.mode = .string o text)
    (hdelimiter : o.delimiter = none)
    (hscan : StringRule.scan ⟨lexeme ++ rest, true⟩ = .found rule lexeme.length) :
    s.step = s.actString o text rule lexeme := by
  simp only [step, stepOn, hmode, hdelimiter, h.lookahead_eq, hscan, onFound, List.take_left]

theorem StandsBefore.step_quoted (lexeme : List UInt8) {o : OpenString} {id text : List UInt8}
    {rule : QuotedRule}
    (h : s.StandsBefore source (lexeme ++ rest)) (hmode : s.mode = .string o text)
    (hdelimiter : o.delimiter = some id)
    (hscan : QuotedRule.scan ⟨lexeme ++ rest, true⟩ = .found rule lexeme.length) :
    s.step = s.actQuoted o id text rule lexeme := by
  simp only [step, stepOn, hmode, hdelimiter, h.lookahead_eq, hscan, onFound, List.take_left]

end Lexemes

/-! ## Content -/

/-- The session after a line end that is content. -/
def tookLine (s : Session) (lexeme : List UInt8) : Session :=
  (s.tookPlain lexeme).moveTo (lineEnded (s.tookPlain lexeme).pos)

theorem tookLine_cons (s : Session) (b : UInt8) (lexeme : List UInt8) :
    (s.tookPlain [b]).tookLine lexeme = s.tookLine (b :: lexeme) := by
  simp only [tookLine, tookPlain_tookPlain, List.singleton_append]

/-- A line end, in a comment or in a string in one. -/
theorem stepOn_lineEnd {s : Session} (hcomment : s.mode.comment?.isSome = true) {b : UInt8}
    (hb : Byte.isLineEnd b = true) (rest : List UInt8) :
    s.stepOn ⟨b :: rest, true⟩ =
      match afterLineEnd? (b :: rest) with
      | some next => (s.tookLine ((b :: rest).take ((b :: rest).length - next.length)), .proceed)
      | none => (s.tookPlain [b], .proceed) := by
  cases hmode : s.mode with
  | code => simp [hmode, Mode.comment?] at hcomment
  | quotation q => simp [hmode, Mode.comment?] at hcomment
  | comment c text =>
    simp only [stepOn, hmode, CommentRule.scan_lineEnd hb]
    cases afterLineEnd? (b :: rest) <;>
      simp [onFound, actComment, goOn, moveTo, tookLine, tookPlain, hmode, Mode.took]
  | string o text =>
    have henclosing : o.enclosing.isSome = true := by simpa [hmode, Mode.comment?] using hcomment
    cases hdelimiter : o.delimiter with
    | none =>
      simp only [stepOn, hmode, hdelimiter, StringRule.scan_lineEnd hb]
      cases afterLineEnd? (b :: rest) <;>
        simp [onFound, actString, goOn, moveTo, tookLine, tookPlain, hmode, henclosing, Mode.took]
    | some id =>
      simp only [stepOn, hmode, hdelimiter, QuotedRule.scan_lineEnd hb]
      cases afterLineEnd? (b :: rest) <;>
        simp [onFound, actQuoted, goOn, moveTo, tookLine, tookPlain, hmode, Mode.took]

theorem mode_tookPlain (s : Session) (bytes : List UInt8) :
    (s.tookPlain bytes).mode = s.mode.took bytes := rfl

theorem StandsBefore.tookPlain (p : List UInt8) {s : Session} {source rest : List UInt8}
    (h : s.StandsBefore source (p ++ rest)) : (s.tookPlain p).StandsBefore source rest :=
  h.advance p rfl rfl

theorem StandsBefore.run_eq (p : List UInt8) {s : Session} {source rest : List UInt8}
    (h : s.StandsBefore source (p ++ rest)) (hp : ∀ b ∈ p, s.mode.isPlain b = true) :
    s.run = (s.tookPlain p).run := by
  have hbase : s.window.base ≤ s.pos.offset := by
    rw [h.window_eq]
    exact Nat.zero_le _
  have hview : s.lookahead.bytes = p ++ rest := by rw [h.lookahead_eq]
  exact run_tookPlain hbase hview hp

theorem StandsBefore.step_lineEnd {s : Session} {source rest : List UInt8} {b : UInt8}
    (h : s.StandsBefore source (b :: rest)) (hcomment : s.mode.comment?.isSome = true)
    (hb : Byte.isLineEnd b = true) :
    s.step = match afterLineEnd? (b :: rest) with
      | some next => (s.tookLine ((b :: rest).take ((b :: rest).length - next.length)), .proceed)
      | none => (s.tookPlain [b], .proceed) := by
  rw [step, h.lookahead_eq]
  exact stepOn_lineEnd hcomment hb rest

theorem comment?_took (m : Mode) (bytes : List UInt8) : (m.took bytes).comment? = m.comment? := by
  cases m <;> rfl

/-- The bytes of line ends are content, in a comment or in a string in one. A carriage return may be
read ahead of the rest of its line end. -/
theorem StandsBefore.lineEnd {s : Session} {source rest : List UInt8} {b : UInt8}
    (h : s.StandsBefore source (b :: rest)) (hcomment : s.mode.comment?.isSome = true)
    (hb : Byte.isLineEnd b = true) : s.ReadsTo source rest (s.mode.took [b]) := by
  have htook : (s.tookPlain [b]).StandsBefore source rest := h.tookPlain [b]
  have hstep := h.step_lineEnd hcomment hb
  obtain rfl | rfl : b = '\r'.toUInt8 ∨ b = '\n'.toUInt8 := by
    simpa [Byte.isLineEnd, Byte.isAny] using hb
  · rw [afterLineEnd?_return] at hstep
    cases hnext : afterLineEnd? rest with
    | none =>
      rw [hnext] at hstep
      exact .of_step hstep htook rfl
    | some next =>
      -- before and behind the carriage return, the session takes the same line end
      rw [hnext] at hstep
      refine ⟨s.tookPlain ['\r'.toUInt8], ?_, htook, rfl⟩
      cases rest with
      | nil => cases hnext
      | cons c rest =>
        have hc : Byte.isLineEnd c = true := isLineEnd_of_afterLineEnd? hnext
        have hcomment' : (s.tookPlain ['\r'.toUInt8]).mode.comment?.isSome = true := by
          rwa [mode_tookPlain, comment?_took]
        have hstep' := htook.step_lineEnd hcomment' hc
        have hlength := Reader.afterLineEnd?_length hnext
        rw [hnext] at hstep'
        rw [run_of_proceed hstep, run_of_proceed hstep', tookLine_cons]
        congr 2
        rw [List.length_cons, Nat.succ_sub (Nat.le_of_lt hlength), List.take_succ_cons]
  · rw [afterLineEnd?_newline] at hstep
    have htaken : ('\n'.toUInt8 :: rest).take (('\n'.toUInt8 :: rest).length - rest.length) =
        ['\n'.toUInt8] := by simp
    have hline : (s.tookLine ['\n'.toUInt8]).StandsBefore source rest :=
      h.advance ['\n'.toUInt8] rfl rfl
    refine .of_step hstep ?_ ?_
    · rw [htaken]
      exact hline
    · rw [htaken]
      rfl

/-- Every byte that starts no rule but that of line ends is content. -/
theorem StandsBefore.content {s : Session} {source rest : List UInt8} {b : UInt8}
    (h : s.StandsBefore source (b :: rest)) (hcomment : s.mode.comment?.isSome = true)
    (hb : s.mode.isPlain b = true ∨ Byte.isLineEnd b = true) :
    s.ReadsTo source rest (s.mode.took [b]) := by
  rcases hb with hplain | hline
  · exact ⟨s.tookPlain [b], h.run_eq [b] (by simpa using hplain), h.tookPlain [b], rfl⟩
  · exact h.lineEnd hcomment hline

end Session

end StreamLexer
