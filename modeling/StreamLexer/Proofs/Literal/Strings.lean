import StreamLexer.Proofs.Literal.Items
import StreamLexer.Proofs.Session.Course

/-!
# String literals

A session that stands in a string outside comments reads its items one by one, as the reader does:
`StandsBefore.readsItem` for one item, `StandsBefore.answersString` for the whole string by
induction along the reader. The main statement is `string_decodes`: where source code meets a double
quote, lexing makes of it what the items say.
-/
namespace StreamLexer

open Reader (Item Ending Shape Placed Literal afterLineEnd? head readItems)

/-- What a warning is about, and where it starts and stops in the source. -/
def Warning.note (w : Warning) : WarningKind × Nat × Nat :=
  (w.kind, w.span.start.offset, w.span.stop.offset)

/-- A line end is spelled as it reads. -/
theorem lineEnd_spelled {bytes next : List UInt8} (h : afterLineEnd? bytes = some next) :
    bytes = (Item.lineEnd (bytes.takeWhile (· == '\r'.toUInt8)).length).denotes ++ next := by
  have hreturns : bytes.takeWhile (· == '\r'.toUInt8) =
      List.replicate (bytes.takeWhile (· == '\r'.toUInt8)).length '\r'.toUInt8 := by
    apply List.eq_replicate_of_mem
    intro b hb
    exact eq_of_beq (List.all_eq_true.mp List.all_takeWhile b hb)
  rw [Item.denotes, ← hreturns, List.append_assoc]
  exact Reader.afterLineEnd?_eq_some h

namespace Session

/-! ## Items -/

/-- The session goes on like one that stands before `rest` in the mode, with these warnings behind
the ones recorded so far. -/
def ReadsOn (s : Session) (source rest : List UInt8) (mode : Mode)
    (notes : List (WarningKind × Nat × Nat)) : Prop :=
  ∃ (t : Session) (new : List Warning), s.run = t.run ∧ t.StandsBefore source rest ∧
    t.mode = mode ∧ t.warnings.toList = s.warnings.toList ++ new ∧ new.map Warning.note = notes

section Items

variable {s t : Session} {source rest next stored : List UInt8} {o : OpenString}

/-- A move that records no warning. -/
theorem ReadsOn.of_silent {mode : Mode} (hrun : s.run = t.run) (h : t.StandsBefore source rest)
    (hmode : t.mode = mode) (hwarnings : t.warnings = s.warnings) :
    s.ReadsOn source rest mode [] :=
  ⟨t, [], hrun, h, hmode, by simp [hwarnings], rfl⟩

/-- A move that records one warning. -/
theorem ReadsOn.of_warning {mode : Mode} {w : Warning} (hrun : s.run = t.run)
    (h : t.StandsBefore source rest) (hmode : t.mode = mode)
    (hwarnings : t.warnings = s.warnings.push w) : s.ReadsOn source rest mode [w.note] :=
  ⟨t, [w], hrun, h, hmode, by simp [hwarnings], rfl⟩

/-- A byte that starts no line end is content, with the plain bytes behind it or without. -/
theorem StandsBefore.readsPlain {b : UInt8} (h : s.StandsBefore source (b :: rest))
    (hmode : s.mode = .string o stored) (hdelimiter : o.delimiter = none)
    (hquote : (b == '"'.toUInt8) = false) (hback : (b == '\\'.toUInt8) = false)
    (hline : afterLineEnd? (b :: rest) = none) :
    s.ReadsOn source rest (.string o (b :: stored)) [] := by
  have hplain : s.mode.isPlain b = true ∨ Byte.isLineEnd b = true :=
    hmode ▸ isPlain_string hdelimiter hquote hback
  rcases hplain with hplain | hreturn
  · have hrun := h.run_eq [b] (by simpa using hplain)
    refine .of_silent hrun (h.tookPlain [b]) ?_ rfl
    rw [mode_tookPlain, hmode]
    rfl
  · -- a carriage return that no newline follows
    have hscan := StringRule.scan_lineEnd hreturn rest
    rw [hline] at hscan
    have hstep := h.step_string [b] hmode hdelimiter hscan
    exact .of_silent (run_of_proceed hstep) (h.advance [b] rfl rfl) rfl rfl

/-- A line end is content, with a warning. -/
theorem StandsBefore.readsLineEnd {lexeme : List UInt8} (h : s.StandsBefore source (lexeme ++ next))
    (hmode : s.mode = .string o stored) (hdelimiter : o.delimiter = none)
    (henclosing : o.enclosing = none) (hline : afterLineEnd? (lexeme ++ next) = some next) :
    s.ReadsOn source next (.string o (lexeme.reverse ++ stored))
      [(.eolInString, s.pos.offset, s.pos.offset + lexeme.length)] := by
  have hscan : StringRule.scan ⟨lexeme ++ next, true⟩ = .found .newline lexeme.length := by
    cases hbytes : lexeme ++ next with
    | nil =>
      rw [hbytes] at hline
      cases hline
    | cons b rest =>
      rw [hbytes] at hline
      have hb : Byte.isLineEnd b = true := isLineEnd_of_afterLineEnd? hline
      rw [StringRule.scan_lineEnd hb, hline, ← hbytes]
      simp
  have hstep := h.step_string lexeme hmode hdelimiter hscan
  simp only [actString, henclosing] at hstep
  exact .of_warning (run_of_proceed hstep) (h.advance lexeme rfl rfl) rfl rfl

/-- A session reads the item that is next. -/
theorem StandsBefore.readsItem {bytes : List UInt8} {item : Item} (h : s.StandsBefore source bytes)
    (hmode : s.mode = .string o stored) (hdelimiter : o.delimiter = none)
    (henclosing : o.enclosing = none) (hhead : head bytes = .item item rest) :
    s.ReadsOn source rest (.string o (item.denotes.reverse ++ stored))
      (Placed.mk item s.pos.offset (s.pos.offset + (bytes.length - rest.length))).notes := by
  cases Shape.of_head hhead with
  | continuation line =>
    obtain ⟨lexeme, hsplit, hstep⟩ := h.step_lineContinuation hmode hdelimiter line
    rw [hsplit] at h
    exact .of_silent (run_of_proceed hstep) (h.advance lexeme rfl rfl) rfl rfl
  | escape line found =>
    obtain ⟨lexeme, hsplit, -, hstep⟩ := h.step_escape hmode hdelimiter line found
    rw [hsplit] at h
    exact .of_silent (run_of_proceed hstep) (h.advance lexeme rfl rfl) rfl rfl
  | @unknown c _ line found =>
    have hstep := h.step_unknownEscape hmode hdelimiter line found
    have hlength : ('\\'.toUInt8 :: c :: rest).length - rest.length = 2 := by
      simp only [List.length_cons]
      omega
    rw [hlength]
    exact .of_warning (run_of_proceed hstep) (h.advance ['\\'.toUInt8, c] rfl rfl) rfl rfl
  | lineEnd line =>
    have hspelled := lineEnd_spelled line
    have hlength := congrArg List.length hspelled
    rw [List.length_append] at hlength
    rw [hlength, Nat.add_sub_cancel]
    rw [hspelled] at h line
    exact h.readsLineEnd hmode hdelimiter henclosing line
  | plain quote back line => exact h.readsPlain hmode hdelimiter quote back line

end Items

/-! ## Whole strings -/

/-- What a session that stands in a string does to come to where the items end, and what it answers
there, with the new warnings behind the ones recorded so far. -/
def AnswersString (s : Session) (o : OpenString) (stored : List UInt8) (literal : Literal) : Prop :=
  ∃ (t : Session) (new : List Warning),
    t.warnings.toList = s.warnings.toList ++ new ∧ new.map Warning.note = literal.notes ∧
    match literal.ending with
    | .closed =>
      s.run = (t, .done ⟨.string (stored.reverse ++ literal.text) none, ⟨o.opener.start, t.pos⟩⟩) ∧
        t.pos.offset = literal.stop + 1 ∧ t.mode = .code
    | .outOfRange escape => ∃ span : Span, span.start.offset = literal.stop ∧
      span.stop.offset = literal.stop + 4 ∧
      s.run = (t, .failed ((LexError.illegalEscape span (Latin1.decode escape)).withContext
        .insideString))
    | .missing => s.run = (t, .failed (.unterminatedString o.opener))

section Whole

variable {s : Session} {source rest bytes stored : List UInt8} {o : OpenString}

/-- An item before the others: its bytes join the text, its warning comes first. -/
theorem ReadsOn.answersString {placed : Placed} {literal : Literal}
    (h : s.ReadsOn source rest (.string o (placed.item.denotes.reverse ++ stored)) placed.notes)
    (hrest : ∀ t : Session, t.StandsBefore source rest →
      t.mode = .string o (placed.item.denotes.reverse ++ stored) →
      t.AnswersString o (placed.item.denotes.reverse ++ stored) literal) :
    s.AnswersString o stored (literal.prepend placed) := by
  obtain ⟨t, new, hrun, hstands, hmode, hwarnings, hnotes⟩ := h
  obtain ⟨u, more, hwarnings', hnotes', hanswer⟩ := hrest t hstands hmode
  refine ⟨u, new ++ more, ?_, ?_, ?_⟩
  · rw [hwarnings', hwarnings, List.append_assoc]
  · rw [List.map_append, hnotes, hnotes', Reader.Literal.notes_prepend]
  · have htext : stored.reverse ++ (literal.prepend placed).text =
        (placed.item.denotes.reverse ++ stored).reverse ++ literal.text := by simp
    rw [hrun, htext]
    exact hanswer

/-- The closing quote ends the string with its token. -/
theorem StandsBefore.run_closed (h : s.StandsBefore source ('"'.toUInt8 :: rest))
    (hmode : s.mode = .string o stored) (hdelimiter : o.delimiter = none)
    (henclosing : o.enclosing = none) :
    ∃ t : Session, s.run = (t, .done ⟨.string stored.reverse none, ⟨o.opener.start, t.pos⟩⟩) ∧
      t.warnings = s.warnings ∧ t.pos.offset = s.pos.offset + 1 ∧ t.mode = .code := by
  have hstep := h.step_string ['"'.toUInt8] hmode hdelimiter (StringRule.scan_doubleQuote rest)
  simp only [actString, closeString, henclosing, hdelimiter] at hstep
  exact ⟨_, run_of_emit hstep, rfl, rfl, rfl⟩

/-- A string that the source ends in has no end. -/
theorem StandsBefore.run_missing (h : s.StandsBefore source []) (hmode : s.mode = .string o stored)
    (hdelimiter : o.delimiter = none) (henclosing : o.enclosing = none) :
    ∃ t : Session, s.run = (t, .failed (.unterminatedString o.opener)) ∧
      t.warnings = s.warnings := by
  have hstep := h.step_string [] hmode hdelimiter rfl
  simp only [actString, unterminated, henclosing] at hstep
  exact ⟨_, run_of_fail hstep, rfl⟩

/-- Where no other item is next, the session answers. -/
theorem StandsBefore.answersEnding {ending : Ending} (h : s.StandsBefore source bytes)
    (hmode : s.mode = .string o stored) (hdelimiter : o.delimiter = none)
    (henclosing : o.enclosing = none) (hhead : head bytes = .ending ending) :
    s.AnswersString o stored ⟨[], ending, s.pos.offset⟩ := by
  cases Shape.of_head hhead with
  | empty =>
    obtain ⟨t, hrun, hwarnings⟩ := h.run_missing hmode hdelimiter henclosing
    exact ⟨t, [], by simp [hwarnings], rfl, hrun⟩
  | quote rest =>
    obtain ⟨t, hrun, hwarnings, hend⟩ := h.run_closed hmode hdelimiter henclosing
    refine ⟨t, [], by simp [hwarnings], rfl, ?_, hend⟩
    rw [hrun, Literal.text, List.flatMap_nil, List.append_nil]
  | @outOfRange tail next line found =>
    obtain ⟨lexeme, hsplit, hlength, hstep⟩ := h.step_escape hmode hdelimiter line found
    have hlexeme : ('\\'.toUInt8 :: tail).take 4 = lexeme := by
      rw [hsplit, ← hlength rfl, List.take_left]
    simp only [escaped, henclosing] at hstep
    rw [hlexeme]
    refine ⟨s.moveTo (s.pos.shifted lexeme.length), [], (List.append_nil _).symm, rfl,
      ⟨s.pos, s.pos.shifted lexeme.length⟩, rfl, ?_, run_of_fail hstep⟩
    rw [hlength rfl]
    rfl
  | lone =>
    -- the backslash is content, and the end of the input comes behind it
    have hstep := h.step_string ['\\'.toUInt8] hmode hdelimiter (StringRule.scan_backslash [])
    have hend : (s.actString o stored .plain ['\\'.toUInt8]).1.StandsBefore source [] :=
      h.advance ['\\'.toUInt8] rfl rfl
    obtain ⟨t, hrun, hwarnings⟩ := hend.run_missing rfl hdelimiter henclosing
    refine ⟨t, [], ?_, rfl, (run_of_proceed hstep).trans hrun⟩
    rw [hwarnings, List.append_nil]
    rfl

theorem StandsBefore.answersString (h : s.StandsBefore source bytes)
    (hmode : s.mode = .string o stored) (hdelimiter : o.delimiter = none)
    (henclosing : o.enclosing = none) :
    s.AnswersString o stored (readItems s.pos.offset bytes) := by
  generalize hoffset : s.pos.offset = offset
  fun_induction readItems offset bytes generalizing s stored with
  | case1 offset bytes ending hhead =>
    subst hoffset
    exact h.answersEnding hmode hdelimiter henclosing hhead
  | case2 offset bytes item rest hhead ih =>
    subst hoffset
    apply (h.readsItem hmode hdelimiter henclosing hhead).answersString
    intro t ht hmode'
    have hlength := h.offset_add
    have hlength' := ht.offset_add
    have hshorter := Reader.head_length hhead
    exact ih ht hmode' (by omega)

end Whole

end Session

/-! ## Strings in source code -/

theorem TokenRule.scan_stringOpen (rest : List UInt8) :
    TokenRule.scan ⟨['"'.toUInt8] ++ rest, true⟩ = .found .stringOpen 1 := by
  rw [TokenRule.scan_eq_munch]
  show munchFrom true (TokenRule.stringOpen, 1) 1
    [(.stringOpen, []), (.word .illegalByte, [])] rest = _
  exact munchFrom_exhausted rfl _ _ _

namespace Session

/-- Where source code meets a double quote, the session reads the string behind it. -/
theorem StandsBefore.reaches_string {s : Session} {source body : List UInt8}
    (h : s.StandsBefore source ('"'.toUInt8 :: body)) (hmode : s.mode = .code) :
    ∃ t, s.Reaches [] t ∧ t.warnings = s.warnings ∧
      t.AnswersString ⟨⟨s.pos, s.pos.shifted 1⟩, none, none⟩ []
        (readItems (s.pos.offset + 1) body) := by
  have hdecided := h.reaches_decided hmode (by decide)
  have hstep := h.decided.step_code ['"'.toUInt8] hmode rfl (TokenRule.scan_stringOpen body)
  refine ⟨_, hdecided.trans (.proceed hstep (.here _)), rfl, ?_⟩
  exact StandsBefore.answersString (h.decided.advance ['"'.toUInt8] rfl rfl) rfl rfl rfl

end Session

/-- What lexing makes of a string whose opening quote it meets at `t`, after the tokens `before`. -/
def LexesString (source : List UInt8) (config : Config) (before : List Token) (t : Session)
    (literal : Literal) : Prop :=
  ∃ new : List Warning, new.map Warning.note = literal.notes ∧
    match literal.ending with
    | .closed => ∃ u : Session,
      let token : Token := ⟨.string literal.text none, ⟨t.pos, u.pos⟩⟩
      (Session.ofSource config source).Reaches (before ++ [token]) u ∧
        u.pos.offset = literal.stop + 1 ∧ u.mode = .code ∧
        u.warnings.toList = t.warnings.toList ++ new ∧
        before ++ [token] <+: (lex source config).tokens ∧
        t.warnings.toList ++ new <+: (lex source config).warnings
    | .outOfRange escape => ∃ span : Span, span.start.offset = literal.stop ∧
      span.stop.offset = literal.stop + 4 ∧
      lex source config = ⟨before, t.warnings.toList ++ new,
        some ((LexError.illegalEscape span (Latin1.decode escape)).withContext .insideString)⟩
    | .missing => lex source config = ⟨before, t.warnings.toList ++ new,
        some (.unterminatedString ⟨t.pos, t.pos.shifted 1⟩)⟩

/-- Where source code meets a double quote, lexing gives the string that the items behind the quote
denote, with their warnings, or fails where they do not come to a closing quote. -/
theorem string_decodes {source body : List UInt8} {config : Config} {before : List Token}
    {t : Session} (hreach : (Session.ofSource config source).Reaches before t)
    (hmode : t.mode = .code) (hquote : source.drop t.pos.offset = '"'.toUInt8 :: body) :
    LexesString source config before t (readItems (t.pos.offset + 1) body) := by
  obtain ⟨later, hstands⟩ := hreach.standsBefore (Session.standsBefore_ofSource config source)
  rw [← hstands.drop_eq, hquote] at hstands
  obtain ⟨r, hopen, hsame, u, new, hwarnings, hnotes, hanswer⟩ := hstands.reaches_string hmode
  have hinside := hreach.trans hopen
  rw [List.append_nil] at hinside
  have hlex := hinside.output_eq
  rw [Session.output_ofSource] at hlex
  rw [hsame] at hwarnings
  refine ⟨new, hnotes, ?_⟩
  cases hending : (readItems (t.pos.offset + 1) body).ending with
  | closed =>
    rw [hending] at hanswer
    obtain ⟨hrun, hstop, hmode'⟩ := hanswer
    have hthrough := hinside.trans (.of_run hrun rfl)
    have houtput := hthrough.output_eq
    rw [Session.output_ofSource] at houtput
    refine ⟨u, hthrough, hstop, hmode', hwarnings, ?_, ?_⟩
    · rw [houtput]
      exact List.prefix_append _ _
    · rw [houtput, ← hwarnings]
      exact u.warnings_prefix_output
  | outOfRange escape =>
    rw [hending] at hanswer
    obtain ⟨span, hstart, hstop, hrun⟩ := hanswer
    refine ⟨span, hstart, hstop, ?_⟩
    rw [hlex, Session.output_of_run_failed hrun, hwarnings, List.append_nil]
  | missing =>
    rw [hending] at hanswer
    show lex source config = _
    rw [hlex, Session.output_of_run_failed hanswer, hwarnings, List.append_nil]

/-- A blank before a string with all sorts of items. -/
theorem string_decodes_blank :
    let source := " \"a\\q\\\r\n \\065\\x42\\nc\r\n\"".toList.map Char.toUInt8
    let s := Session.ofSource {} source
    let t : Session := { s with pos := s.pos.shifted 1, headerPending := false }
    s.Reaches [] t ∧ t.mode = .code ∧ source.drop t.pos.offset = '"'.toUInt8 :: source.drop 2 ∧
      (readItems 2 (source.drop 2)).ending = .closed ∧
      LexesString source {} [] t (readItems 2 (source.drop 2)) := by
  intro source s t
  have hreach : s.Reaches [] t :=
    .proceed (t := { s with headerPending := false }) rfl (.proceed rfl (.here _))
  have hclosed : (readItems 2 (source.drop 2)).ending = .closed := by decide +kernel
  exact ⟨hreach, rfl, rfl, hclosed, string_decodes hreach rfl rfl⟩

end StreamLexer
