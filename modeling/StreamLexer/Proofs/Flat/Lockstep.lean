import StreamLexer.Proofs.Flat.Session
import StreamLexer.Proofs.Session.Commit

/-!
# Flat and structured sessions in lockstep

`Session.flatten` spreads the mode of a session over flat state. A step of the flat session is then
the step of the session, checked: no check fails and no field is missed, unless quotations are
nested beyond 32 bits. `Session.step_flatten` is the main statement. The flat step gives the error
for a string inside a comment as it is before it is attributed to the comment, `LexError.raw`.
-/
namespace StreamLexer

/-! ## Flat state -/

namespace OpenComment

/-- The openers of the open comments, outermost first. -/
def openers (c : OpenComment) : List Span :=
  c.outer :: c.inner.reverse

/-- A comment opens inside the others. -/
theorem openers_nested (outer span : Span) (inner : List Span) :
    openers ⟨outer, span :: inner⟩ = openers ⟨outer, inner⟩ ++ [span] := by
  simp [openers]

theorem length_openers (c : OpenComment) : c.openers.length = c.depth := by
  simp [openers, depth]

end OpenComment

namespace Mode

/-- The names of the open constructs, outermost first. -/
def stack : Mode → List Construct
  | .code => []
  | .comment _ _ => [.comment]
  | .string ⟨_, none, none⟩ _ => [.string]
  | .string ⟨_, some _, none⟩ _ => [.quotedString]
  | .string ⟨_, none, some _⟩ _ => [.comment, .string]
  | .string ⟨_, some _, some _⟩ _ => [.comment, .quotedString]
  | .quotation _ => [.quotation]

/-- The fields of the open constructs; those of no open construct are empty. -/
def scratch : Mode → Scratch
  | .code => {}
  | .comment c text =>
    { buffer := text.reverse, start := some c.outer.start, commentStarts := c.openers }
  | .string ⟨opener, delimiter, none⟩ text =>
    { buffer := text.reverse
      start := some opener.start
      stringStart := some opener
      delimiter := delimiter.getD [] }
  | .string ⟨opener, delimiter, some c⟩ text =>
    { buffer := text.reverse
      start := some c.outer.start
      stringStart := some opener
      delimiter := delimiter.getD []
      commentStarts := c.openers }
  | .quotation q =>
    { start := some q.outer.start
      quotationStart := some q.outer
      quotationDepth := q.inner + 1 }

theorem top_string (o : OpenString) (text : List UInt8) :
    (string o text).stack.getLast? =
      some (if o.delimiter.isSome then .quotedString else .string) := by
  obtain ⟨opener, delimiter, enclosing⟩ := o
  cases enclosing with
  | none => cases delimiter <;> rfl
  | some c => cases delimiter <;> rfl

theorem delimiter_string (o : OpenString) (text : List UInt8) :
    (string o text).scratch.delimiter = o.delimiter.getD [] := by
  obtain ⟨opener, delimiter, enclosing⟩ := o
  cases enclosing with
  | none => rfl
  | some c => rfl

end Mode

/-- The error before it is attributed to a comment. -/
def LexError.raw (e : LexError) : LexError :=
  match e.fault with
  | .unterminatedStringInComment opener => .unterminatedString opener
  | _ => e

/-- The outcome with its error before it is attributed to a comment. -/
def Step.raw : Step → Step
  | .fail e => .fail e.raw
  | .proceed => .proceed
  | .emit token => .emit token
  | .starved => .starved

namespace Session

/-- The session with flat state. -/
def flatten (s : Session) : FlatSession :=
  { window := s.window
    pos := s.pos
    stack := s.mode.stack
    scratch := s.mode.scratch
    keywords := s.keywords
    headerPending := s.headerPending
    warnings := s.warnings
    failure := s.failure }

/-- A step with flat state. -/
def flattened (r : Session × Step) : FlatSession × Step :=
  (r.1.flatten, r.2.raw)

/-! ## Actions -/

section Actions

variable {s : Session} {strict : Bool} {lexeme : List UInt8}

theorem pastWord?_flatten (s : Session) {rule : WordRule} {n : Nat}
    (h : rule = .charNewline → 1 ≤ n) :
    (s.flatten.advance n).pastWord? rule =
      some (s.moveTo (wordStop rule (s.pos.shifted n))).flatten := by
  by_cases hnewline : rule = .charNewline
  · rw [FlatSession.pastWord?, if_pos hnewline, FlatSession.offsetBefore?_advance _ (h hnewline),
      wordStop, if_pos hnewline]
    rfl
  · rw [FlatSession.pastWord?, if_neg hnewline, wordStop, if_neg hnewline]
    rfl

theorem actWord_flatten (s : Session) {rule : WordRule}
    (h : firstAccepting? TokenRule.rows lexeme = some (.word rule)) :
    s.flatten.actCode (.word rule) lexeme =
      some (flattened (s.actCode (.word rule) lexeme)) := by
  have hlength : rule = .charNewline → 1 ≤ lexeme.length := by
    rintro rfl
    exact le_length_of_first (by rfl) h
  have hpast := pastWord?_flatten s hlength
  have hread : rule.read? (s.moveTo (wordStop rule (s.pos.shifted lexeme.length))).flatten.keywords
      lexeme = some (rule.read s.keywords lexeme) := WordRule.read?_eq h s.keywords
  simp only [FlatSession.actCode, hpast, Option.bind_eq_bind, Option.bind_some, hread, actCode]
  cases rule.read s.keywords lexeme with
  | ok kind => rfl
  | error fault => cases fault <;> rfl

theorem actCode_flatten (hmode : s.mode = .code) {rule : TokenRule}
    (h : rule ≠ .endOfInput → firstAccepting? TokenRule.rows lexeme = some rule) :
    s.flatten.actCode rule lexeme = some (flattened (s.actCode rule lexeme)) := by
  obtain ⟨window, pos, mode, keywords, headerPending, warnings, failure⟩ := s
  obtain rfl : mode = .code := hmode
  cases rule with
  | quotedOpen =>
    have hlength : 2 ≤ lexeme.length := le_length_of_first (by rfl) (h (by simp))
    simp only [FlatSession.actCode, Lexeme.inner?_eq hlength]
    rfl
  | strayClose =>
    obtain rfl : lexeme = ['*'.toUInt8, ')'.toUInt8] := eq_of_literal ['*', ')'] rfl (h (by simp))
    rfl
  | word rule => exact actWord_flatten _ (h (by simp))
  | _ => rfl

theorem actHeader_flatten (rule : HeaderRule) :
    s.flatten.actHeader rule lexeme = some (flattened (s.actHeader rule lexeme.length)) := by
  cases rule <;> rfl

/-- Bytes join the text of a comment. -/
theorem storeComment_flatten {c : OpenComment} {text : List UInt8}
    (hmode : s.mode = .comment c text) (bytes : List UInt8) :
    some (s.flatten.store bytes, Step.proceed) =
      some (flattened (s.goOn (.comment c (bytes.reverse ++ text)))) := by
  obtain ⟨window, pos, mode, keywords, headerPending, warnings, failure⟩ := s
  obtain rfl : mode = .comment c text := hmode
  simp only [goOn, flattened, flatten, Mode.scratch, List.reverse_append, List.reverse_reverse]
  rfl

theorem actComment_flatten {c : OpenComment} {text : List UInt8} (hmode : s.mode = .comment c text)
    {rule : CommentRule}
    (h : rule ≠ .endOfInput → rule ≠ .plain →
      firstAccepting? CommentRule.rows lexeme = some rule) :
    s.flatten.actComment strict rule lexeme =
      some (flattened (s.actComment c text rule lexeme)) := by
  have hmoved : ∀ pos, (s.moveTo pos).mode = .comment c text := fun _ => hmode
  obtain ⟨window, pos, mode, keywords, headerPending, warnings, failure⟩ := s
  obtain rfl : mode = .comment c text := hmode
  cases rule with
  | nestedOpen =>
    simp only [actComment, goOn, flattened, flatten, Mode.scratch, OpenComment.openers_nested,
      List.reverse_append, List.reverse_reverse]
    rfl
  | close =>
    obtain ⟨outer, inner⟩ := c
    cases inner with
    | nil => rfl
    | cons span inner =>
      -- the innermost opener is the last one
      have hnested : 1 < (OpenComment.openers ⟨outer, inner⟩ ++ [span]).length := by
        simp [OpenComment.openers]
      simp only [FlatSession.actComment, FlatSession.advance, flatten, Mode.scratch,
        OpenComment.openers_nested, if_pos hnested, List.dropLast_concat]
      have hinner : (Session.mk window (pos.shifted lexeme.length) (.comment ⟨outer, inner⟩ text)
          keywords headerPending warnings failure).mode = .comment ⟨outer, inner⟩ text := rfl
      exact storeComment_flatten hinner lexeme
  | stringOpen =>
    obtain rfl : lexeme = ['"'.toUInt8] := eq_of_literal ['"'] rfl (h (by simp) (by simp))
    simp only [actComment, goOn, flattened, flatten, Mode.scratch, List.reverse_append,
      List.reverse_reverse]
    rfl
  | quotedOpen =>
    have hlength : 2 ≤ lexeme.length := le_length_of_first (by rfl) (h (by simp) (by simp))
    simp only [FlatSession.actComment, Lexeme.inner?_eq hlength]
    simp only [actComment, goOn, flattened, flatten, Mode.scratch, List.reverse_append,
      List.reverse_reverse]
    rfl
  | char => exact storeComment_flatten (hmoved _) lexeme
  | charNewline =>
    have hlength : 1 ≤ lexeme.length := le_length_of_first (by rfl) (h (by simp) (by simp))
    simp only [FlatSession.actComment, FlatSession.offsetBefore?_advance _ hlength]
    exact storeComment_flatten (hmoved (lineEndedInChar (pos.shifted lexeme.length))) lexeme
  | newline => exact storeComment_flatten (hmoved (lineEnded (pos.shifted lexeme.length))) lexeme
  | plain => exact storeComment_flatten (hmoved _) lexeme
  | endOfInput =>
    have hdepth := OpenComment.length_openers c
    simp only [actComment, flattened, ← hdepth]
    rfl

theorem closeString_flatten {o : OpenString} {text : List UInt8} (hmode : s.mode = .string o text)
    (terminator : List UInt8) :
    s.flatten.closeString strict terminator =
      some (flattened (s.closeString o text terminator)) := by
  obtain ⟨window, pos, mode, keywords, headerPending, warnings, failure⟩ := s
  obtain rfl : mode = .string o text := hmode
  obtain ⟨opener, delimiter, enclosing⟩ := o
  cases enclosing with
  | none =>
    cases delimiter with
    | none =>
      simp only [closeString, endConstruct, flattened, flatten]
      rfl
    | some id =>
      simp only [closeString, endConstruct, flattened, flatten]
      rfl
  | some c =>
    -- back in the comment
    simp only [closeString, goOn, flattened, flatten, Mode.scratch, List.reverse_append,
      List.reverse_reverse]
    cases delimiter with
    | none => rfl
    | some id => rfl

theorem unterminatedString_flatten {o : OpenString} {text : List UInt8}
    (hmode : s.mode = .string o text) (span : Span) :
    s.flatten.unterminatedString strict span = some (flattened (s, .fail (unterminated o))) := by
  obtain ⟨window, pos, mode, keywords, headerPending, warnings, failure⟩ := s
  obtain rfl : mode = .string o text := hmode
  obtain ⟨opener, delimiter, enclosing⟩ := o
  cases enclosing with
  | none => rfl
  | some c => rfl

/-- Bytes join the text of a string. -/
theorem storeString_flatten {o : OpenString} {text : List UInt8} (hmode : s.mode = .string o text)
    (bytes : List UInt8) :
    some (s.flatten.store bytes, Step.proceed) =
      some (flattened (s.goOn (.string o (bytes.reverse ++ text)))) := by
  obtain ⟨window, pos, mode, keywords, headerPending, warnings, failure⟩ := s
  obtain rfl : mode = .string o text := hmode
  obtain ⟨opener, delimiter, enclosing⟩ := o
  cases enclosing with
  | none =>
    simp only [goOn, flattened, flatten, Mode.scratch, List.reverse_append, List.reverse_reverse]
    cases delimiter <;> rfl
  | some c =>
    simp only [goOn, flattened, flatten, Mode.scratch, List.reverse_append, List.reverse_reverse]
    cases delimiter <;> rfl

theorem inComment_flatten {o : OpenString} {text : List UInt8} (hmode : s.mode = .string o text) :
    s.flatten.inComment = o.enclosing.isSome := by
  obtain ⟨window, pos, mode, keywords, headerPending, warnings, failure⟩ := s
  obtain rfl : mode = .string o text := hmode
  obtain ⟨opener, delimiter, enclosing⟩ := o
  cases enclosing with
  | none => rfl
  | some c => rfl

theorem actString_flatten {o : OpenString} {text : List UInt8} (hmode : s.mode = .string o text)
    {rule : StringRule}
    (h : rule ≠ .endOfInput → rule ≠ .plain →
      firstAccepting? StringRule.rows lexeme = some rule) :
    s.flatten.actString strict rule lexeme =
      some (flattened (s.actString o text rule lexeme)) := by
  have hmoved : ∀ pos, (s.moveTo pos).mode = .string o text := fun _ => hmode
  have hinside : (s.flatten.advance lexeme.length).inComment = o.enclosing.isSome :=
    inComment_flatten (hmoved (s.pos.shifted lexeme.length))
  cases rule with
  | close =>
    obtain rfl : lexeme = ['"'.toUInt8] := eq_of_literal ['"'] rfl (h (by simp) (by simp))
    exact closeString_flatten (hmoved _) _
  | lineContinuation =>
    have hfound := StringRule.findIdx?_lineContinuation (h (by simp) (by simp))
    simp only [FlatSession.actString, hfound, actString, goOn, ← hmode]
    rfl
  | namedEscape =>
    have hlength : 2 ≤ lexeme.length := le_length_of_first (by rfl) (h (by simp) (by simp))
    rcases lexeme with _ | ⟨back, _ | ⟨letter, rest⟩⟩
    · simp at hlength
    · simp at hlength
    · exact storeString_flatten (hmoved _) [ByteEscape.named letter]
  | decimalEscape =>
    obtain ⟨p, hp, haccepts⟩ := exists_patternsOf (h (by simp) (by simp))
    obtain rfl : p = Pattern.decimalEscape := List.mem_singleton.mp hp
    obtain ⟨b, d₁, d₂, d₃, hd₁, hd₂, hd₃, rfl⟩ := Pattern.accepts_decimalEscape haccepts
    have hdigits : Lexeme.digits? Byte.isDecimal [b, d₁, d₂, d₃] 1 4 = some [d₁, d₂, d₃] := by
      simp [Lexeme.digits?, Lexeme.between?, hd₁, hd₂, hd₃]
    simp only [FlatSession.actString, hdigits, Option.bind_eq_bind, Option.bind_some, actString,
      List.drop_succ_cons, List.drop_zero]
    cases ByteEscape.decimal? [d₁, d₂, d₃] with
    | some byte => exact storeString_flatten (hmoved _) [byte]
    | none =>
      simp only [hinside]
      by_cases henclosed : o.enclosing.isSome = true
      · simp only [if_pos henclosed]
        exact storeString_flatten (hmoved _) ['x'.toUInt8]
      · simp only [if_neg henclosed]
        rfl
  | hexEscape =>
    obtain ⟨p, hp, haccepts⟩ := exists_patternsOf (h (by simp) (by simp))
    obtain rfl : p = Pattern.hexEscape := List.mem_singleton.mp hp
    obtain ⟨b, x, d₁, d₂, hd₁, hd₂, rfl⟩ := Pattern.accepts_hexEscape haccepts
    have hdigits : Lexeme.digits? Byte.isHex [b, x, d₁, d₂] 2 4 = some [d₁, d₂] := by
      simp [Lexeme.digits?, Lexeme.between?, hd₁, hd₂]
    simp only [FlatSession.actString, hdigits, Option.bind_eq_bind, Option.bind_some]
    exact storeString_flatten (hmoved _) [ByteEscape.hex [d₁, d₂]]
  | unknownEscape =>
    have hwarned : ((s.moveTo (s.pos.shifted lexeme.length)).warn .illegalBackslash
        ⟨s.pos, s.pos.shifted lexeme.length⟩).mode = .string o text := hmode
    exact storeString_flatten hwarned lexeme
  | newline =>
    simp only [FlatSession.actString, hinside, actString]
    by_cases henclosed : o.enclosing.isSome = true
    · simp only [if_pos henclosed]
      exact storeString_flatten (hmoved (lineEnded (s.pos.shifted lexeme.length))) lexeme
    · simp only [if_neg henclosed]
      have hended : ((s.warn .eolInString ⟨s.pos, s.pos.shifted lexeme.length⟩).moveTo
          (lineEnded (s.pos.shifted lexeme.length))).mode = .string o text := hmode
      exact storeString_flatten hended lexeme
  | plain => exact storeString_flatten (hmoved _) lexeme
  | endOfInput => exact unterminatedString_flatten (hmoved _) _

theorem actQuoted_flatten {o : OpenString} {id text : List UInt8}
    (hmode : s.mode = .string o text) (hid : o.delimiter = some id) {rule : QuotedRule}
    (h : rule ≠ .endOfInput → rule ≠ .plain →
      firstAccepting? QuotedRule.rows lexeme = some rule) :
    s.flatten.actQuoted strict rule lexeme =
      some (flattened (s.actQuoted o id text rule lexeme)) := by
  have hmoved : ∀ pos, (s.moveTo pos).mode = .string o text := fun _ => hmode
  cases rule with
  | terminator =>
    have hlength : 2 ≤ lexeme.length := le_length_of_first (by rfl) (h (by simp) (by simp))
    have hdelimiter : (s.flatten.advance lexeme.length).scratch.delimiter = id := by
      simp [FlatSession.advance, flatten, hmode, Mode.delimiter_string, hid]
    simp only [FlatSession.actQuoted, Lexeme.inner?_eq hlength, Option.bind_eq_bind,
      Option.bind_some, hdelimiter, actQuoted]
    by_cases hends : Lexeme.inner lexeme = id
    · simp only [if_pos hends]
      exact closeString_flatten (hmoved _) lexeme
    · simp only [if_neg hends]
      exact storeString_flatten (hmoved _) lexeme
  | newline =>
    exact storeString_flatten (hmoved (lineEnded (s.pos.shifted lexeme.length))) lexeme
  | plain => exact storeString_flatten (hmoved _) lexeme
  | endOfInput => exact unterminatedString_flatten (hmoved _) _

theorem actQuotation_flatten {q : OpenQuotation} (hmode : s.mode = .quotation q)
    {rule : QuotationRule} (hdepth : rule = .nestedOpen → q.inner + 2 < 2 ^ 32) :
    s.flatten.actQuotation strict rule lexeme =
      some (flattened (s.actQuotation q rule lexeme.length)) := by
  obtain ⟨window, pos, mode, keywords, headerPending, warnings, failure⟩ := s
  obtain rfl : mode = .quotation q := hmode
  cases rule with
  | nestedOpen =>
    show (if q.inner + 1 + 1 < 2 ^ 32 then _ else none) = _
    exact if_pos (hdepth rfl)
  | close =>
    obtain ⟨outer, inner⟩ := q
    cases inner with
    | zero => rfl
    | succ inner => rfl
  | newline => rfl
  | plain => rfl
  | endOfInput => rfl

end Actions

/-! ## The step -/

section Steps

variable {s : Session} {strict : Bool}

/-- A lexeme that a scan finds is held. -/
theorem InWindow.slice? (h : s.InWindow) {n : Nat} (hn : n ≤ s.lookahead.bytes.length) :
    s.window.slice? s.pos.offset (s.pos.offset + n) = some (s.lookahead.bytes.take n) := by
  have hlength := h.length_lookahead
  have hbase := h.base_le
  rw [Window.slice?, if_pos (by omega), ← Window.take_lookahead]
  rfl

theorem onLexeme_flatten {ρ : Type} (h : s.InWindow) {scan : Lookahead → Verdict ρ}
    (hsettles : Settles scan) {act : ρ → Nat → Session × Step}
    {checked : ρ → List UInt8 → Option (FlatSession × Step)}
    (hact : ∀ rule n, scan s.lookahead = .found rule n → n ≤ s.lookahead.bytes.length →
      checked rule (s.lookahead.bytes.take n) = some (flattened (act rule n))) :
    s.flatten.onLexeme scan checked = some (flattened (s.onFound (scan s.lookahead) act)) := by
  have hview : s.flatten.window.lookahead? s.flatten.pos.offset = some s.lookahead :=
    if_pos h.base_le
  simp only [FlatSession.onLexeme, hview, Option.bind_eq_bind, Option.bind_some]
  cases hscan : scan s.lookahead with
  | undecided => rfl
  | found rule n =>
    have hn := hsettles.within _ rule n hscan
    have hlexeme : s.flatten.window.slice? s.flatten.pos.offset (s.flatten.pos.offset + n) =
        some (s.lookahead.bytes.take n) := h.slice? hn
    simp only [hlexeme, Option.bind_some]
    exact hact rule n hscan hn

/-- The step of a session with flat state is that of the session, unless quotations are nested too
deep. -/
theorem step_flatten (h : s.InWindow) (hdepth : ¬ s.flatten.NestsTooDeep) (strict : Bool) :
    s.flatten.step strict = some (flattened s.step) := by
  cases hmode : s.mode with
  | code =>
    have hstack : s.flatten.stack.getLast? = none := by simp [flatten, hmode, Mode.stack]
    simp only [FlatSession.step, hstack, step, stepOn, hmode]
    by_cases hpending : s.headerPending = true
    · have hpending' : s.flatten.headerPending = true := hpending
      simp only [hpending, hpending', if_true]
      refine onLexeme_flatten h HeaderRule.settles fun rule n _ hn => ?_
      have haction := @actHeader_flatten s (s.lookahead.bytes.take n) rule
      rwa [List.length_take_of_le hn] at haction
    · have hpending' : ¬ s.flatten.headerPending = true := hpending
      simp only [if_neg hpending, if_neg hpending']
      exact onLexeme_flatten h TokenRule.settles fun rule n hscan _ =>
        actCode_flatten hmode (TokenRule.scan_row hscan)
  | comment c text =>
    have hstack : s.flatten.stack.getLast? = some .comment := by simp [flatten, hmode, Mode.stack]
    simp only [FlatSession.step, hstack, step, stepOn, hmode]
    exact onLexeme_flatten h CommentRule.settles fun rule n hscan _ =>
      actComment_flatten hmode (row_of_body CommentRule.scan_eq_bodyScan hscan)
  | string o text =>
    cases hdelimiter : o.delimiter with
    | none =>
      have hstack : s.flatten.stack.getLast? = some .string := by
        simp [flatten, hmode, Mode.top_string, hdelimiter]
      simp only [FlatSession.step, hstack, step, stepOn, hmode, hdelimiter]
      exact onLexeme_flatten h StringRule.settles fun rule n hscan _ =>
        actString_flatten hmode (row_of_body StringRule.scan_eq_bodyScan hscan)
    | some id =>
      have hstack : s.flatten.stack.getLast? = some .quotedString := by
        simp [flatten, hmode, Mode.top_string, hdelimiter]
      simp only [FlatSession.step, hstack, step, stepOn, hmode, hdelimiter]
      exact onLexeme_flatten h QuotedRule.settles fun rule n hscan _ =>
        actQuoted_flatten hmode hdelimiter (row_of_body QuotedRule.scan_eq_bodyScan hscan)
  | quotation q =>
    have hstack : s.flatten.stack.getLast? = some .quotation := by
      simp [flatten, hmode, Mode.stack]
    simp only [FlatSession.step, hstack, step, stepOn, hmode]
    refine onLexeme_flatten h QuotationRule.settles fun rule n hscan hn => ?_
    have hinner : rule = .nestedOpen → q.inner + 2 < 2 ^ 32 := by
      rintro rfl
      by_contra hdeep
      refine hdepth ⟨?_, ?_, n, hscan⟩
      · simp [flatten, hmode, Mode.stack]
      · simp only [flatten, hmode, Mode.scratch]
        omega
    have haction := @actQuotation_flatten s strict (s.lookahead.bytes.take n) q hmode rule hinner
    rwa [List.length_take_of_le hn] at haction

/-- Beyond that depth a step gives none. -/
theorem step_flatten_deep (h : s.InWindow) (hdepth : s.flatten.NestsTooDeep) (strict : Bool) :
    s.flatten.step strict = none := by
  obtain ⟨hstack, hdeep, n, hscan⟩ := hdepth
  have hview : s.flatten.window.lookahead? s.flatten.pos.offset = some s.lookahead :=
    if_pos h.base_le
  have hopen : QuotationRule.scan s.lookahead = .found .nestedOpen n := hscan
  have hlexeme : s.flatten.window.slice? s.flatten.pos.offset (s.flatten.pos.offset + n) =
      some (s.lookahead.bytes.take n) :=
    h.slice? (QuotationRule.settles.within _ _ n hopen)
  have hbound : ¬ s.flatten.scratch.quotationDepth + 1 < 2 ^ 32 := by omega
  simp only [FlatSession.step, hstack, List.getLast?_singleton, FlatSession.onLexeme, hview,
    Option.bind_eq_bind, Option.bind_some, hopen, hlexeme]
  show (if s.flatten.scratch.quotationDepth + 1 < 2 ^ 32 then _ else none) = none
  exact if_neg hbound

end Steps

end Session

end StreamLexer
