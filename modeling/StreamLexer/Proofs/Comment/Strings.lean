import StreamLexer.Proofs.Comment.Content

/-!
# Strings in comments

A session that stands in a string inside a comment ends it where the reader does:
`StandsBefore.string` for strings between double quotes, `StandsBefore.quotedString` for those with
a delimiter. Both are inductions along the reader.
-/
namespace StreamLexer

open Reader (afterLineEnd? escape? readString readQuoted prepend)

/-! ## Bytes of escapes -/

theorem digitValue_decimal {b : UInt8} (h : Byte.isDecimal b = true) :
    Numeral.digitValue b = b.toNat - 48 ∧ (b != '_'.toUInt8) = true := by
  have hb := Byte.forall_of_range (p := fun b =>
    !Byte.isDecimal b || Numeral.digitValue b == b.toNat - 48 && b != '_'.toUInt8)
    (by decide +kernel) b
  simpa [h] using hb

theorem digitValue_hex {b : UInt8} (h : Byte.isHex b = true) :
    Numeral.digitValue b = Reader.hexValue b ∧ (b != '_'.toUInt8) = true := by
  have hb := Byte.forall_of_range (p := fun b =>
    !Byte.isHex b || Numeral.digitValue b == Reader.hexValue b && b != '_'.toUInt8)
    (by decide +kernel) b
  simpa [h] using hb

theorem decimal?_eq {d₁ d₂ d₃ : UInt8} (h₁ : Byte.isDecimal d₁ = true)
    (h₂ : Byte.isDecimal d₂ = true) (h₃ : Byte.isDecimal d₃ = true) :
    ByteEscape.decimal? [d₁, d₂, d₃] = Reader.decimalByte? d₁ d₂ d₃ := by
  obtain ⟨hv₁, hu₁⟩ := digitValue_decimal h₁
  obtain ⟨hv₂, hu₂⟩ := digitValue_decimal h₂
  obtain ⟨hv₃, hu₃⟩ := digitValue_decimal h₃
  have hvalue : Numeral.value 10 [d₁, d₂, d₃] =
      100 * (d₁.toNat - 48) + 10 * (d₂.toNat - 48) + (d₃.toNat - 48) := by
    simp only [Numeral.value, Numeral.stripUnderscores, List.filter_cons, hu₁, hu₂, hu₃, if_true,
      List.filter_nil, List.foldl_cons, List.foldl_nil, hv₁, hv₂, hv₃]
    omega
  simp only [ByteEscape.decimal?, Reader.decimalByte?, hvalue, Nat.lt_succ_iff]

theorem hex_eq {d₁ d₂ : UInt8} (h₁ : Byte.isHex d₁ = true) (h₂ : Byte.isHex d₂ = true) :
    ByteEscape.hex [d₁, d₂] = Reader.hexByte d₁ d₂ := by
  obtain ⟨hv₁, hu₁⟩ := digitValue_hex h₁
  obtain ⟨hv₂, hu₂⟩ := digitValue_hex h₂
  have hvalue : Numeral.value 16 [d₁, d₂] = 16 * Reader.hexValue d₁ + Reader.hexValue d₂ := by
    simp only [Numeral.value, Numeral.stripUnderscores, List.filter_cons, hu₁, hu₂, if_true,
      List.filter_nil, List.foldl_cons, List.foldl_nil, hv₁, hv₂]
    omega
  rw [ByteEscape.hex, hvalue]
  rfl

namespace Session

section Strings

variable {s : Session} {source bytes : List UInt8} {o : OpenString} {c : OpenComment}

/-- A session in a string of a comment does what the reader of the string says: it goes back to the
comment, with the text and the terminator in it, or fails. -/
def EndsString (s : Session) (source : List UInt8) (o : OpenString) (c : OpenComment)
    (stored terminator : List UInt8) : Option (List UInt8 × List UInt8) → Prop
  | some (text, rest) =>
    s.ReadsTo source rest (.comment c (terminator.reverse ++ (text.reverse ++ stored)))
  | none => s.run.2 = .failed (.unterminatedStringInComment c.outer o.opener c.depth)

theorem EndsString.of_readsTo {stored stored' terminator rest : List UInt8}
    {read : Option (List UInt8 × List UInt8)} (h : s.ReadsTo source rest (.string o stored'))
    (hread : ∀ t : Session, t.StandsBefore source rest → t.mode = .string o stored' →
      t.EndsString source o c stored terminator read) :
    s.EndsString source o c stored terminator read := by
  obtain ⟨t, hrun, hstands, hmode⟩ := h
  have ht := hread t hstands hmode
  cases read with
  | none =>
    show s.run.2 = _
    rw [hrun]
    exact ht
  | some found =>
    obtain ⟨u, hrun', hstands', hmode'⟩ := ht
    exact ⟨u, hrun.trans hrun', hstands', hmode'⟩

/-- Bytes that join the text come before what is read after them. -/
theorem EndsString.joined {stored terminator : List UInt8} (joined : List UInt8)
    {read : Option (List UInt8 × List UInt8)}
    (h : s.EndsString source o c (joined.reverse ++ stored) terminator read) :
    s.EndsString source o c stored terminator (prepend joined read) := by
  cases read with
  | none => exact h
  | some found =>
    obtain ⟨t, hrun, hstands, hmode⟩ := h
    refine ⟨t, hrun, hstands, ?_⟩
    rw [hmode]
    simp

theorem unterminated_of_enclosing (henclosing : o.enclosing = some c) :
    unterminated o = .unterminatedStringInComment c.outer o.opener c.depth := by
  simp [unterminated, henclosing]

theorem isPlain_string {stored : List UInt8} (hdelimiter : o.delimiter = none) {b : UInt8}
    (hquote : (b == '"'.toUInt8) = false) (hback : (b == '\\'.toUInt8) = false) :
    Mode.isPlain (.string o stored) b = true ∨ Byte.isLineEnd b = true := by
  by_cases hline : Byte.isLineEnd b = true
  · exact .inr hline
  · refine .inl ?_
    obtain ⟨hreturn, hnewline⟩ : b ≠ '\r'.toUInt8 ∧ b ≠ '\n'.toUInt8 := by
      simpa [Byte.isLineEnd, Byte.isAny] using hline
    simp [Mode.isPlain, hdelimiter, Byte.isStringStop, Byte.isAny, hreturn, hnewline,
      beq_eq_false_iff_ne.mp hquote, beq_eq_false_iff_ne.mp hback]

theorem lineContinuation_suffix {rest next : List UInt8} (h : afterLineEnd? rest = some next) :
    next.dropWhile (Byte.isAny [' ', '\t']) <:+ '\\'.toUInt8 :: rest :=
  ((List.dropWhile_suffix _).trans (afterLineEnd?_suffix h)).trans (List.suffix_cons _ _)

theorem StandsBefore.step_lineContinuation {rest next stored : List UInt8}
    (h : s.StandsBefore source ('\\'.toUInt8 :: rest)) (hmode : s.mode = .string o stored)
    (hdelimiter : o.delimiter = none) (hline : afterLineEnd? rest = some next) :
    ∃ lexeme, '\\'.toUInt8 :: rest = lexeme ++ next.dropWhile (Byte.isAny [' ', '\t']) ∧
      s.step = s.actString o stored .lineContinuation lexeme := by
  obtain ⟨lexeme, hlexeme⟩ := lineContinuation_suffix hline
  have hscan : StringRule.scan ⟨lexeme ++ next.dropWhile (Byte.isAny [' ', '\t']), true⟩ =
      .found .lineContinuation lexeme.length := by
    rw [hlexeme, StringRule.scan_backslash, hline, ← hlexeme]
    simp
  refine ⟨lexeme, hlexeme.symm, ?_⟩
  rw [← hlexeme] at h
  exact h.step_string lexeme hmode hdelimiter hscan

/-- A line continuation leaves nothing in the text. -/
theorem StandsBefore.lineContinuation {rest next stored : List UInt8}
    (h : s.StandsBefore source ('\\'.toUInt8 :: rest)) (hmode : s.mode = .string o stored)
    (hdelimiter : o.delimiter = none) (hline : afterLineEnd? rest = some next) :
    s.ReadsTo source (next.dropWhile (Byte.isAny [' ', '\t'])) (.string o stored) := by
  obtain ⟨lexeme, hsplit, hstep⟩ := h.step_lineContinuation hmode hdelimiter hline
  rw [hsplit] at h
  exact .of_step hstep (h.advance lexeme rfl rfl) rfl

/-- What a session makes of an escape, given its byte. One out of range is an `x` inside a comment,
and an error elsewhere. -/
def escaped (s : Session) (o : OpenString) (stored lexeme : List UInt8) (byte? : Option UInt8) :
    Session × Step :=
  let stop := s.pos.shifted lexeme.length
  match byte? with
  | some byte => (s.moveTo stop).goOn (.string o (byte :: stored))
  | none =>
    if o.enclosing.isSome then (s.moveTo stop).goOn (.string o ('x'.toUInt8 :: stored))
    else
      let error := LexError.illegalEscape ⟨s.pos, stop⟩ (Latin1.decode lexeme)
      (s.moveTo stop, .fail (error.withContext .insideString))

theorem StandsBefore.step_escape {rest next stored : List UInt8} {byte? : Option UInt8}
    (h : s.StandsBefore source ('\\'.toUInt8 :: rest)) (hmode : s.mode = .string o stored)
    (hdelimiter : o.delimiter = none) (hline : afterLineEnd? rest = none)
    (hescape : escape? rest = some (byte?, next)) :
    ∃ lexeme, '\\'.toUInt8 :: rest = lexeme ++ next ∧ (byte? = none → lexeme.length = 4) ∧
      s.step = s.escaped o stored lexeme byte? := by
  have hscan := StringRule.scan_backslash rest
  rw [hline, hescape] at hscan
  rcases escape?_eq_some hescape with ⟨letter, rfl, hletter, rfl⟩ |
    ⟨d₁, d₂, d₃, rfl, h₁, h₂, h₃, rfl⟩ | ⟨d₁, d₂, rfl, h₁, h₂, rfl⟩
  · have hfound : StringRule.scan ⟨['\\'.toUInt8, letter] ++ next, true⟩ =
        .found .namedEscape 2 := by
      have hcount : next.length + 1 + 1 - next.length = 2 := by omega
      simpa [hletter, hcount] using hscan
    refine ⟨['\\'.toUInt8, letter], rfl, by simp, ?_⟩
    exact h.step_string ['\\'.toUInt8, letter] hmode hdelimiter hfound
  · have hfound : StringRule.scan ⟨['\\'.toUInt8, d₁, d₂, d₃] ++ next, true⟩ =
        .found .decimalEscape 4 := by
      have hcount : next.length + 1 + 1 + 1 + 1 - next.length = 4 := by omega
      simpa [Byte.isNamedEscape_of_isDecimal h₁, h₁, hcount] using hscan
    have hstep := h.step_string ['\\'.toUInt8, d₁, d₂, d₃] hmode hdelimiter hfound
    have hdigits : (['\\'.toUInt8, d₁, d₂, d₃] : List UInt8).drop 1 = [d₁, d₂, d₃] := rfl
    refine ⟨['\\'.toUInt8, d₁, d₂, d₃], rfl, fun _ => rfl, ?_⟩
    simp only [actString, hdigits, decimal?_eq h₁ h₂ h₃] at hstep
    exact hstep
  · have hfound : StringRule.scan ⟨['\\'.toUInt8, 'x'.toUInt8, d₁, d₂] ++ next, true⟩ =
        .found .hexEscape 4 := by
      have hnamed : Byte.isNamedEscape 'x'.toUInt8 = false := rfl
      have hdecimal : Byte.isDecimal 'x'.toUInt8 = false := rfl
      have hcount : next.length + 1 + 1 + 1 + 1 - next.length = 4 := by omega
      simpa [hnamed, hdecimal, hcount] using hscan
    refine ⟨['\\'.toUInt8, 'x'.toUInt8, d₁, d₂], rfl, fun _ => rfl, ?_⟩
    rw [h.step_string ['\\'.toUInt8, 'x'.toUInt8, d₁, d₂] hmode hdelimiter hfound, ← hex_eq h₁ h₂]
    rfl

/-- An escape, known or out of range, joins its byte to the text. -/
theorem StandsBefore.escape {rest next stored : List UInt8} {byte? : Option UInt8}
    (h : s.StandsBefore source ('\\'.toUInt8 :: rest)) (hmode : s.mode = .string o stored)
    (hdelimiter : o.delimiter = none) (henclosing : o.enclosing = some c)
    (hline : afterLineEnd? rest = none) (hescape : escape? rest = some (byte?, next)) :
    s.ReadsTo source next (.string o (byte?.getD 'x'.toUInt8 :: stored)) := by
  obtain ⟨lexeme, hsplit, -, hstep⟩ := h.step_escape hmode hdelimiter hline hescape
  rw [hsplit] at h
  simp only [escaped, henclosing] at hstep
  cases byte? with
  | none => exact .of_step hstep (h.advance lexeme rfl rfl) rfl
  | some byte => exact .of_step hstep (h.advance lexeme rfl rfl) rfl

theorem StandsBefore.step_unknownEscape {next stored : List UInt8} {letter : UInt8}
    (h : s.StandsBefore source ('\\'.toUInt8 :: letter :: next)) (hmode : s.mode = .string o stored)
    (hdelimiter : o.delimiter = none) (hline : afterLineEnd? (letter :: next) = none)
    (hescape : escape? (letter :: next) = none) :
    s.step = s.actString o stored .unknownEscape ['\\'.toUInt8, letter] := by
  have hscan := StringRule.scan_backslash (letter :: next)
  rw [hline, hescape] at hscan
  exact h.step_string ['\\'.toUInt8, letter] hmode hdelimiter hscan

/-- A backslash before any other byte stays in the text with it. -/
theorem StandsBefore.unknownEscape {next stored : List UInt8} {letter : UInt8}
    (h : s.StandsBefore source ('\\'.toUInt8 :: letter :: next)) (hmode : s.mode = .string o stored)
    (hdelimiter : o.delimiter = none) (hline : afterLineEnd? (letter :: next) = none)
    (hescape : escape? (letter :: next) = none) :
    s.ReadsTo source next (.string o (letter :: '\\'.toUInt8 :: stored)) :=
  .of_step (h.step_unknownEscape hmode hdelimiter hline hescape)
    (h.advance ['\\'.toUInt8, letter] rfl rfl) rfl

theorem StandsBefore.string {stored : List UInt8} (h : s.StandsBefore source bytes)
    (hmode : s.mode = .string o stored) (hdelimiter : o.delimiter = none)
    (henclosing : o.enclosing = some c) :
    s.EndsString source o c stored ['"'.toUInt8] (readString bytes) := by
  have hend : ∀ t : Session, t.StandsBefore source [] → ∀ stored', t.mode = .string o stored' →
      t.EndsString source o c stored ['"'.toUInt8] none := by
    intro t ht stored' hmode'
    show t.run.2 = _
    rw [run_of_fail (ht.step_string [] hmode' hdelimiter rfl), unterminated_of_enclosing henclosing]
  have hcomment : ∀ t : Session, ∀ stored', t.mode = .string o stored' →
      t.mode.comment?.isSome = true := by
    intro t stored' hmode'
    simp [hmode', Mode.comment?, henclosing]
  -- the session and its text change along the reader, the string and its comment do not
  fun_induction readString bytes generalizing s stored with
  | case1 => exact hend s h stored hmode
  | case2 b rest hquote =>
    obtain rfl := eq_of_beq hquote
    have hstep := h.step_string ['"'.toUInt8] hmode hdelimiter (StringRule.scan_doubleQuote rest)
    simp only [actString, closeString, henclosing] at hstep
    exact .of_step hstep (h.advance ['"'.toUInt8] rfl rfl) rfl
  | case3 b rest hquote hback next hline ih =>
    obtain rfl := eq_of_beq hback
    refine .of_readsTo (h.lineContinuation hmode hdelimiter hline) ?_
    intro t ht hmode'
    exact ih ht hmode' hend
  | case4 b rest hquote hback hline byte? next hescape ih =>
    obtain rfl := eq_of_beq hback
    refine .joined [byte?.getD 'x'.toUInt8]
      (.of_readsTo (h.escape hmode hdelimiter henclosing hline hescape) ?_)
    intro t ht hmode'
    exact ih ht hmode' hend
  | case5 b hquote hback hline hescape =>
    -- a backslash before the end of input
    obtain rfl := eq_of_beq hback
    have hstep := h.step_string ['\\'.toUInt8] hmode hdelimiter (StringRule.scan_backslash [])
    refine .of_readsTo (.of_step hstep (h.advance ['\\'.toUInt8] rfl rfl) rfl) ?_
    intro t ht hmode'
    exact hend t ht _ hmode'
  | case6 b hquote hback letter next hline hescape ih =>
    obtain rfl := eq_of_beq hback
    refine .joined ['\\'.toUInt8, letter]
      (.of_readsTo (h.unknownEscape hmode hdelimiter hline hescape) ?_)
    intro t ht hmode'
    exact ih ht hmode' hend
  | case7 b rest hquote hback ih =>
    have hcontent := h.content (hcomment s stored hmode)
      (hmode ▸ isPlain_string hdelimiter (by simpa using hquote) (by simpa using hback))
    rw [hmode] at hcontent
    refine .joined [b] (.of_readsTo hcontent ?_)
    intro t ht hmode'
    exact ih ht hmode' hend

/-! ## Quoted strings -/

theorem isPlain_quoted {id stored : List UInt8} (hdelimiter : o.delimiter = some id) {b : UInt8}
    (hbar : b ≠ '|'.toUInt8) :
    Mode.isPlain (.string o stored) b = true ∨ Byte.isLineEnd b = true := by
  by_cases hline : Byte.isLineEnd b = true
  · exact .inr hline
  · refine .inl ?_
    obtain ⟨hreturn, hnewline⟩ : b ≠ '\r'.toUInt8 ∧ b ≠ '\n'.toUInt8 := by
      simpa [Byte.isLineEnd, Byte.isAny] using hline
    simp [Mode.isPlain, hdelimiter, Byte.isQuotedStop, Byte.isAny, hreturn, hnewline, hbar]

/-- The terminator of a quoted string. -/
def terminatorOf (id : List UInt8) : List UInt8 :=
  '|'.toUInt8 :: id ++ ['\x7d'.toUInt8]

theorem inner_terminatorOf (id : List UInt8) : Lexeme.inner (terminatorOf id) = id := by
  simp [Lexeme.inner, terminatorOf]

theorem scan_terminatorOf {id : List UInt8} (hid : ∀ b ∈ id, Byte.isLower b = true)
    (rest : List UInt8) :
    QuotedRule.scan ⟨terminatorOf id ++ rest, true⟩ =
      .found .terminator (terminatorOf id).length := by
  have hbytes : terminatorOf id ++ rest = '|'.toUInt8 :: (id ++ '\x7d'.toUInt8 :: rest) := by
    simp [terminatorOf]
  have hstop : Byte.isLower '\x7d'.toUInt8 = false := rfl
  rw [hbytes, QuotedRule.scan_bar, List.dropWhile_append_of_pos hid,
    List.takeWhile_append_of_pos hid]
  simp [hstop, terminatorOf]

/-- A bar that does not start the terminator is content, even where another one starts with it. -/
theorem StandsBefore.bar {id stored tail : List UInt8}
    (h : s.StandsBefore source ('|'.toUInt8 :: tail)) (hmode : s.mode = .string o stored)
    (hdelimiter : o.delimiter = some id)
    (hend : ('|'.toUInt8 :: tail).dropPrefix? (terminatorOf id) = none) :
    s.ReadsTo source tail (.string o ('|'.toUInt8 :: stored)) := by
  by_cases hbrace : (tail.dropWhile Byte.isLower).head? = some '\x7d'.toUInt8
  · -- the session takes all of another terminator at once
    obtain ⟨after, hafter⟩ := List.head?_eq_some_iff.mp hbrace
    obtain ⟨other, rfl, hother⟩ : ∃ other, tail = other ++ '\x7d'.toUInt8 :: after ∧
        ∀ b ∈ other, Byte.isLower b = true := by
      refine ⟨tail.takeWhile Byte.isLower, ?_, ?_⟩
      · rw [← hafter, List.takeWhile_append_dropWhile]
      · exact fun b hb => List.all_eq_true.mp List.all_takeWhile b hb
    have hbytes : '|'.toUInt8 :: (other ++ '\x7d'.toUInt8 :: after) =
        terminatorOf other ++ after := by simp [terminatorOf]
    have hne : other ≠ id := by
      rintro rfl
      rw [hbytes, List.dropPrefix?_append_of_beq after (beq_self_eq_true _)] at hend
      cases hend
    have htook := h.tookPlain ['|'.toUInt8]
    rw [hbytes] at h
    have hstep := h.step_quoted (terminatorOf other) hmode hdelimiter
      (scan_terminatorOf hother after)
    have hall : s.actQuoted o id stored .terminator (terminatorOf other) =
        ((s.tookPlain ['|'.toUInt8]).tookPlain (other ++ ['\x7d'.toUInt8]), .proceed) := by
      simp only [actQuoted, inner_terminatorOf, if_neg hne, tookPlain_tookPlain]
      simp [goOn, moveTo, Session.tookPlain, hmode, Mode.took, terminatorOf]
    have hplain : ∀ b ∈ other ++ ['\x7d'.toUInt8],
        (s.tookPlain ['|'.toUInt8]).mode.isPlain b = true := by
      intro b hb
      have hstop : Byte.isQuotedStop b = false := by
        rcases List.mem_append.mp hb with hb | hb
        · exact Byte.isQuotedStop_of_isLower (hother b hb)
        · rw [List.mem_singleton.mp hb]
          rfl
      rw [mode_tookPlain, Mode.isPlain_took, hmode]
      simp [Mode.isPlain, hdelimiter, hstop]
    have hrest : other ++ '\x7d'.toUInt8 :: after = (other ++ ['\x7d'.toUInt8]) ++ after := by simp
    have htook' : (s.tookPlain ['|'.toUInt8]).StandsBefore source
        ((other ++ ['\x7d'.toUInt8]) ++ after) := hrest ▸ htook
    refine ⟨s.tookPlain ['|'.toUInt8], ?_, htook, by rw [mode_tookPlain, hmode]; rfl⟩
    rw [run_of_proceed (hstep.trans hall), htook'.run_eq _ hplain]
  · have hscan := QuotedRule.scan_bar tail
    rw [if_neg (by simpa using hbrace)] at hscan
    have hstep := h.step_quoted ['|'.toUInt8] hmode hdelimiter hscan
    exact .of_step hstep (h.advance ['|'.toUInt8] rfl rfl) rfl

theorem StandsBefore.quotedString {id stored : List UInt8} (h : s.StandsBefore source bytes)
    (hmode : s.mode = .string o stored) (hdelimiter : o.delimiter = some id)
    (hid : ∀ b ∈ id, Byte.isLower b = true) (henclosing : o.enclosing = some c) :
    s.EndsString source o c stored (terminatorOf id) (readQuoted id bytes) := by
  fun_induction readQuoted id bytes generalizing s stored with
  | case1 bytes rest hend =>
    obtain ⟨mark, rfl, hmark⟩ := List.dropPrefix?_eq_some_iff.mp hend
    obtain rfl : mark = terminatorOf id := eq_of_beq hmark
    have hstep := h.step_quoted (terminatorOf id) hmode hdelimiter (scan_terminatorOf hid rest)
    simp only [actQuoted, inner_terminatorOf, closeString, henclosing, if_true] at hstep
    exact .of_step hstep (h.advance (terminatorOf id) rfl rfl) rfl
  | case2 hend =>
    show s.run.2 = _
    rw [run_of_fail (h.step_quoted [] hmode hdelimiter rfl), unterminated_of_enclosing henclosing]
  | case3 b tail hend ih =>
    have hread : s.ReadsTo source tail (.string o (b :: stored)) := by
      by_cases hbar : b = '|'.toUInt8
      · subst hbar
        exact h.bar hmode hdelimiter hend
      · have hcomment : s.mode.comment?.isSome = true := by simp [hmode, Mode.comment?, henclosing]
        have hcontent := h.content hcomment (hmode ▸ isPlain_quoted hdelimiter hbar)
        rwa [hmode] at hcontent
    refine .joined [b] (.of_readsTo hread ?_)
    intro t ht hmode'
    exact ih ht hmode'

end Strings

end Session

end StreamLexer
