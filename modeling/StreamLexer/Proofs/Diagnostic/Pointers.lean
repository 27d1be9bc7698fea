import StreamLexer.Proofs.Diagnostic.Cause
import StreamLexer.Proofs.Session.Commit
import StreamLexer.Proofs.Span.TokenStart

/-!
# Diagnostics point at their causes

An error may be raised long after the bytes that it points at: a mode remembers the openers of what
is open, and an error at the end of the input takes its place from there. What a session remembers
and has warned of stays right from step to step, `Session.Records`, and an error is right by what
the session remembers, `Session.Accounts`. The main statement is `diagnostics_point_at_causes`,
about the warnings and the error of a whole source.

Quotations may nest to any depth here. A session that counts them in 32 bits does the same until one
`NestsTooDeep`, which takes `2 ^ 32` bytes at least: `FlatSession.lexes_iff`.
-/
namespace StreamLexer

/-- The opener of a string, behind that of the comment around it. -/
def OpenString.marks (o : OpenString) : List Mark :=
  match o.enclosing with
  | some c => [⟨c.outer, Grammar.commentOpen⟩, ⟨o.opener, Grammar.stringOpen⟩]
  | none => [⟨o.opener, Grammar.stringOpen⟩]

/-- The openers that the error for a missing end points at. -/
def Mode.marks : Mode → List Mark
  | .code => []
  | .comment c _ => [⟨c.outer, Grammar.commentOpen⟩]
  | .string o _ => o.marks
  | .quotation q => [⟨q.outer, Grammar.quotationOpen⟩]

/-- The token that a session is in starts at the first of them. -/
theorem Mode.openedAt?_eq (m : Mode) : m.openedAt? = m.marks.head?.map (·.span.start) := by
  cases m with
  | string o text =>
    cases henclosing : o.enclosing <;>
      simp [openedAt?, marks, OpenString.start, OpenString.marks, henclosing]
  | _ => rfl

/-- A string without an end points at its opener and at that of the comment around it. -/
theorem marks_unterminated (o : OpenString) : (Session.unterminated o).marks = o.marks := by
  cases henclosing : o.enclosing with
  | none =>
    simp only [Session.unterminated, OpenString.marks, henclosing]
    rfl
  | some c =>
    simp only [Session.unterminated, OpenString.marks, henclosing]
    rfl

/-- What the warnings and the error of an output point at in the source. -/
structure DiagnosticsPoint (source : List UInt8) (out : LexOutput) : Prop where
  /-- Each warning points at its cause, behind the warnings before it. -/
  warned : Marked source (out.warnings.map Warning.mark)
  /-- So does the error. -/
  failed : ∀ e ∈ out.error, e.IsCaused source
  /-- The error lies behind the tokens. -/
  behind : ∀ e ∈ out.error, ∀ token ∈ out.tokens, token.span.stop.offset ≤ e.span.start.offset

namespace Session

/-- The warnings mark the source up to the position, but for the `)` of a stray closer, which is
taken again. -/
def Warns (source : List UInt8) (s : Session) : Prop :=
  MarkedTo source (s.warnings.toList.map Warning.mark) s.pos.offset ∨
    source[s.pos.offset]? = some ')'.toUInt8 ∧
      MarkedTo source (s.warnings.toList.map Warning.mark) (s.pos.offset + 1)

/-- What the session remembers for its diagnostics lies in the source before its position. -/
structure Records (source : List UInt8) (s : Session) : Prop where
  opened : MarkedTo source s.mode.marks s.pos.offset
  warned : s.Warns source

/-- After the action the records are right, and so is its error, which lies nowhere before the token
that the session was in. -/
structure Accounts (source : List UInt8) (s : Session) (r : Session × Step) : Prop where
  records : Records source r.1
  failed : ∀ e, r.2 = .fail e → e.IsCaused source ∧ s.tokenStart.offset ≤ e.span.start.offset

section Records

variable {source : List UInt8} {s r : Session}

theorem Warns.moved (h : s.Warns source) (hwarnings : r.warnings = s.warnings)
    (hle : s.pos.offset ≤ r.pos.offset) : r.Warns source := by
  rw [Warns, hwarnings]
  rcases h with hmarks | ⟨hparen, hmarks⟩
  · exact .inl (hmarks.mono hle)
  · rcases Nat.eq_or_lt_of_le hle with heq | hlt
    · rw [← heq]
      exact .inr ⟨hparen, hmarks⟩
    · exact .inl (hmarks.mono hlt)

theorem Records.moveTo (h : s.Records source) (pos : Position)
    (hle : s.pos.offset ≤ pos.offset) : (s.moveTo pos).Records source :=
  ⟨h.opened.mono hle, h.warned.moved rfl hle⟩

/-- A line that ends here leaves the offset as it is. -/
theorem Records.newLine (h : s.Records source) (bol : Nat) :
    (s.moveTo (s.pos.addLines 1 bol)).Records source :=
  h.moveTo _ (Nat.le_refl _)

/-- The token that the session is in starts nowhere behind it. -/
theorem Records.tokenStart_le (h : s.Records source) : s.tokenStart.offset ≤ s.pos.offset := by
  rw [tokenStart, Mode.openedAt?_eq]
  cases hmarks : s.mode.marks with
  | nil => exact Nat.le_refl _
  | cons mark marks =>
    have hmark : mark ∈ s.mode.marks := by simp [hmarks]
    exact Nat.le_trans (Nat.le_of_lt (h.opened.covers mark hmark).nonempty)
      (h.opened.ended mark hmark)

/-- An error for a missing end points at what the mode remembers. -/
theorem Records.unterminated (h : s.Records source) {e : LexError} (hmarks : e.marks = s.mode.marks)
    (hfault : ∀ type, e.fault ≠ .literalOverflow type) :
    e.IsCaused source ∧ s.tokenStart.offset ≤ e.span.start.offset := by
  refine ⟨LexError.isCaused_of_marked ?_ fun type htype => absurd htype (hfault type), ?_⟩
  · rw [hmarks]
    exact h.opened.toMarked
  · rw [tokenStart, Mode.openedAt?_eq, ← hmarks]
    exact Nat.le_refl _

/-! ## Warnings -/

variable {lexeme later : List UInt8}

/-- A warning of the lexeme that the session stands before lies behind the others. -/
theorem Records.markedTo_warn (h : s.Records source)
    (hstands : s.StandsBefore source (lexeme ++ later)) (hne : lexeme ≠ []) {kind : WarningKind}
    (hmem : lexeme ∈ kind.cause) :
    MarkedTo source
      ((s.warn kind ⟨s.pos, s.pos.shifted lexeme.length⟩).warnings.toList.map Warning.mark)
      (s.pos.offset + lexeme.length) := by
  have hbefore : MarkedTo source (s.warnings.toList.map Warning.mark) s.pos.offset := by
    rcases h.warned with hmarks | ⟨hparen, -⟩
    · exact hmarks
    · -- a lexeme that calls for a warning does not start with the byte that is taken again
      have hhead : source[s.pos.offset]? = lexeme.head? := by
        rw [← List.head?_drop, hstands.drop_eq, List.head?_append_of_ne_nil _ hne]
      rw [hhead] at hparen
      exact absurd hparen (WarningKind.head_ne hmem)
  have hcovers := Mark.covers_lexeme hstands.drop_eq hne
    (show (s.pos.shifted lexeme.length).offset = _ from rfl) hmem
  have hmarks := hbefore.concat hcovers (Nat.le_refl _)
  rw [warn, Array.toList_push, List.map_append]
  exact hmarks

theorem Records.warn (h : s.Records source) (hstands : s.StandsBefore source (lexeme ++ later))
    (hne : lexeme ≠ []) {kind : WarningKind} (hmem : lexeme ∈ kind.cause) :
    ((s.moveTo (s.pos.shifted lexeme.length)).warn kind
      ⟨s.pos, s.pos.shifted lexeme.length⟩).Records source :=
  ⟨h.opened.mono (Nat.le_add_right _ _), .inl (h.markedTo_warn hstands hne hmem)⟩

/-- Of a stray closer the `)` is taken again, though the warning covers it. -/
theorem Records.warn_strayClose (h : s.Records source)
    (hstands : s.StandsBefore source (lexeme ++ later))
    (hmem : lexeme ∈ WarningKind.commentNotEnd.cause) :
    ((s.moveTo (s.pos.shifted 1)).warn .commentNotEnd
      ⟨s.pos, s.pos.shifted lexeme.length⟩).Records source := by
  have hlexeme : lexeme = ['*'.toUInt8, ')'.toUInt8] := hmem
  subst hlexeme
  have hparen : source[s.pos.offset + 1]? = some ')'.toUInt8 := by
    rw [← List.getElem?_drop, hstands.drop_eq]
    rfl
  exact ⟨h.opened.mono (Nat.le_add_right _ _),
    .inr ⟨hparen, h.markedTo_warn hstands (List.cons_ne_nil _ _) hmem⟩⟩

end Records

/-! ## Outcomes -/

section Outcomes

variable {source : List UInt8} {s r : Session}

theorem Records.goOn (h : r.Records source) {mode : Mode}
    (hopened : MarkedTo source mode.marks r.pos.offset) : s.Accounts source (r.goOn mode) := by
  refine ⟨⟨hopened, h.warned⟩, ?_⟩
  intro e he
  cases he

/-- Nothing was opened or closed. -/
theorem Records.stay (h : r.Records source) {mode mode' : Mode} (hmode : r.mode = mode)
    (hmarks : mode'.marks = mode.marks) : s.Accounts source (r.goOn mode') := by
  apply h.goOn
  rw [hmarks, ← hmode]
  exact h.opened

theorem Records.endConstruct (h : r.Records source) (kind : TokenKind) (start : Position) :
    s.Accounts source (r.endConstruct kind start) := by
  refine ⟨⟨.nil source _, h.warned⟩, ?_⟩
  intro e he
  cases he

theorem Records.proceed (h : r.Records source) : s.Accounts source (r, .proceed) := by
  refine ⟨h, ?_⟩
  intro e he
  cases he

theorem Records.emit (h : r.Records source) (token : Token) :
    s.Accounts source (r, .emit token) := by
  refine ⟨h, ?_⟩
  intro e he
  cases he

theorem Records.fail (h : r.Records source) {error : LexError}
    (herror : error.IsCaused source ∧ s.tokenStart.offset ≤ error.span.start.offset) :
    s.Accounts source (r, .fail error) := by
  refine ⟨h, ?_⟩
  intro e he
  cases he
  exact herror

end Outcomes

/-! ## Actions -/

section Actions

variable {source lexeme later : List UInt8} {s : Session}

/-- The error of a lexeme that makes no token covers that lexeme. -/
theorem StandsBefore.isCaused_word (hstands : s.StandsBefore source (lexeme ++ later))
    {rule : WordRule} {fault : WordFault}
    (hscan : TokenRule.scan ⟨lexeme ++ later, true⟩ = .found (.word rule) lexeme.length)
    (hne : lexeme ≠ []) (hfirst : firstAccepting? TokenRule.rows lexeme = some (.word rule))
    (hread : rule.read s.keywords lexeme = .error fault) :
    (fault.toError ⟨s.pos, wordStop rule (s.pos.shifted lexeme.length)⟩).IsCaused source := by
  have hstop : (wordStop rule (s.pos.shifted lexeme.length)).offset =
      s.pos.offset + lexeme.length := wordStop_offset rule _
  apply LexError.isCaused_of_marked
  · have hmarks : ∀ span, (fault.toError span).marks = [⟨span, (fault.toError span).cause⟩] := by
      intro span
      cases fault <;> rfl
    rw [hmarks]
    have hcause := WordRule.mem_cause hfirst hread
      ⟨s.pos, wordStop rule (s.pos.shifted lexeme.length)⟩
    exact (MarkedTo.single (Mark.covers_lexeme hstands.drop_eq hne hstop hcause)).toMarked
  · intro type htype
    obtain rfl := WordRule.eq_integer_of_overflow hread htype
    have hspan : ∀ span, (fault.toError span).span = span := by
      intro span
      cases fault <;> rfl
    rw [hspan, hstop, Nat.add_sub_cancel_left, hstands.drop_eq]
    exact (scan_found_iff (List.append_ne_nil_of_left_ne_nil hne _) _ _).mp hscan

theorem Records.actCode (h : s.Records source) (hstands : s.StandsBefore source (lexeme ++ later))
    (hmode : s.mode = .code) {rule : TokenRule}
    (hscan : TokenRule.scan ⟨lexeme ++ later, true⟩ = .found rule lexeme.length) :
    s.Accounts source (s.actCode rule lexeme) := by
  have hmoved : (s.moveTo (s.pos.shifted lexeme.length)).Records source :=
    h.moveTo _ (Nat.le_add_right _ _)
  rcases TokenRule.scan_first hscan with ⟨rfl, -⟩ | ⟨hne, hfirst⟩
  · exact hmoved.emit _
  have hopener : ∀ {lang : Language UInt8}, rule.opener? = some lang →
      MarkedTo source [⟨⟨s.pos, s.pos.shifted lexeme.length⟩, lang⟩]
        (s.pos.offset + lexeme.length) := by
    intro lang hlang
    exact .single (Mark.covers_lexeme hstands.drop_eq hne rfl (rule.mem_opener hlang hfirst))
  cases rule with
  | blank | newline | lineDirective => exact (h.moveTo _ (Nat.le_add_right _ _)).proceed
  | stringOpen | quotedOpen | commentOpen | quotationOpen => exact hmoved.goOn (hopener rfl)
  | commentOpenAmbiguous =>
    exact (h.warn hstands hne (TokenRule.mem_warning rfl hfirst)).goOn (hopener rfl)
  | strayClose => exact (h.warn_strayClose hstands (TokenRule.mem_warning rfl hfirst)).emit _
  | endOfInput => exact hmoved.emit _
  | word rule =>
    have hmoved : (s.moveTo (wordStop rule (s.pos.shifted lexeme.length))).Records source := by
      apply h.moveTo
      rw [wordStop_offset]
      exact Nat.le_add_right _ _
    simp only [Session.actCode]
    split
    · exact hmoved.emit _
    · rename_i fault hread
      refine hmoved.fail ⟨hstands.isCaused_word hscan hne hfirst hread, ?_⟩
      rw [tokenStart_of_code hmode]
      cases fault <;> exact Nat.le_refl _

theorem Records.actComment (h : s.Records source)
    (hstands : s.StandsBefore source (lexeme ++ later)) {c : OpenComment} {text : List UInt8}
    (hmode : s.mode = .comment c text) {rule : CommentRule}
    (hscan : CommentRule.scan ⟨lexeme ++ later, true⟩ = .found rule lexeme.length) :
    s.Accounts source (s.actComment c text rule lexeme) := by
  have hmoved : (s.moveTo (s.pos.shifted lexeme.length)).Records source :=
    h.moveTo _ (Nat.le_add_right _ _)
  -- a string inside the comment is opened behind the opener of the comment
  have hstring : rule = .stringOpen ∨ rule = .quotedOpen → ∀ delimiter,
      MarkedTo source
        (OpenString.marks ⟨⟨s.pos, s.pos.shifted lexeme.length⟩, delimiter, some c⟩)
        (s.pos.offset + lexeme.length) := by
    intro hrule delimiter
    have hne : lexeme ≠ [] := by
      rcases CommentRule.bounded.found _ _ _ hscan with ⟨rfl, -⟩ | ⟨hpos, -⟩
      · simp at hrule
      · exact List.ne_nil_of_length_pos hpos
    have hfirst : firstAccepting? CommentRule.rows lexeme = some rule := by
      rcases hrule with rfl | rfl <;>
        exact first_of_body CommentRule.scan_eq_bodyScan hscan (by simp) (by simp)
    have hopened := h.opened
    rw [hmode] at hopened
    exact hopened.concat
      (Mark.covers_lexeme hstands.drop_eq hne rfl (CommentRule.mem_stringOpen hrule hfirst))
      (Nat.le_refl _)
  cases rule with
  | close =>
    simp only [Session.actComment]
    split
    · exact hmoved.stay hmode rfl
    · exact hmoved.endConstruct _ _
  | stringOpen => exact hmoved.goOn (hstring (.inl rfl) _)
  | quotedOpen => exact hmoved.goOn (hstring (.inr rfl) _)
  | charNewline | newline => exact (hmoved.newLine _).stay hmode rfl
  | endOfInput =>
    refine hmoved.fail (h.unterminated ?_ ?_)
    · rw [hmode]
      rfl
    · intro type hfault
      cases hfault
  | nestedOpen | char | plain => exact hmoved.stay hmode rfl

section Strings

variable {r : Session} {o : OpenString} {text : List UInt8}

theorem Records.closeString (h : r.Records source) (hmode : r.mode = .string o text)
    (content terminator : List UInt8) : s.Accounts source (r.closeString o content terminator) := by
  unfold Session.closeString
  split
  · rename_i c henclosing
    apply h.goOn
    have hopened := h.opened
    simp only [hmode, Mode.marks, OpenString.marks, henclosing] at hopened
    exact hopened.sublist (by simp [Mode.marks])
  · exact h.endConstruct _ _

/-- The error of a string without an end points at what the mode remembers. -/
theorem Records.unterminated_string (h : s.Records source) (hmode : s.mode = .string o text) :
    (Session.unterminated o).IsCaused source ∧
      s.tokenStart.offset ≤ (Session.unterminated o).span.start.offset := by
  apply h.unterminated
  · rw [hmode, marks_unterminated]
    rfl
  · intro type hfault
    cases henclosing : o.enclosing <;> simp only [Session.unterminated, henclosing] at hfault <;>
      cases hfault

theorem Records.actString (h : s.Records source)
    (hstands : s.StandsBefore source (lexeme ++ later)) (hmode : s.mode = .string o text)
    {rule : StringRule}
    (hscan : StringRule.scan ⟨lexeme ++ later, true⟩ = .found rule lexeme.length) :
    s.Accounts source (s.actString o text rule lexeme) := by
  have hmoved : (s.moveTo (s.pos.shifted lexeme.length)).Records source :=
    h.moveTo _ (Nat.le_add_right _ _)
  have hne : rule ≠ .endOfInput → lexeme ≠ [] := by
    intro hrule
    rcases StringRule.bounded.found _ _ _ hscan with ⟨hend, -⟩ | ⟨hpos, -⟩
    · exact absurd hend hrule
    · exact List.ne_nil_of_length_pos hpos
  cases rule with
  | close => exact hmoved.closeString hmode text lexeme
  | lineContinuation => exact (hmoved.newLine _).stay hmode rfl
  | decimalEscape =>
    have hescape := StringRule.mem_decimalEscape
      (first_of_body StringRule.scan_eq_bodyScan hscan (by simp) (by simp))
    simp only [Session.actString]
    split
    · exact hmoved.stay hmode rfl
    · split
      · exact hmoved.stay hmode rfl
      · refine hmoved.fail ⟨LexError.isCaused_of_marked ?_ ?_, h.tokenStart_le⟩
        · exact (MarkedTo.single (Mark.covers_lexeme hstands.drop_eq (hne (by simp)) rfl
            (mem_illegalEscape (List.infix_refl lexeme) (.inr hescape)))).toMarked
        · intro type hfault
          cases hfault
  | unknownEscape =>
    have hwarning := StringRule.mem_warning rfl
      (first_of_body StringRule.scan_eq_bodyScan hscan (by simp) (by simp))
    exact (h.warn hstands (hne (by simp)) hwarning).stay hmode rfl
  | newline =>
    have hwarning := StringRule.mem_warning rfl
      (first_of_body StringRule.scan_eq_bodyScan hscan (by simp) (by simp))
    simp only [Session.actString]
    split
    · exact (hmoved.newLine _).stay hmode rfl
    · exact ((h.warn hstands (hne (by simp)) hwarning).newLine _).stay hmode rfl
  | endOfInput => exact hmoved.fail (h.unterminated_string hmode)
  | namedEscape | hexEscape | plain => exact hmoved.stay hmode rfl

theorem Records.actQuoted (h : s.Records source) (hmode : s.mode = .string o text)
    (id : List UInt8) (rule : QuotedRule) (lexeme : List UInt8) :
    s.Accounts source (s.actQuoted o id text rule lexeme) := by
  have hmoved : (s.moveTo (s.pos.shifted lexeme.length)).Records source :=
    h.moveTo _ (Nat.le_add_right _ _)
  cases rule with
  | terminator =>
    simp only [Session.actQuoted]
    split
    · exact hmoved.closeString hmode text lexeme
    · exact hmoved.stay hmode rfl
  | newline => exact (hmoved.newLine _).stay hmode rfl
  | plain => exact hmoved.stay hmode rfl
  | endOfInput => exact hmoved.fail (h.unterminated_string hmode)

end Strings

theorem Records.actQuotation (h : s.Records source) {q : OpenQuotation}
    (hmode : s.mode = .quotation q) (rule : QuotationRule) (n : Nat) :
    s.Accounts source (s.actQuotation q rule n) := by
  have hmoved : (s.moveTo (s.pos.shifted n)).Records source := h.moveTo _ (Nat.le_add_right _ _)
  cases rule with
  | close =>
    simp only [Session.actQuotation]
    split
    · exact hmoved.stay hmode rfl
    · exact hmoved.endConstruct _ _
  | newline => exact (hmoved.newLine _).stay hmode rfl
  | nestedOpen | plain => exact hmoved.stay hmode rfl
  | endOfInput =>
    refine hmoved.fail (h.unterminated ?_ ?_)
    · rw [hmode]
      rfl
    · intro type hfault
      cases hfault

end Actions

/-! ## Steps -/

section Steps

variable {source rest : List UInt8} {s t : Session}

/-- A step keeps the records right, and so is the error that it ends with. -/
theorem Records.step (h : s.Records source) (hstands : s.StandsBefore source rest)
    (hdecided : s.headerPending = false) : s.Accounts source s.step := by
  cases hstands.acts with
  | header _ hpending =>
    rw [hdecided] at hpending
    cases hpending
  | code hmode _ rule lexeme later hsplit hscan hact =>
    subst hsplit
    rw [hact]
    exact h.actCode hstands hmode hscan
  | comment c text hmode rule lexeme later hsplit hscan hact =>
    subst hsplit
    rw [hact]
    exact h.actComment hstands hmode hscan
  | string o text hmode _ rule lexeme later hsplit hscan hact =>
    subst hsplit
    rw [hact]
    exact h.actString hstands hmode hscan
  | quoted o id text hmode _ rule lexeme later _ _ hact =>
    rw [hact]
    exact h.actQuoted hmode id rule lexeme
  | quotation q hmode rule lexeme later _ _ hact =>
    rw [hact]
    exact h.actQuotation hmode rule lexeme.length

theorem Warns.marked (h : s.Warns source) : Marked source (s.warnings.toList.map Warning.mark) := by
  rcases h with hmarks | ⟨-, hmarks⟩
  · exact hmarks.toMarked
  · exact hmarks.toMarked

/-- What is reported from here on points at its cause, and the error lies nowhere before the token
that the session is in. -/
theorem Records.output (h : s.Records source) (hstands : s.StandsBefore source rest)
    (hdecided : s.headerPending = false) :
    DiagnosticsPoint source s.output ∧
      ∀ e ∈ s.output.error, s.tokenStart.offset ≤ e.span.start.offset := by
  induction s using stepInduction generalizing rest with
  | proceed s t hstep ih =>
    have hnext := h.step hstands hdecided
    obtain ⟨-, later, -, hstands', -⟩ := hstands.step_forward
    have hdecided' := hstands.step_decided hdecided
    rw [hstep] at hnext hstands' hdecided'
    obtain ⟨hpoint, hbehind⟩ := ih hnext.records hstands' hdecided'
    rw [output_of_proceed hstep]
    refine ⟨hpoint, ?_⟩
    intro e he
    exact Nat.le_trans (hstands.tokenStart_le hdecided hstep) (hbehind e he)
  | emit s t token hstep heof ih =>
    have hnext := h.step hstands hdecided
    obtain ⟨taken, later, -, hstands', hoffset⟩ := hstands.step_forward
    have hdecided' := hstands.step_decided hdecided
    have hforward : t.pos.offset = s.pos.offset + taken.length := by rw [← hoffset, hstep]
    rw [hstep] at hnext hstands' hdecided'
    obtain ⟨hpoint, hbehind⟩ := ih hnext.records hstands' hdecided'
    obtain ⟨hspan, hmode⟩ := stepOn_emit_span hstep
    rw [tokenStart_of_code hmode] at hbehind
    rw [output_of_emit hstep heof]
    refine ⟨⟨hpoint.warned, hpoint.failed, ?_⟩, ?_⟩
    · intro e he other hother
      rcases List.mem_cons.mp hother with rfl | hother
      · rw [hspan]
        exact hbehind e he
      · exact hpoint.behind e he other hother
    · intro e he
      have hstart := h.tokenStart_le
      have herror := hbehind e he
      omega
  | final s hfinal =>
    have hnext := h.step hstands hdecided
    cases hstep : s.step with
    | mk t outcome =>
      rw [hstep] at hfinal hnext
      have hwarned := hnext.records.warned.marked
      cases outcome with
      | proceed => cases hfinal
      | emit last =>
        rw [output_of_end hstep hfinal]
        exact ⟨⟨hwarned, by simp, by simp⟩, by simp⟩
      | fail error =>
        obtain ⟨hcaused, hbehind⟩ := hnext.failed error rfl
        rw [output_of_fail hstep]
        exact ⟨⟨hwarned, by simpa using hcaused, by simp⟩, by simpa using hbehind⟩
      | starved =>
        rw [output_of_starved hstep]
        exact ⟨⟨hwarned, by simp, by simp⟩, by simp⟩

end Steps

end Session

/-- The warnings and the error of a source point at their causes. -/
theorem diagnostics_point_at_causes (source : List UInt8) (config : Config) :
    DiagnosticsPoint source (lex source config) := by
  obtain ⟨header, later, s, -, -, hstands, hs, hlex⟩ := Session.exists_isPast source config
  have hrecords : s.Records source := by
    refine ⟨?_, .inl ?_⟩
    · rw [hs.mode_eq]
      exact .nil source _
    · rw [hs.warnings_eq]
      exact .nil source _
  rw [hlex]
  exact (hrecords.output hstands hs.decided).1

end StreamLexer
