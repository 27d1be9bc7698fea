import StreamLexer.Proofs.Span.Gap

/-!
# Where tokens start and end

A token of several lexemes starts where its construct was opened, many steps and perhaps several
modes ago; the mode remembers that place. `Session.tokenStart` is the start of the token that a
session is in. An action goes on with that token or gives it, up to the position of the session:
`Spans`. Only separators and the header leave it behind.
-/
namespace StreamLexer

/-- Where the token of a string starts: it is that of the comment around it, if there is one. -/
def OpenString.start (o : OpenString) : Position :=
  match o.enclosing with
  | some c => c.outer.start
  | none => o.opener.start

/-- Where the open construct starts that will be one token. -/
def Mode.openedAt? : Mode → Option Position
  | .code => none
  | .comment c _ => some c.outer.start
  | .string o _ => some o.start
  | .quotation q => some q.outer.start

namespace Session

/-- Where the token starts that the session is in; outside of all constructs it is next. -/
def tokenStart (s : Session) : Position :=
  s.mode.openedAt?.getD s.pos

theorem tokenStart_of_code {s : Session} (hmode : s.mode = .code) : s.tokenStart = s.pos := by
  rw [tokenStart, hmode]
  rfl

theorem tokenStart_of_opened {s : Session} {start : Position}
    (h : s.mode.openedAt? = some start) : s.tokenStart = start := by
  rw [tokenStart, h]
  rfl

/-- The action goes on with the token that starts there, or gives it up to its own position. -/
structure Spans (start : Position) (r : Session × Step) : Prop where
  proceed : r.2 = .proceed → r.1.mode.openedAt? = some start
  emit : ∀ token, r.2 = .emit token → token.span = ⟨start, r.1.pos⟩ ∧ r.1.mode = .code

/-! ## Actions -/

section Actions

variable (s : Session)

theorem spans_goOn {mode : Mode} {start : Position} (h : mode.openedAt? = some start) :
    Spans start (s.goOn mode) := by
  refine ⟨fun _ => h, ?_⟩
  intro token htoken
  cases htoken

theorem spans_endConstruct (kind : TokenKind) (start : Position) :
    Spans start (s.endConstruct kind start) := by
  constructor
  · intro hproceed
    cases hproceed
  · intro token htoken
    cases htoken
    exact ⟨rfl, rfl⟩

theorem spans_fail (start : Position) (error : LexError) : Spans start (s, .fail error) := by
  constructor
  · intro hproceed
    cases hproceed
  · intro token htoken
    cases htoken

theorem spans_emit {kind : TokenKind} {start stop : Position} (hmode : s.mode = .code)
    (hstop : s.pos = stop) : Spans start (s, .emit ⟨kind, ⟨start, stop⟩⟩) := by
  constructor
  · intro hproceed
    cases hproceed
  · intro token htoken
    cases htoken
    exact ⟨by rw [hstop], hmode⟩

/-- In source code every rule but those of separators starts a token here. -/
theorem actCode_spans (hmode : s.mode = .code) {rule : TokenRule}
    (hrule : rule.isSeparator = false) (lexeme : List UInt8) :
    Spans s.pos (s.actCode rule lexeme) := by
  cases rule with
  | blank | newline | lineDirective => cases hrule
  | stringOpen | quotedOpen | commentOpen | commentOpenAmbiguous | quotationOpen =>
    exact spans_goOn _ rfl
  | strayClose => exact spans_emit _ hmode rfl
  | endOfInput => exact spans_emit _ hmode rfl
  | word rule =>
    simp only [actCode]
    split
    · exact spans_emit _ hmode rfl
    · exact spans_fail _ _ _

theorem actComment_spans (c : OpenComment) (text : List UInt8) (rule : CommentRule)
    (lexeme : List UInt8) : Spans c.outer.start (s.actComment c text rule lexeme) := by
  cases rule with
  | close =>
    simp only [actComment]
    split
    · exact spans_goOn _ rfl
    · exact spans_endConstruct _ _ _
  | endOfInput => exact spans_fail _ _ _
  | _ => exact spans_goOn _ rfl

theorem closeString_spans (o : OpenString) (text terminator : List UInt8) :
    Spans o.start (s.closeString o text terminator) := by
  cases henclosing : o.enclosing with
  | some c =>
    simp only [closeString, OpenString.start, henclosing]
    exact spans_goOn _ rfl
  | none =>
    simp only [closeString, OpenString.start, henclosing]
    exact spans_endConstruct _ _ _

theorem actString_spans (o : OpenString) (text : List UInt8) (rule : StringRule)
    (lexeme : List UInt8) : Spans o.start (s.actString o text rule lexeme) := by
  cases rule with
  | close => exact closeString_spans _ o text lexeme
  | decimalEscape =>
    simp only [actString]
    split
    · exact spans_goOn _ rfl
    · split
      · exact spans_goOn _ rfl
      · exact spans_fail _ _ _
  | endOfInput => exact spans_fail _ _ _
  | _ => exact spans_goOn _ rfl

theorem actQuoted_spans (o : OpenString) (id text : List UInt8) (rule : QuotedRule)
    (lexeme : List UInt8) : Spans o.start (s.actQuoted o id text rule lexeme) := by
  cases rule with
  | terminator =>
    simp only [actQuoted]
    split
    · exact closeString_spans _ o text lexeme
    · exact spans_goOn _ rfl
  | endOfInput => exact spans_fail _ _ _
  | _ => exact spans_goOn _ rfl

theorem actQuotation_spans (q : OpenQuotation) (rule : QuotationRule) (n : Nat) :
    Spans q.outer.start (s.actQuotation q rule n) := by
  cases rule with
  | close =>
    simp only [actQuotation]
    split
    · exact spans_goOn _ rfl
    · exact spans_endConstruct _ _ _
  | endOfInput => exact spans_fail _ _ _
  | _ => exact spans_goOn _ rfl

end Actions

/-! ## Steps -/

section Steps

variable {s t r : Session} {token : Token}

/-- A token reaches from the start of its construct to where the session then stands. -/
theorem stepOn_emit_span {view : Lookahead} (h : s.stepOn view = (r, .emit token)) :
    token.span = ⟨s.tokenStart, r.pos⟩ ∧ r.mode = .code := by
  have hspans : ∀ {start : Position}, Spans start (r, .emit token) → s.tokenStart = start →
      token.span = ⟨s.tokenStart, r.pos⟩ ∧ r.mode = .code := by
    intro start hspans hstart
    rw [hstart]
    exact hspans.emit token rfl
  unfold stepOn at h
  split at h
  · rename_i hmode
    split at h
    · obtain ⟨rule, n, -, hact⟩ := onFound_emit h
      cases rule <;> cases hact
    · obtain ⟨rule, n, -, hact⟩ := onFound_emit h
      cases hrule : rule.isSeparator with
      | true =>
        cases rule with
        | blank | newline | lineDirective => cases hact
        | _ => cases hrule
      | false =>
        exact hspans (hact ▸ s.actCode_spans hmode hrule _) (tokenStart_of_code hmode)
  · rename_i c text hmode
    obtain ⟨rule, n, -, hact⟩ := onFound_emit h
    exact hspans (hact ▸ s.actComment_spans c text rule _)
      (tokenStart_of_opened (by rw [hmode]; rfl))
  · rename_i o text hmode
    have hstart : s.tokenStart = o.start := tokenStart_of_opened (by rw [hmode]; rfl)
    split at h
    · obtain ⟨rule, n, -, hact⟩ := onFound_emit h
      exact hspans (hact ▸ s.actString_spans o text rule _) hstart
    · obtain ⟨rule, n, -, hact⟩ := onFound_emit h
      exact hspans (hact ▸ s.actQuoted_spans o _ text rule _) hstart
  · rename_i q hmode
    obtain ⟨rule, n, -, hact⟩ := onFound_emit h
    exact hspans (hact ▸ s.actQuotation_spans q rule n)
      (tokenStart_of_opened (by rw [hmode]; rfl))

/-- After a token the session stands at its end. -/
theorem pos_of_next_done (h : s.next = (t, .done token)) : t.pos = token.span.stop := by
  obtain ⟨u, -, hemit⟩ := exists_emit_of_next h
  rw [(stepOn_emit_span hemit).1]

variable {source rest : List UInt8}

/-- Over a complete source, a step that makes no token goes on with the same one, or passes over a
separator. -/
theorem StandsBefore.step_proceed (h : s.StandsBefore source rest)
    (hdecided : s.headerPending = false) (hstep : s.step = (t, .proceed)) :
    t.mode.openedAt? = some s.tokenStart ∨
      s.mode = .code ∧ t.mode = .code ∧ ∃ lexeme later, rest = lexeme ++ later ∧
        lexeme ∈ Grammar.separator ∧ t.pos.offset = s.pos.offset + lexeme.length := by
  have hspans : ∀ {start : Position}, Spans start s.step → s.tokenStart = start →
      t.mode.openedAt? = some s.tokenStart := by
    intro start hspans hstart
    rw [hstart]
    rw [hstep] at hspans
    exact hspans.proceed rfl
  cases h.acts with
  | header hmode hpending =>
    rw [hdecided] at hpending
    cases hpending
  | code hmode _ rule lexeme later hsplit hscan hact =>
    cases hrule : rule.isSeparator with
    | false =>
      left
      exact hspans (hact ▸ s.actCode_spans hmode hrule lexeme) (tokenStart_of_code hmode)
    | true =>
      right
      have hlexeme : lexeme ∈ Grammar.separator := by
        rcases TokenRule.scan_first hscan with ⟨rfl, -⟩ | ⟨-, hfirst⟩
        · cases hrule
        · exact mem_separator hrule hfirst
      have hoffset : (s.actCode rule lexeme).1.pos.offset = s.pos.offset + lexeme.length ∧
          (s.actCode rule lexeme).1.mode = s.mode := by
        cases rule with
        | blank | newline | lineDirective => exact ⟨rfl, rfl⟩
        | _ => cases hrule
      rw [← hact, hstep] at hoffset
      exact ⟨hmode, hoffset.2.trans hmode, lexeme, later, hsplit, hlexeme, hoffset.1⟩
  | comment c text hmode rule lexeme later _ _ hact =>
    left
    exact hspans (hact ▸ s.actComment_spans c text rule lexeme)
      (tokenStart_of_opened (by rw [hmode]; rfl))
  | string o text hmode _ rule lexeme later _ _ hact =>
    left
    exact hspans (hact ▸ s.actString_spans o text rule lexeme)
      (tokenStart_of_opened (by rw [hmode]; rfl))
  | quoted o id text hmode _ rule lexeme later _ _ hact =>
    left
    exact hspans (hact ▸ s.actQuoted_spans o id text rule lexeme)
      (tokenStart_of_opened (by rw [hmode]; rfl))
  | quotation q hmode rule lexeme later _ _ hact =>
    left
    exact hspans (hact ▸ s.actQuotation_spans q rule lexeme.length)
      (tokenStart_of_opened (by rw [hmode]; rfl))

/-- The token that a session is in starts nowhere before the one that it was in. -/
theorem StandsBefore.tokenStart_le (h : s.StandsBefore source rest)
    (hdecided : s.headerPending = false) (hstep : s.step = (t, .proceed)) :
    s.tokenStart.offset ≤ t.tokenStart.offset := by
  rcases h.step_proceed hdecided hstep with hopened | ⟨hmode, hmode', lexeme, later, -, -, hoffset⟩
  · rw [tokenStart_of_opened hopened]
  · rw [tokenStart_of_code hmode, tokenStart_of_code hmode', hoffset]
    exact Nat.le_add_right _ _

end Steps

/-! ## Behind the header -/

/-- The session has passed over the header and taken nothing else. -/
structure IsPast (config : Config) (header : List UInt8) (s : Session) : Prop where
  mode_eq : s.mode = .code
  decided : s.headerPending = false
  keywords_eq : s.keywords = config.keywords
  warnings_eq : s.warnings = #[]
  offset_eq : s.pos.offset = header.length

/-- Lexing starts with the header, where it is to be passed over. -/
theorem exists_isPast (source : List UInt8) (config : Config) :
    ∃ (header later : List UInt8) (s : Session),
      (if config.skipHeader then IsHeader source header else header = []) ∧ header <+: source ∧
        s.StandsBefore source later ∧ IsPast config header s ∧ lex source config = s.output := by
  have hstands := standsBefore_ofSource config source
  cases hskip : config.skipHeader with
  | false =>
    exact ⟨[], source, Session.ofSource config source, by simp, List.nil_prefix, hstands,
      ⟨rfl, hskip, rfl, rfl, rfl⟩, rfl⟩
  | true =>
    obtain ⟨rule, header, later, hsplit, hscan, hstep⟩ := hstands.step_header rfl hskip
    obtain ⟨hheader, habsent⟩ := isHeader_of_scan hscan
    rw [← hsplit] at hheader
    obtain ⟨t, hproceed, hpast⟩ :
        ∃ t, (Session.ofSource config source).step = (t, .proceed) ∧ IsPast config header t := by
      rw [hstep]
      cases rule with
      | absent =>
        rw [habsent rfl]
        exact ⟨_, rfl, rfl, rfl, rfl, rfl, rfl⟩
      | oneLine | threeLines => exact ⟨_, rfl, rfl, rfl, rfl, rfl, Nat.zero_add _⟩
    obtain ⟨-, later', -, hnext, -⟩ := hstands.step_forward
    rw [hproceed] at hnext
    refine ⟨header, later', t, by simpa using hheader, hheader.isPrefix, hnext, hpast, ?_⟩
    rw [← output_ofSource, output_of_proceed hproceed]

end Session

end StreamLexer
