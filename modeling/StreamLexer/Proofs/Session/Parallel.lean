import StreamLexer.Proofs.Session.Frame

/-!
# Places, seen from elsewhere

An action looks at no offset: it only adds to it. File and line go into the positions that it makes,
and into nothing else. `Session.moved` keeps the offsets of a session alone, counted from a point
`n` bytes earlier, and sessions that are the same up to that are `Session.Parallel`. On the same
bytes they take the same step, at places that lie as far apart: `Session.Parallel.stepOn`.
-/
namespace StreamLexer

/-! ## Offsets alone -/

/-- The offset of a point, counted from `n` bytes earlier. File and line are left out. -/
def Position.moved (n : Nat) (p : Position) : Position :=
  ⟨"", 0, 0, p.offset + n⟩

def Span.moved (n : Nat) (span : Span) : Span :=
  ⟨span.start.moved n, span.stop.moved n⟩

def Token.moved (n : Nat) (token : Token) : Token :=
  ⟨token.kind, token.span.moved n⟩

def Warning.moved (n : Nat) (w : Warning) : Warning :=
  ⟨w.kind, w.span.moved n⟩

/-- Of all faults only one tells a place. -/
def Fault.moved (n : Nat) : Fault → Fault
  | .unterminatedStringInComment stringStart => .unterminatedStringInComment (stringStart.moved n)
  | fault => fault

def LexError.moved (n : Nat) (e : LexError) : LexError :=
  { e with span := e.span.moved n, fault := e.fault.moved n }

/-- What lexing gives, with the offsets of all places counted from `n` bytes earlier. -/
def LexOutput.moved (n : Nat) (o : LexOutput) : LexOutput :=
  ⟨o.tokens.map (Token.moved n), o.warnings.map (Warning.moved n), o.error.map (LexError.moved n)⟩

def OpenComment.moved (n : Nat) (c : OpenComment) : OpenComment :=
  ⟨c.outer.moved n, c.inner.map (Span.moved n)⟩

def OpenString.moved (n : Nat) (o : OpenString) : OpenString :=
  ⟨o.opener.moved n, o.delimiter, o.enclosing.map (OpenComment.moved n)⟩

def OpenQuotation.moved (n : Nat) (q : OpenQuotation) : OpenQuotation :=
  ⟨q.outer.moved n, q.inner⟩

def Mode.moved (n : Nat) : Mode → Mode
  | .code => .code
  | .comment c text => .comment (c.moved n) text
  | .string o text => .string (o.moved n) text
  | .quotation q => .quotation (q.moved n)

def Step.moved (n : Nat) : Step → Step
  | .emit token => .emit (token.moved n)
  | .fail error => .fail (error.moved n)
  | .proceed => .proceed
  | .starved => .starved

namespace Session

/-- The offsets of a session, counted from `n` bytes earlier. What it holds of the input and whether
it has failed are left out, since no action reads them. -/
def moved (n : Nat) (s : Session) : Session :=
  { s with
    window := {}
    pos := s.pos.moved n
    mode := s.mode.moved n
    warnings := s.warnings.map (Warning.moved n)
    failure := none }

end Session

/-! ## Places in step -/

section Places

variable {n : Nat} {p q : Position}

theorem Position.offset_of_moved (h : p.moved 0 = q.moved n) : p.offset = q.offset + n :=
  congrArg Position.offset h

theorem Position.moved_of_offset (h : p.offset = q.offset + n) : p.moved 0 = q.moved n := by
  simp only [moved, Nat.add_zero, h]

theorem Position.moved_shifted (h : p.moved 0 = q.moved n) (k : Nat) :
    (p.shifted k).moved 0 = (q.shifted k).moved n := by
  have hoffset := offset_of_moved h
  apply moved_of_offset
  simp only [shifted]
  omega

theorem Span.moved_mk {start stop start' stop' : Position} (hstart : start.moved 0 = start'.moved n)
    (hstop : stop.moved 0 = stop'.moved n) :
    Span.moved 0 ⟨start, stop⟩ = Span.moved n ⟨start', stop'⟩ := by
  simp only [moved, hstart, hstop]

theorem Session.moved_wordStop (rule : WordRule) (h : p.moved 0 = q.moved n) :
    (wordStop rule p).moved 0 = (wordStop rule q).moved n := by
  unfold wordStop
  split
  · exact h
  · exact h

theorem OpenComment.depth_of_moved {c d : OpenComment} (h : c.moved 0 = d.moved n) :
    c.depth = d.depth := by
  have hinner : c.inner.map (Span.moved 0) = d.inner.map (Span.moved n) :=
    congrArg OpenComment.inner h
  have hlength := congrArg List.length hinner
  simp only [List.length_map] at hlength
  simp only [depth, hlength]

theorem WordFault.moved_toError (fault : WordFault) {span span' : Span}
    (hspan : span.moved 0 = span'.moved n) :
    (fault.toError span).moved 0 = (fault.toError span').moved n := by
  cases fault <;>
    simp [WordFault.toError, LexError.moved, LexError.illegalCharacter, LexError.illegalEscape,
      LexError.keywordAsLabel, LexError.literalOverflow, Fault.moved, hspan]

end Places

namespace Session

/-- Two sessions that differ in their places alone: those of the first lie `n` bytes further on. -/
def Parallel (n : Nat) (s t : Session) : Prop :=
  s.moved 0 = t.moved n

/-- The same outcome, at places that lie `n` bytes further on in the first session. -/
def StepsParallel (n : Nat) (r r' : Session × Step) : Prop :=
  r.1.Parallel n r'.1 ∧ r.2.moved 0 = r'.2.moved n

section Parallel

variable {n : Nat} {s t : Session}

theorem Parallel.moved_eq (h : s.Parallel n t) : s.moved 0 = t.moved n := h

theorem Parallel.pos (h : s.Parallel n t) : s.pos.moved 0 = t.pos.moved n :=
  congrArg Session.pos h.moved_eq

theorem Parallel.mode (h : s.Parallel n t) : s.mode.moved 0 = t.mode.moved n :=
  congrArg Session.mode h.moved_eq

theorem Parallel.keywords (h : s.Parallel n t) : s.keywords = t.keywords :=
  (congrArg Session.keywords h.moved_eq :)

theorem Parallel.headerPending (h : s.Parallel n t) : s.headerPending = t.headerPending :=
  (congrArg Session.headerPending h.moved_eq :)

theorem Parallel.warnings (h : s.Parallel n t) :
    s.warnings.map (Warning.moved 0) = t.warnings.map (Warning.moved n) :=
  congrArg Session.warnings h.moved_eq

theorem parallel_of (hpos : s.pos.moved 0 = t.pos.moved n)
    (hmode : s.mode.moved 0 = t.mode.moved n) (hkeywords : s.keywords = t.keywords)
    (hpending : s.headerPending = t.headerPending)
    (hwarnings : s.warnings.map (Warning.moved 0) = t.warnings.map (Warning.moved n)) :
    s.Parallel n t := by
  simp only [Parallel, moved, hpos, hmode, hkeywords, hpending, hwarnings]

theorem Parallel.moveTo (h : s.Parallel n t) {p q : Position} (hpos : p.moved 0 = q.moved n) :
    (s.moveTo p).Parallel n (t.moveTo q) :=
  parallel_of hpos h.mode h.keywords h.headerPending h.warnings

theorem Parallel.warn (h : s.Parallel n t) (kind : WarningKind) {span span' : Span}
    (hspan : span.moved 0 = span'.moved n) : (s.warn kind span).Parallel n (t.warn kind span') := by
  refine parallel_of h.pos h.mode h.keywords h.headerPending ?_
  simp only [Session.warn, Array.map_push, h.warnings, Warning.moved, hspan]

theorem Parallel.goOn (h : s.Parallel n t) {m m' : Mode} (hmode : m.moved 0 = m'.moved n) :
    StepsParallel n (s.goOn m) (t.goOn m') :=
  ⟨parallel_of h.pos hmode h.keywords h.headerPending h.warnings, rfl⟩

theorem Parallel.proceed (h : s.Parallel n t) : StepsParallel n (s, .proceed) (t, .proceed) :=
  ⟨h, rfl⟩

theorem Parallel.emit (h : s.Parallel n t) (kind : TokenKind) {span span' : Span}
    (hspan : span.moved 0 = span'.moved n) :
    StepsParallel n (s, .emit ⟨kind, span⟩) (t, .emit ⟨kind, span'⟩) := by
  refine ⟨h, ?_⟩
  simp only [Step.moved, Token.moved, hspan]

theorem Parallel.fail (h : s.Parallel n t) {e e' : LexError} (herror : e.moved 0 = e'.moved n) :
    StepsParallel n (s, .fail e) (t, .fail e') := by
  refine ⟨h, ?_⟩
  simp only [Step.moved, herror]

theorem Parallel.endConstruct (h : s.Parallel n t) (kind : TokenKind) {start start' : Position}
    (hstart : start.moved 0 = start'.moved n) :
    StepsParallel n (s.endConstruct kind start) (t.endConstruct kind start') := by
  have hcode : Parallel n { s with mode := .code } { t with mode := .code } :=
    parallel_of h.pos rfl h.keywords h.headerPending h.warnings
  exact hcode.emit kind (Span.moved_mk hstart h.pos)

/-! ## Actions -/

theorem Parallel.actCode (h : s.Parallel n t) (rule : TokenRule) (lexeme : List UInt8) :
    StepsParallel n (s.actCode rule lexeme) (t.actCode rule lexeme) := by
  have hstop := Position.moved_shifted h.pos lexeme.length
  have hspan := Span.moved_mk h.pos hstop
  have hmoved := h.moveTo hstop
  cases rule with
  | blank => exact hmoved.proceed
  | newline => exact (h.moveTo hstop).proceed
  | lineDirective =>
    -- the line and the file that a directive gives are left out of what is compared
    have hbehind := Position.offset_of_moved hstop
    exact (h.moveTo (Position.moved_of_offset hbehind)).proceed
  | stringOpen | quotedOpen => exact hmoved.goOn (by simp [Mode.moved, OpenString.moved, hspan])
  | commentOpen => exact hmoved.goOn (by simp [Mode.moved, OpenComment.moved, hspan])
  | commentOpenAmbiguous =>
    exact (hmoved.warn _ hspan).goOn (by simp [Mode.moved, OpenComment.moved, hspan])
  | quotationOpen => exact hmoved.goOn (by simp [Mode.moved, OpenQuotation.moved, hspan])
  | strayClose =>
    have hstar := Position.moved_shifted h.pos 1
    exact ((h.moveTo hstar).warn _ hspan).emit _ (Span.moved_mk h.pos hstar)
  | word rule =>
    have hword := moved_wordStop rule hstop
    simp only [Session.actCode, h.keywords]
    split
    · exact (h.moveTo hword).emit _ (Span.moved_mk h.pos hword)
    · rename_i fault _
      exact (h.moveTo hword).fail (WordFault.moved_toError fault (Span.moved_mk h.pos hword))
  | endOfInput => exact hmoved.emit _ hspan

theorem Parallel.actHeader (h : s.Parallel n t) (rule : HeaderRule) (length : Nat) :
    StepsParallel n (s.actHeader rule length) (t.actHeader rule length) := by
  have hdecided : Parallel n { s with headerPending := false } { t with headerPending := false } :=
    parallel_of h.pos h.mode h.keywords rfl h.warnings
  have hstop := Position.moved_shifted h.pos length
  cases rule with
  | absent => exact hdecided.proceed
  | oneLine | threeLines => exact (hdecided.moveTo hstop).proceed

theorem Parallel.actComment (h : s.Parallel n t) {c d : OpenComment} (hc : c.moved 0 = d.moved n)
    (text : List UInt8) (rule : CommentRule) (lexeme : List UInt8) :
    StepsParallel n (s.actComment c text rule lexeme) (t.actComment d text rule lexeme) := by
  have hstop := Position.moved_shifted h.pos lexeme.length
  have hspan := Span.moved_mk h.pos hstop
  have hmoved := h.moveTo hstop
  have houter : c.outer.moved 0 = d.outer.moved n := congrArg OpenComment.outer hc
  have hinner : c.inner.map (Span.moved 0) = d.inner.map (Span.moved n) :=
    congrArg OpenComment.inner hc
  cases rule with
  | nestedOpen =>
    exact hmoved.goOn (by simp [Mode.moved, OpenComment.moved, houter, hinner, hspan])
  | close =>
    simp only [Session.actComment]
    cases hc' : c.inner with
    | nil =>
      have hd : d.inner = [] := by simpa [hc'] using hinner.symm
      rw [hd]
      exact hmoved.endConstruct _ (congrArg Span.start houter)
    | cons span inner =>
      rw [hc', List.map_cons] at hinner
      obtain ⟨span', inner', hd, -, hrest⟩ := List.map_eq_cons_iff.mp hinner.symm
      rw [hd]
      exact hmoved.goOn (by simp [Mode.moved, OpenComment.moved, houter, hrest])
  | stringOpen | quotedOpen =>
    exact hmoved.goOn (by simp [Mode.moved, OpenString.moved, hc, hspan])
  | char | plain => exact hmoved.goOn (by simp [Mode.moved, hc])
  | charNewline | newline => exact (h.moveTo hstop).goOn (by simp [Mode.moved, hc])
  | endOfInput =>
    refine hmoved.fail ?_
    simp [LexError.moved, LexError.unterminatedComment, Fault.moved, houter,
      OpenComment.depth_of_moved hc]

theorem moved_unterminated {o o' : OpenString} (ho : o.moved 0 = o'.moved n) :
    (unterminated o).moved 0 = (unterminated o').moved n := by
  have hopener : o.opener.moved 0 = o'.opener.moved n := congrArg OpenString.opener ho
  have henclosing :
      o.enclosing.map (OpenComment.moved 0) = o'.enclosing.map (OpenComment.moved n) :=
    congrArg OpenString.enclosing ho
  cases hc : o.enclosing with
  | none =>
    have hd : o'.enclosing = none := by simpa [hc] using henclosing.symm
    simp [unterminated, hc, hd, LexError.moved, LexError.unterminatedString, Fault.moved, hopener]
  | some c =>
    rw [hc, Option.map_some] at henclosing
    obtain ⟨d, hd, hmoved⟩ := Option.map_eq_some_iff.mp henclosing.symm
    have houter : d.outer.moved n = c.outer.moved 0 := congrArg OpenComment.outer hmoved
    simp [unterminated, hc, hd, LexError.moved, LexError.unterminatedStringInComment, Fault.moved,
      hopener, houter, OpenComment.depth_of_moved hmoved.symm]

theorem Parallel.closeString (h : s.Parallel n t) {o o' : OpenString}
    (ho : o.moved 0 = o'.moved n) (text terminator : List UInt8) :
    StepsParallel n (s.closeString o text terminator) (t.closeString o' text terminator) := by
  have hopener : o.opener.moved 0 = o'.opener.moved n := congrArg OpenString.opener ho
  have hdelimiter : o.delimiter = o'.delimiter := (congrArg OpenString.delimiter ho :)
  have henclosing :
      o.enclosing.map (OpenComment.moved 0) = o'.enclosing.map (OpenComment.moved n) :=
    congrArg OpenString.enclosing ho
  simp only [Session.closeString, hdelimiter]
  cases hc : o.enclosing with
  | none =>
    have hd : o'.enclosing = none := by simpa [hc] using henclosing.symm
    rw [hd]
    exact h.endConstruct _ (congrArg Span.start hopener)
  | some c =>
    rw [hc, Option.map_some] at henclosing
    obtain ⟨d, hd, hmoved⟩ := Option.map_eq_some_iff.mp henclosing.symm
    rw [hd]
    exact h.goOn (by simp [Mode.moved, hmoved])

theorem Parallel.actString (h : s.Parallel n t) {o o' : OpenString}
    (ho : o.moved 0 = o'.moved n) (text : List UInt8) (rule : StringRule) (lexeme : List UInt8) :
    StepsParallel n (s.actString o text rule lexeme) (t.actString o' text rule lexeme) := by
  have hstop := Position.moved_shifted h.pos lexeme.length
  have hspan := Span.moved_mk h.pos hstop
  have hmoved := h.moveTo hstop
  have hinComment : o.enclosing.isSome = o'.enclosing.isSome := by
    have henclosing := congrArg (fun o => o.enclosing.isSome) ho
    simpa [OpenString.moved] using henclosing
  have hgoOn : ∀ text', Mode.moved 0 (.string o text') = Mode.moved n (.string o' text') := by
    intro text'
    simp only [Mode.moved, ho]
  cases rule with
  | close => exact hmoved.closeString ho text lexeme
  | lineContinuation => exact (h.moveTo hstop).goOn (hgoOn _)
  | namedEscape | hexEscape | plain => exact hmoved.goOn (hgoOn _)
  | decimalEscape =>
    simp only [Session.actString, hinComment]
    split
    · exact hmoved.goOn (hgoOn _)
    · split
      · exact hmoved.goOn (hgoOn _)
      · refine hmoved.fail ?_
        simp [LexError.moved, LexError.illegalEscape, LexError.withContext, Fault.moved, hspan]
  | unknownEscape => exact (hmoved.warn _ hspan).goOn (hgoOn _)
  | newline =>
    simp only [Session.actString, hinComment]
    split
    · exact (hmoved.moveTo hstop).goOn (hgoOn _)
    · exact ((hmoved.warn _ hspan).moveTo hstop).goOn (hgoOn _)
  | endOfInput => exact hmoved.fail (moved_unterminated ho)

theorem Parallel.actQuoted (h : s.Parallel n t) {o o' : OpenString}
    (ho : o.moved 0 = o'.moved n) (id text : List UInt8) (rule : QuotedRule)
    (lexeme : List UInt8) :
    StepsParallel n (s.actQuoted o id text rule lexeme) (t.actQuoted o' id text rule lexeme) := by
  have hstop := Position.moved_shifted h.pos lexeme.length
  have hmoved := h.moveTo hstop
  have hgoOn : ∀ text', Mode.moved 0 (.string o text') = Mode.moved n (.string o' text') := by
    intro text'
    simp only [Mode.moved, ho]
  cases rule with
  | terminator =>
    simp only [Session.actQuoted]
    split
    · exact hmoved.closeString ho text lexeme
    · exact hmoved.goOn (hgoOn _)
  | newline => exact (h.moveTo hstop).goOn (hgoOn _)
  | plain => exact hmoved.goOn (hgoOn _)
  | endOfInput => exact hmoved.fail (moved_unterminated ho)

theorem Parallel.actQuotation (h : s.Parallel n t) {q q' : OpenQuotation}
    (hq : q.moved 0 = q'.moved n) (rule : QuotationRule) (length : Nat) :
    StepsParallel n (s.actQuotation q rule length) (t.actQuotation q' rule length) := by
  have hstop := Position.moved_shifted h.pos length
  have hmoved := h.moveTo hstop
  have houter : q.outer.moved 0 = q'.outer.moved n := congrArg OpenQuotation.outer hq
  have hinner : q.inner = q'.inner := (congrArg OpenQuotation.inner hq :)
  have hgoOn : ∀ inner, Mode.moved 0 (.quotation { q with inner }) =
      Mode.moved n (.quotation { q' with inner }) := by
    intro inner
    simp only [Mode.moved, OpenQuotation.moved, houter]
  cases rule with
  | nestedOpen =>
    simp only [Session.actQuotation, hinner]
    exact hmoved.goOn (hgoOn _)
  | close =>
    simp only [Session.actQuotation, hinner]
    split
    · exact hmoved.goOn (hgoOn _)
    · exact hmoved.endConstruct _ (congrArg Span.start houter)
  | newline => exact (h.moveTo hstop).goOn (by simp only [Mode.moved, hq])
  | plain => exact hmoved.goOn (by simp only [Mode.moved, hq])
  | endOfInput =>
    refine hmoved.fail ?_
    simp [LexError.moved, LexError.unterminatedQuotation, Fault.moved, houter]

/-! ## The step -/

theorem Parallel.onFound {ρ : Type} (h : s.Parallel n t) (verdict : Verdict ρ)
    {act act' : ρ → Nat → Session × Step}
    (hact : ∀ rule length, StepsParallel n (act rule length) (act' rule length)) :
    StepsParallel n (s.onFound verdict act) (t.onFound verdict act') := by
  cases verdict with
  | undecided => exact ⟨h, rfl⟩
  | found rule length => exact hact rule length

/-- On the same bytes parallel sessions take the same step. -/
theorem Parallel.stepOn (h : s.Parallel n t) (view : Lookahead) :
    StepsParallel n (s.stepOn view) (t.stepOn view) := by
  have hmode := h.mode
  cases hs : s.mode with
  | code =>
    have ht : t.mode = .code := by
      cases ht : t.mode <;> simp_all [Mode.moved]
    simp only [Session.stepOn, hs, ht, h.headerPending]
    split
    · exact h.onFound _ fun rule length => h.actHeader rule length
    · exact h.onFound _ fun rule length => h.actCode rule _
  | comment c text =>
    obtain ⟨d, ht, hc⟩ : ∃ d, t.mode = .comment d text ∧ c.moved 0 = d.moved n := by
      cases ht : t.mode <;> simp_all [Mode.moved]
    simp only [Session.stepOn, hs, ht]
    exact h.onFound _ fun rule length => h.actComment hc text rule _
  | string o text =>
    obtain ⟨o', ht, ho⟩ : ∃ o', t.mode = .string o' text ∧ o.moved 0 = o'.moved n := by
      cases ht : t.mode <;> simp_all [Mode.moved]
    have hdelimiter : o.delimiter = o'.delimiter := (congrArg OpenString.delimiter ho :)
    simp only [Session.stepOn, hs, ht, hdelimiter]
    split
    · exact h.onFound _ fun rule length => h.actString ho text rule _
    · exact h.onFound _ fun rule length => h.actQuoted ho _ text rule _
  | quotation q =>
    obtain ⟨q', ht, hq⟩ : ∃ q', t.mode = .quotation q' ∧ q.moved 0 = q'.moved n := by
      cases ht : t.mode <;> simp_all [Mode.moved]
    simp only [Session.stepOn, hs, ht]
    exact h.onFound _ fun rule length => h.actQuotation hq rule length

end Parallel

end Session

end StreamLexer
