import StreamLexer.Literal.Value
import StreamLexer.Scan.BodyRule
import StreamLexer.Session.State
import StreamLexer.Session.Word

/-!
One step of a session: the scan of the mode that it is in, then the action of the rule that matched.
A scan that cannot decide changes nothing.
-/
namespace StreamLexer

/-- The outcome of a step. -/
inductive Step where
  /-- A lexeme was committed that makes no token yet. -/
  | proceed
  | emit (token : Token)
  | fail (error : LexError)
  /-- Nothing can be decided without more input. -/
  | starved

namespace Session

/-- Stands at another position. -/
def moveTo (s : Session) (pos : Position) : Session :=
  { s with pos }

/-- Goes on in a mode. -/
def goOn (s : Session) (mode : Mode) : Session × Step :=
  ({ s with mode }, .proceed)

/-- Ends the construct that is open with its token, which reaches up to the position. -/
def endConstruct (s : Session) (kind : TokenKind) (start : Position) : Session × Step :=
  ({ s with mode := .code }, .emit ⟨kind, ⟨start, s.pos⟩⟩)

/-- The end of a line at a position: the next line starts there. -/
def lineEnded (p : Position) : Position :=
  p.addLines 1 p.offset

/-- The end of a line inside a character literal, whose last byte is a quote: the next line starts
before that byte. -/
def lineEndedInChar (p : Position) : Position :=
  p.addLines 1 (p.offset - 1)

/-! ## Source code -/

/-- The position after a lexeme that is a token of its own. -/
def wordStop (rule : WordRule) (stop : Position) : Position :=
  if rule = .charNewline then lineEndedInChar stop else stop

/-- The action of a rule of source code. For a stray `*)` only the `*` is taken; the `)` is read
again. -/
def actCode (s : Session) (rule : TokenRule) (lexeme : List UInt8) : Session × Step :=
  let start := s.pos
  let stop := start.shifted lexeme.length
  let span : Span := ⟨start, stop⟩
  match rule with
  | .blank => (s.moveTo stop, .proceed)
  | .newline => (s.moveTo (lineEnded stop), .proceed)
  | .lineDirective =>
    let directive := LineDirective.ofLexeme lexeme
    let pos : Position := ⟨directive.file.getD stop.file, directive.line, stop.offset, stop.offset⟩
    (s.moveTo pos, .proceed)
  | .stringOpen => (s.moveTo stop).goOn (.string ⟨span, none, none⟩ [])
  | .quotedOpen => (s.moveTo stop).goOn (.string ⟨span, some (Lexeme.inner lexeme), none⟩ [])
  | .commentOpen => (s.moveTo stop).goOn (.comment { outer := span } [])
  | .commentOpenAmbiguous =>
    ((s.moveTo stop).warn .commentStart span).goOn (.comment { outer := span } [])
  | .quotationOpen => (s.moveTo stop).goOn (.quotation { outer := span })
  | .strayClose =>
    let stop := start.shifted 1
    ((s.moveTo stop).warn .commentNotEnd span, .emit ⟨.punct .star, ⟨start, stop⟩⟩)
  | .word rule =>
    let stop := wordStop rule stop
    match rule.read s.keywords lexeme with
    | .ok kind => (s.moveTo stop, .emit ⟨kind, ⟨start, stop⟩⟩)
    | .error fault => (s.moveTo stop, .fail (fault.toError ⟨start, stop⟩))
  | .endOfInput => (s.moveTo stop, .emit ⟨.eof, span⟩)

/-- The action of a header. -/
def actHeader (s : Session) (rule : HeaderRule) (length : Nat) : Session × Step :=
  let s := { s with headerPending := false }
  match rule with
  | .absent => (s, .proceed)
  | _ =>
    let stop := s.pos.shifted length
    (s.moveTo (stop.addLines rule.lines stop.offset), .proceed)

/-! ## Comments -/

/-- The action of a rule of comments. -/
def actComment (s : Session) (c : OpenComment) (text : List UInt8) (rule : CommentRule)
    (lexeme : List UInt8) : Session × Step :=
  let stop := s.pos.shifted lexeme.length
  let span : Span := ⟨s.pos, stop⟩
  let s := s.moveTo stop
  let stored := lexeme.reverse ++ text
  match rule with
  | .nestedOpen => s.goOn (.comment { c with inner := span :: c.inner } stored)
  | .close =>
    match c.inner with
    | _ :: inner => s.goOn (.comment { c with inner } stored)
    | [] => s.endConstruct (.comment (Latin1.decode text.reverse)) c.outer.start
  | .stringOpen => s.goOn (.string ⟨span, none, some c⟩ stored)
  | .quotedOpen => s.goOn (.string ⟨span, some (Lexeme.inner lexeme), some c⟩ stored)
  | .char | .plain => s.goOn (.comment c stored)
  | .charNewline => (s.moveTo (lineEndedInChar stop)).goOn (.comment c stored)
  | .newline => (s.moveTo (lineEnded stop)).goOn (.comment c stored)
  | .endOfInput => (s, .fail (.unterminatedComment c.outer c.depth))

/-! ## Strings -/

/-- The error for a string without an end. -/
def unterminated (o : OpenString) : LexError :=
  match o.enclosing with
  | some c => .unterminatedStringInComment c.outer o.opener c.depth
  | none => .unterminatedString o.opener

/-- Ends a string. In a comment its terminator joins the text of the comment. -/
def closeString (s : Session) (o : OpenString) (text terminator : List UInt8) : Session × Step :=
  match o.enclosing with
  | some c => s.goOn (.comment c (terminator.reverse ++ text))
  | none => s.endConstruct (.string text.reverse (o.delimiter.map Latin1.decode)) o.opener.start

/-- The action of a rule of strings between double quotes. -/
def actString (s : Session) (o : OpenString) (text : List UInt8) (rule : StringRule)
    (lexeme : List UInt8) : Session × Step :=
  let start := s.pos
  let stop := start.shifted lexeme.length
  let span : Span := ⟨start, stop⟩
  let s := s.moveTo stop
  match rule with
  | .close => s.closeString o text lexeme
  | .lineContinuation =>
    let lineStart := start.offset + lexeme.findIdx (· == '\n'.toUInt8) + 1
    (s.moveTo (stop.addLines 1 lineStart)).goOn (.string o text)
  | .namedEscape => s.goOn (.string o (ByteEscape.named ((lexeme.drop 1).headD 0) :: text))
  | .decimalEscape =>
    match ByteEscape.decimal? (lexeme.drop 1) with
    | some byte => s.goOn (.string o (byte :: text))
    | none =>
      if o.enclosing.isSome then s.goOn (.string o ('x'.toUInt8 :: text))
      else
        (s, .fail ((LexError.illegalEscape span (Latin1.decode lexeme)).withContext .insideString))
  | .hexEscape => s.goOn (.string o (ByteEscape.hex (lexeme.drop 2) :: text))
  | .unknownEscape => (s.warn .illegalBackslash span).goOn (.string o (lexeme.reverse ++ text))
  | .newline =>
    let s := if o.enclosing.isSome then s else s.warn .eolInString span
    (s.moveTo (lineEnded stop)).goOn (.string o (lexeme.reverse ++ text))
  | .plain => s.goOn (.string o (lexeme.reverse ++ text))
  | .endOfInput => (s, .fail (unterminated o))

/-- The action of a rule of strings with the delimiter `id`. -/
def actQuoted (s : Session) (o : OpenString) (id text : List UInt8) (rule : QuotedRule)
    (lexeme : List UInt8) : Session × Step :=
  let stop := s.pos.shifted lexeme.length
  let s := s.moveTo stop
  let stored := lexeme.reverse ++ text
  match rule with
  | .terminator =>
    if Lexeme.inner lexeme = id then s.closeString o text lexeme else s.goOn (.string o stored)
  | .newline => (s.moveTo (lineEnded stop)).goOn (.string o stored)
  | .plain => s.goOn (.string o stored)
  | .endOfInput => (s, .fail (unterminated o))

/-! ## Quotations -/

/-- The action of a rule of quotations. -/
def actQuotation (s : Session) (q : OpenQuotation) (rule : QuotationRule) (length : Nat) :
    Session × Step :=
  let stop := s.pos.shifted length
  let s := s.moveTo stop
  match rule with
  | .nestedOpen => s.goOn (.quotation { q with inner := q.inner + 1 })
  | .close =>
    match q.inner with
    | inner + 1 => s.goOn (.quotation { q with inner })
    | 0 => s.endConstruct .quotation q.outer.start
  | .newline => (s.moveTo (lineEnded stop)).goOn (.quotation q)
  | .plain => s.goOn (.quotation q)
  | .endOfInput => (s, .fail (.unterminatedQuotation q.outer))

/-! ## The step -/

/-- Acts on a verdict, given the action for a rule and its length. -/
def onFound {ρ : Type} (s : Session) (verdict : Verdict ρ)
    (act : ρ → Nat → Session × Step) : Session × Step :=
  match verdict with
  | .undecided => (s, .starved)
  | .found rule length => act rule length

/-- Takes the next lexeme of the mode from what is held. -/
def stepOn (s : Session) (view : Lookahead) : Session × Step :=
  match s.mode with
  | .code =>
    if s.headerPending then s.onFound (HeaderRule.scan view) s.actHeader
    else s.onFound (TokenRule.scan view) fun rule n => s.actCode rule (view.bytes.take n)
  | .comment c text =>
    s.onFound (CommentRule.scan view) fun rule n => s.actComment c text rule (view.bytes.take n)
  | .string o text =>
    match o.delimiter with
    | none =>
      s.onFound (StringRule.scan view) fun rule n => s.actString o text rule (view.bytes.take n)
    | some id =>
      s.onFound (QuotedRule.scan view) fun rule n => s.actQuoted o id text rule (view.bytes.take n)
  | .quotation q => s.onFound (QuotationRule.scan view) fun rule n => s.actQuotation q rule n

/-- Takes the next lexeme of the mode. -/
def step (s : Session) : Session × Step :=
  s.stepOn s.lookahead

end Session

end StreamLexer
