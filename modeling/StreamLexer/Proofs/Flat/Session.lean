import StreamLexer.Proofs.Flat.Checked
import StreamLexer.Session.Step

/-!
# Sessions with flat state

A session keeps what it is in the middle of in its mode, each construct with the data it needs. Here
the same state is kept flat: a stack with the names of the open constructs, and beside it one field
for each thing that some construct needs. The steps set and reset the fields one by one, and nothing
else makes them fit together.

Every step is checked, and gives none where a check fails: a position before the held bytes, a
lexeme past their end, a part of a lexeme that is not there or not of the shape that its decoder
expects, a step back below zero, more open quotations than 32 bits can count. Where a field is empty
that a step needs, the step goes on with something else in its place; a strict step gives none there
too.
-/
namespace StreamLexer

/-- A construct that is open. -/
inductive Construct where
  | comment
  | string
  | quotedString
  | quotation
  deriving DecidableEq

/-- What is known of the token under construction. -/
structure Scratch where
  /-- The text of the string or the comment. -/
  buffer : List UInt8 := []
  /-- Where the token started. -/
  start : Option Position := none
  /-- The opener of the string. -/
  stringStart : Option Span := none
  /-- The `id` of a `{id|` string. -/
  delimiter : List UInt8 := []
  /-- The openers of the open comments, outermost first. -/
  commentStarts : List Span := []
  /-- The opener of the outermost quotation. -/
  quotationStart : Option Span := none
  /-- Number of open quotations. -/
  quotationDepth : Nat := 0

/-- A session with flat state. -/
structure FlatSession where
  window : Window
  pos : Position
  /-- The open constructs, outermost first. -/
  stack : List Construct := []
  scratch : Scratch := {}
  keywords : KeywordTable := {}
  headerPending : Bool
  warnings : Array Warning := #[]
  failure : Option LexError := none

/-! ## Checked access to the window -/

namespace Window

/-- What is held from an offset on, if nothing behind the offset has been released. -/
def lookahead? (w : Window) (offset : Nat) : Option Lookahead :=
  if w.base ≤ offset then some (w.lookahead offset) else none

/-- The bytes between two offsets, if these come in this order and the bytes are held. -/
def slice? (w : Window) (start stop : Nat) : Option (List UInt8) :=
  if w.base ≤ start ∧ start ≤ stop ∧ stop ≤ w.stop then some (w.slice start stop) else none

end Window

namespace FlatSession

/-! ## Input and warnings -/

/-- A session over a window, before its first step. -/
def ofWindow (config : Config) (window : Window) : FlatSession :=
  { window
    pos := Position.startOf config.fileName
    keywords := config.keywords
    headerPending := config.skipHeader }

/-- A session whose input will come in chunks. -/
def new (config : Config) : FlatSession :=
  ofWindow config {}

/-- A session over a whole source. -/
def ofSource (config : Config) (source : List UInt8) : FlatSession :=
  ofWindow config (.ofSource source)

/-- Hands over the next chunk, after what lies before the position has been released. -/
def feed (f : FlatSession) (chunk : List UInt8) : FlatSession :=
  { f with window := ((f.window.releaseBefore f.pos.offset).push chunk).1 }

/-- Says that the input has ended. -/
def finish (f : FlatSession) : FlatSession :=
  { f with window := f.window.close }

/-- Takes the warnings out of the session. -/
def takeWarnings (f : FlatSession) : FlatSession × List Warning :=
  ({ f with warnings := #[] }, f.warnings.toList)

/-! ## Changes that steps share -/

/-- Moves over the bytes of a lexeme. -/
def advance (f : FlatSession) (n : Nat) : FlatSession :=
  { f with pos := f.pos.shifted n }

/-- A line has ended; the next one starts at an offset. -/
def newLine (f : FlatSession) (bol : Nat) : FlatSession :=
  { f with pos := f.pos.addLines 1 bol }

/-- Records a warning. -/
def warn (f : FlatSession) (kind : WarningKind) (span : Span) : FlatSession :=
  { f with warnings := f.warnings.push ⟨kind, span⟩ }

/-- Bytes join the text of the token. -/
def store (f : FlatSession) (bytes : List UInt8) : FlatSession :=
  { f with scratch := { f.scratch with buffer := f.scratch.buffer ++ bytes } }

/-- A construct is opened inside the others. -/
def enter (f : FlatSession) (construct : Construct) : FlatSession :=
  { f with stack := f.stack ++ [construct] }

/-- The innermost construct is left. -/
def leave (f : FlatSession) : FlatSession :=
  { f with stack := f.stack.dropLast }

/-- Some comment is open. -/
def inComment (f : FlatSession) : Bool :=
  !f.scratch.commentStarts.isEmpty

/-- The offset of the byte before the position. -/
def offsetBefore? (f : FlatSession) : Option Nat :=
  predecessor? f.pos.offset

theorem offsetBefore?_advance (f : FlatSession) {n : Nat} (h : 1 ≤ n) :
    (f.advance n).offsetBefore? = some (f.pos.offset + n - 1) := by
  show predecessor? (f.pos.offset + n) = _
  exact if_pos (by omega)

/-- What a field holds. If it is empty, something else takes its place, unless the step is
strict. -/
def fieldOr {α : Type} (strict : Bool) (field : Option α) (other : α) : Option α :=
  match field with
  | some value => some value
  | none => if strict then none else some other

section Steps

variable (strict : Bool) (f : FlatSession)

/-- Ends the token under construction, which reaches up to the position. -/
def endToken (kind : TokenKind) : Option (FlatSession × Step) := do
  let start ← fieldOr strict f.scratch.start f.pos
  some ({ f with scratch := { f.scratch with start := none } }, .emit ⟨kind, ⟨start, f.pos⟩⟩)

/-! ## Source code -/

/-- Opens a string, one with a delimiter if there is one. -/
def openString (start : Position) (delimiter : Option (List UInt8)) : FlatSession :=
  let f := { f with
    scratch := { f.scratch with
      buffer := []
      stringStart := some ⟨start, f.pos⟩
      start := some start } }
  match delimiter with
  | some id => { f with scratch := { f.scratch with delimiter := id } }.enter .quotedString
  | none => f.enter .string

/-- Opens a comment outside every other. -/
def openComment (start : Position) : FlatSession :=
  { f with
    scratch := { f.scratch with
      buffer := []
      start := some start
      commentStarts := [⟨start, f.pos⟩] } }.enter .comment

/-- Opens a quotation outside every other. -/
def openQuotation (start : Position) : FlatSession :=
  { f with
    scratch := { f.scratch with
      quotationStart := some ⟨start, f.pos⟩
      quotationDepth := 1
      start := some start } }.enter .quotation

/-- After a lexeme that is a token of its own. The line end in a character literal comes before its
last byte. -/
def pastWord? (rule : WordRule) : Option FlatSession :=
  if rule = .charNewline then do
    let bol ← f.offsetBefore?
    some (f.newLine bol)
  else some f

/-- The action of a rule of source code. -/
def actCode (rule : TokenRule) (lexeme : List UInt8) : Option (FlatSession × Step) :=
  let start := f.pos
  let f := f.advance lexeme.length
  let span : Span := ⟨start, f.pos⟩
  match rule with
  | .blank => some (f, .proceed)
  | .newline => some (f.newLine f.pos.offset, .proceed)
  | .lineDirective =>
    let directive := LineDirective.ofLexeme lexeme
    let pos : Position :=
      { f.pos with
        file := directive.file.getD f.pos.file
        line := directive.line
        bol := f.pos.offset }
    some ({ f with pos }, .proceed)
  | .stringOpen => some (f.openString start none, .proceed)
  | .quotedOpen => do
    let delimiter ← Lexeme.inner? lexeme
    some (f.openString start (some delimiter), .proceed)
  | .commentOpen => some (f.openComment start, .proceed)
  | .commentOpenAmbiguous => some ((f.warn .commentStart span).openComment start, .proceed)
  | .quotationOpen => some (f.openQuotation start, .proceed)
  | .strayClose => do
    let offset ← f.offsetBefore?
    let f := { f.warn .commentNotEnd span with pos := { f.pos with offset } }
    some (f, .emit ⟨.punct .star, ⟨start, f.pos⟩⟩)
  | .word rule => do
    let f ← f.pastWord? rule
    let word ← rule.read? f.keywords lexeme
    match word with
    | .ok kind => some (f, .emit ⟨kind, ⟨start, f.pos⟩⟩)
    | .error fault => some (f, .fail (fault.toError ⟨start, f.pos⟩))
  | .endOfInput => some (f, .emit ⟨.eof, span⟩)

/-- The action of a header. -/
def actHeader (rule : HeaderRule) (lexeme : List UInt8) : Option (FlatSession × Step) :=
  let f := { f with headerPending := false }
  match rule with
  | .absent => some (f, .proceed)
  | _ =>
    let f := f.advance lexeme.length
    some ({ f with pos := f.pos.addLines rule.lines f.pos.offset }, .proceed)

/-! ## Comments -/

/-- The action of a rule of comments. -/
def actComment (rule : CommentRule) (lexeme : List UInt8) : Option (FlatSession × Step) :=
  let start := f.pos
  let f := f.advance lexeme.length
  let span : Span := ⟨start, f.pos⟩
  match rule with
  | .nestedOpen =>
    let scratch := { f.scratch with commentStarts := f.scratch.commentStarts ++ [span] }
    some ({ f with scratch }.store lexeme, .proceed)
  | .close =>
    if 1 < f.scratch.commentStarts.length then
      let scratch := { f.scratch with commentStarts := f.scratch.commentStarts.dropLast }
      some ({ f with scratch }.store lexeme, .proceed)
    else
      let text := f.scratch.buffer
      let scratch := { f.scratch with commentStarts := [], buffer := [] }
      { f with scratch }.leave.endToken strict (.comment (Latin1.decode text))
  | .stringOpen =>
    let scratch := { f.scratch with stringStart := some span }
    some (({ f with scratch }.store ['"'.toUInt8]).enter .string, .proceed)
  | .quotedOpen => do
    let delimiter ← Lexeme.inner? lexeme
    let scratch := { f.scratch with stringStart := some span, delimiter }
    some (({ f with scratch }.store lexeme).enter .quotedString, .proceed)
  | .char | .plain => some (f.store lexeme, .proceed)
  | .charNewline => do
    let bol ← f.offsetBefore?
    some ((f.store lexeme).newLine bol, .proceed)
  | .newline => some ((f.store lexeme).newLine f.pos.offset, .proceed)
  | .endOfInput => do
    let outermost ← fieldOr strict f.scratch.commentStarts.head? span
    some (f, .fail (.unterminatedComment outermost f.scratch.commentStarts.length))

/-! ## Strings -/

/-- Ends a string. In a comment its terminator joins the text of the comment. -/
def closeString (terminator : List UInt8) : Option (FlatSession × Step) :=
  let delimiter :=
    if f.stack.getLast? = some .quotedString then some (Latin1.decode f.scratch.delimiter) else none
  let f := { f.leave with scratch := { f.scratch with stringStart := none, delimiter := [] } }
  if f.inComment then some (f.store terminator, .proceed)
  else
    let text := f.scratch.buffer
    { f with scratch := { f.scratch with buffer := [] } }.endToken strict (.string text delimiter)

/-- The error for a string without an end, which is shown at its opener. -/
def unterminatedString (span : Span) : Option (FlatSession × Step) := do
  let opener ← fieldOr strict f.scratch.stringStart span
  some (f, .fail (.unterminatedString opener))

/-- The action of a rule of strings between double quotes. -/
def actString (rule : StringRule) (lexeme : List UInt8) : Option (FlatSession × Step) :=
  let start := f.pos
  let f := f.advance lexeme.length
  let span : Span := ⟨start, f.pos⟩
  match rule with
  | .close => f.closeString strict ['"'.toUInt8]
  | .lineContinuation =>
    let bol := match lexeme.findIdx? (· == '\n'.toUInt8) with
      | some i => start.offset + i + 1
      | none => f.pos.offset
    some (f.newLine bol, .proceed)
  | .namedEscape => do
    let letter ← lexeme[1]?
    some (f.store [ByteEscape.named letter], .proceed)
  | .decimalEscape => do
    let digits ← Lexeme.digits? Byte.isDecimal lexeme 1 4
    match ByteEscape.decimal? digits with
    | some byte => some (f.store [byte], .proceed)
    | none =>
      if f.inComment then some (f.store ['x'.toUInt8], .proceed)
      else
        some (f, .fail
          ((LexError.illegalEscape span (Latin1.decode lexeme)).withContext .insideString))
  | .hexEscape => do
    let digits ← Lexeme.digits? Byte.isHex lexeme 2 4
    some (f.store [ByteEscape.hex digits], .proceed)
  | .unknownEscape => some ((f.warn .illegalBackslash span).store lexeme, .proceed)
  | .newline =>
    let f := if f.inComment then f else f.warn .eolInString span
    some ((f.store lexeme).newLine f.pos.offset, .proceed)
  | .plain => some (f.store lexeme, .proceed)
  | .endOfInput => f.unterminatedString strict span

/-- The action of a rule of strings with a delimiter. -/
def actQuoted (rule : QuotedRule) (lexeme : List UInt8) : Option (FlatSession × Step) :=
  let start := f.pos
  let f := f.advance lexeme.length
  match rule with
  | .terminator => do
    let id ← Lexeme.inner? lexeme
    if id = f.scratch.delimiter then f.closeString strict lexeme
    else some (f.store lexeme, .proceed)
  | .newline => some ((f.store lexeme).newLine f.pos.offset, .proceed)
  | .plain => some (f.store lexeme, .proceed)
  | .endOfInput => f.unterminatedString strict ⟨start, f.pos⟩

/-! ## Quotations -/

/-- The action of a rule of quotations. -/
def actQuotation (rule : QuotationRule) (lexeme : List UInt8) : Option (FlatSession × Step) :=
  let start := f.pos
  let f := f.advance lexeme.length
  match rule with
  | .nestedOpen =>
    let depth := f.scratch.quotationDepth + 1
    if depth < 2 ^ 32 then
      some ({ f with scratch := { f.scratch with quotationDepth := depth } }, .proceed)
    else none
  | .close =>
    let depth := f.scratch.quotationDepth - 1
    let f := { f with scratch := { f.scratch with quotationDepth := depth } }
    if depth = 0 then
      { f with scratch := { f.scratch with quotationStart := none } }.leave.endToken strict
        .quotation
    else some (f, .proceed)
  | .newline => some (f.newLine f.pos.offset, .proceed)
  | .plain => some (f, .proceed)
  | .endOfInput => do
    let outermost ← fieldOr strict f.scratch.quotationStart ⟨start, f.pos⟩
    some (f, .fail (.unterminatedQuotation outermost))

/-! ## The step -/

/-- Acts on the lexeme that a scan finds at the position, which has to be held. -/
def onLexeme {ρ : Type} (scan : Lookahead → Verdict ρ)
    (act : ρ → List UInt8 → Option (FlatSession × Step)) : Option (FlatSession × Step) := do
  let view ← f.window.lookahead? f.pos.offset
  match scan view with
  | .undecided => some (f, .starved)
  | .found rule n =>
    let lexeme ← f.window.slice? f.pos.offset (f.pos.offset + n)
    act rule lexeme

theorem onLexeme_found {ρ : Type} {f : FlatSession} {scan : Lookahead → Verdict ρ}
    {act : ρ → List UInt8 → Option (FlatSession × Step)} {view : Lookahead} {rule : ρ} {n : Nat}
    {lexeme : List UInt8} (hview : f.window.lookahead? f.pos.offset = some view)
    (hscan : scan view = .found rule n)
    (hlexeme : f.window.slice? f.pos.offset (f.pos.offset + n) = some lexeme) :
    f.onLexeme scan act = act rule lexeme := by
  simp [onLexeme, hview, hscan, hlexeme]

/-- Takes the next lexeme of the innermost construct. -/
def step : Option (FlatSession × Step) :=
  match f.stack.getLast? with
  | none =>
    if f.headerPending then f.onLexeme HeaderRule.scan f.actHeader
    else f.onLexeme TokenRule.scan f.actCode
  | some .comment => f.onLexeme CommentRule.scan (f.actComment strict)
  | some .string => f.onLexeme StringRule.scan (f.actString strict)
  | some .quotedString => f.onLexeme QuotedRule.scan (f.actQuoted strict)
  | some .quotation => f.onLexeme QuotationRule.scan (f.actQuotation strict)

end Steps

/-- One more quotation is about to be opened than 32 bits can count. -/
def NestsTooDeep (f : FlatSession) : Prop :=
  f.stack = [.quotation] ∧ 2 ^ 32 ≤ f.scratch.quotationDepth + 1 ∧
    ∃ n, QuotationRule.scan (f.window.lookahead f.pos.offset) = .found .nestedOpen n

/-! ## After an error -/

/-- A string without an end inside a comment is an error of the outermost comment. -/
def attributed (f : FlatSession) (e : LexError) : LexError :=
  match e.fault, f.scratch.commentStarts.head? with
  | .unterminatedString, some outermost =>
    .unterminatedStringInComment outermost e.span f.scratch.commentStarts.length
  | _, _ => e

/-- Ends the session with an error. Whatever was open is given up. -/
def halt (f : FlatSession) (e : LexError) : FlatSession :=
  { f with stack := [], scratch := {}, failure := some e }

/-- The session after a step: an error ends it. -/
def settled (f : FlatSession) : Step → FlatSession
  | .fail e => f.halt (f.attributed e)
  | _ => f

end FlatSession

end StreamLexer
