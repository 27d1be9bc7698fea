import StreamLexer.Byte.Class
import StreamLexer.Diagnostic.Basic

/-!
Reports: what is shown to the user for an error or a warning, and where in the source it points. How
a report is drawn is not decided here.

A source is shown as UTF-8 text if its bytes are that, and as Latin-1 text otherwise. Reports point
at physical places. Where a diagnostic belongs to another file by its logical position, a note says
so.
-/
namespace StreamLexer

/-- How the bytes of a source are shown as text. -/
inductive Encoding where
  | utf8
  | latin1
  deriving DecidableEq

/-- A source as reports show it. -/
structure SourceText where
  /-- The name of the source in reports. -/
  id : String
  encoding : Encoding
  chars : List Char

/-- A marked place in a report, with the words that stand at it. -/
structure ReportLabel where
  span : Span
  message : Option String
  deriving DecidableEq

/-- How grave a report is. -/
inductive Severity where
  | error
  | warning
  deriving DecidableEq

/-- The severity as a heading. -/
def Severity.heading : Severity → String
  | .error => "Error"
  | .warning => "Warning"

/-- The contents of a report. -/
structure Report where
  severity : Severity
  message : String
  /-- The offset that the report points at. -/
  offset : Nat
  /-- The marked places, the main one first. -/
  labels : List ReportLabel
  note : Option String := none
  help : Option String := none
  deriving DecidableEq

/-- What a report says, after how grave it is. -/
def Report.title (r : Report) : String :=
  s!"{r.severity.heading}: {r.message}"

/-- The first line of a report. An illegal escape may bring a newline into the message. -/
def Report.heading (r : Report) : String :=
  String.ofList (r.title.toList.takeWhile (· != '\n'))

namespace SourceText

/-- A source as UTF-8 text if it is that, else as Latin-1 text. -/
def ofBytes (id : String) (bytes : List UInt8) : SourceText :=
  match String.fromUTF8? bytes.toByteArray with
  | some text => ⟨id, .utf8, text.toList⟩
  | none => ⟨id, .latin1, bytes.map Latin1.char⟩

/-! ## Places -/

/-- The bytes that a character of the source takes. -/
def width (t : SourceText) (c : Char) : Nat :=
  match t.encoding with
  | .utf8 => c.utf8Size
  | .latin1 => 1

/-- The characters that end a line. -/
def isLineEnd (c : Char) : Bool :=
  ['\n', '\r', '\x0b', '\x0c', '\u0085', '\u2028', '\u2029'].contains c

/-- The line ends after `c`, before `rest`: a newline after a carriage return belongs to it, and
nothing starts a new line at the end of the source. -/
def endsLine (c : Char) (rest : List Char) : Bool :=
  isLineEnd c && !rest.isEmpty && !(c == '\r' && rest.head? == some '\n')

/-- Line and column of an offset into `chars`, which start at the given line and column; none past
the end. -/
def locateFrom (width : Char → Nat) (line column : Nat) : List Char → Nat → Option (Nat × Nat)
  | _, 0 => some (line, column)
  | [], _ + 1 => none
  | c :: rest, offset + 1 =>
    if endsLine c rest then locateFrom width (line + 1) 1 rest (offset + 1 - width c)
    else locateFrom width line (column + 1) rest (offset + 1 - width c)

/-- Line and column of an offset, both counted from one, the column in characters. An empty source
has no lines. -/
def locate? (t : SourceText) (offset : Nat) : Option (Nat × Nat) :=
  if t.chars.isEmpty then none else locateFrom t.width 1 1 t.chars offset

/-- The last offset of a span. An empty span is taken to be at its start. -/
def lastOffset (span : Span) : Nat :=
  max span.start.offset (span.stop.offset - 1)

/-- A mark belongs to the source if its first and its last offset are in it. -/
def holds (t : SourceText) (l : ReportLabel) : Bool :=
  (t.locate? l.span.start.offset).isSome && (t.locate? (lastOffset l.span)).isSome

/-- A mark is drawn if it belongs to the source and does not end past it. -/
def draws (t : SourceText) (l : ReportLabel) : Bool :=
  t.holds l && (t.locate? l.span.stop.offset).isSome

/-- Where a report points, as `id:line:column`; none if no mark of it belongs to the source. -/
def place? (t : SourceText) (r : Report) : Option String :=
  if r.labels.any t.holds then
    match t.locate? r.offset with
    | some (line, column) => some s!"{t.id}:{line}:{column}"
    | none => some s!"{t.id}:?:?"
  else none

/-- The words at the marks that are drawn, in order. -/
def words (t : SourceText) (r : Report) : List String :=
  (r.labels.filter t.draws).filterMap (·.message)

/-! ## Reports for diagnostics -/

/-- Says which logical place a span has, if its file is not the source shown. -/
def logicalNote? (t : SourceText) (span : Span) : Option String :=
  if span.start.file = t.id then none else some s!"reported as {span.display}"

/-- The words at the main place of an error. -/
def primaryLabel : Fault → String
  | .illegalCharacter _ => "not valid here"
  | .illegalEscape _ => "unknown escape"
  | .unterminatedComment | .unterminatedStringInComment _ => "comment opened here"
  | .unterminatedString => "opened here"
  | .keywordAsLabel _ => "reserved word"
  | .literalOverflow _ => "out of range"

/-- The part of the language that an error arose in, where that is worth saying. -/
def contextNote? : FaultContext → Option String
  | .topLevel | .numberLiteral => none
  | .insideComment 1 => some "inside a comment"
  | .insideComment depth => some s!"inside {depth} nested comments"
  | .insideString => some "inside a string literal"
  | .insideQuotation => some "inside a quotation"
  | .charLiteral => some "in a character literal"

/-- The most likely suggestion; of equally likely ones the first. -/
def bestSuggestion? (suggestions : List Suggestion) : Option Suggestion :=
  suggestions.foldl (fun best s =>
    match best with
    | some b => if s.priority < b.priority then some s else some b
    | none => some s) none

/-- The report of an error. The note on its logical place stands instead of that on its context. -/
def errorReport (t : SourceText) (e : LexError) : Report :=
  let secondary : List ReportLabel := match e.fault with
    | .unterminatedStringInComment start => [⟨start, some "string literal starts here"⟩]
    | _ => []
  { severity := .error
    message := e.message
    offset := e.span.start.offset
    labels := ⟨e.span, some (primaryLabel e.fault)⟩ :: secondary
    note := (t.logicalNote? e.span).or (contextNote? e.context)
    help := (bestSuggestion? e.suggestions).map (·.message) }

/-- The report of a warning. -/
def warningReport (t : SourceText) (w : Warning) : Report :=
  { severity := .warning
    message := w.kind.message
    offset := w.span.start.offset
    labels := [⟨w.span, none⟩]
    note := t.logicalNote? w.span }

/-- The reports of warnings and perhaps an error, in this order. -/
def reports (t : SourceText) (warnings : List Warning) (error : Option LexError) : List Report :=
  warnings.map t.warningReport ++ error.toList.map t.errorReport

end SourceText

end StreamLexer
