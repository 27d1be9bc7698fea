import StreamLexer.Diagnostic.Basic
import StreamLexer.Session.Mode
import StreamLexer.Source.Window
import StreamLexer.Token.KeywordTable

/-!
The state of a lexing session over one input stream: what is held of the input, where the session
stands, what it is in the middle of, and what it has to report. A step commits a whole lexeme or
changes nothing, so a session can be left and taken up again between any two of them.
-/
namespace StreamLexer

/-- Settings of a session. -/
structure Config where
  /-- Logical file name of the first positions. -/
  fileName : String := "_none_"
  keywords : KeywordTable := {}
  /-- Pass over a `#!` header at the very start. -/
  skipHeader : Bool := true

/-- A lexing session. -/
structure Session where
  window : Window
  /-- The next byte that no step has committed. -/
  pos : Position
  mode : Mode := .code
  keywords : KeywordTable := {}
  /-- Whether there is a header is still to be decided. -/
  headerPending : Bool
  warnings : Array Warning := #[]
  /-- The error that ended the session. -/
  failure : Option LexError := none

namespace Session

/-- A session over a window, before its first step. -/
def ofWindow (config : Config) (window : Window) : Session :=
  { window
    pos := Position.startOf config.fileName
    keywords := config.keywords
    headerPending := config.skipHeader }

/-- A session whose input will come in chunks. -/
def new (config : Config) : Session :=
  ofWindow config {}

/-- A session over a whole source. -/
def ofSource (config : Config) (source : List UInt8) : Session :=
  ofWindow config (.ofSource source)

/-! ## Input -/

/-- Hands over the next chunk. What lies before the position is released first, even where the chunk
comes after the end of input and is ignored. -/
def feed (s : Session) (chunk : List UInt8) : Session :=
  { s with window := ((s.window.releaseBefore s.pos.offset).push chunk).1 }

/-- Says that the input has ended. -/
def finish (s : Session) : Session :=
  { s with window := s.window.close }

/-- Hands over a chunk, or the end of input where there is none. -/
def supply (s : Session) : Option (List UInt8) → Session
  | some chunk => s.feed chunk
  | none => s.finish

/-- The end of input is known. -/
def isComplete (s : Session) : Bool :=
  s.window.closed

/-! ## Inspection -/

/-- Number of open comments. -/
def commentDepth (s : Session) : Nat :=
  s.mode.commentDepth

/-- Takes the warnings out of the session. -/
def takeWarnings (s : Session) : Session × List Warning :=
  ({ s with warnings := #[] }, s.warnings.toList)

/-- The session in debug output. -/
def describe (s : Session) : String :=
  "Lexer \x7b pos: " ++ s.pos.describe ++
    ", modes: [" ++ ", ".intercalate s.mode.names ++
    "], buffered: " ++ toString s.window.base ++ ".." ++ toString s.window.stop ++
    ", complete: " ++ toString s.window.closed ++
    ", halted: " ++ toString s.failure.isSome ++ ", .. \x7d"

/-! ## Changes that steps share -/

/-- What is held from the position on. -/
def lookahead (s : Session) : Lookahead :=
  s.window.lookahead s.pos.offset

/-- Records a warning. -/
def warn (s : Session) (kind : WarningKind) (span : Span) : Session :=
  { s with warnings := s.warnings.push ⟨kind, span⟩ }

/-- Ends the session with an error. Whatever was open is given up. -/
def halt (s : Session) (e : LexError) : Session :=
  { s with mode := .code, failure := some e }

/-- Bytes between the position and the end of what is held. -/
def remaining (s : Session) : Nat :=
  s.window.stop - s.pos.offset

/-- A bound on the number of steps that can be committed without more input: each takes a byte, but
for the one that decides about the header. -/
def weight (s : Session) : Nat :=
  s.remaining + s.headerPending.toNat

end Session

end StreamLexer
