import StreamLexer.Text.Escape
import StreamLexer.Token.Kind

/-!
Warnings and errors. Warnings never change the tokens; a session collects them on the side. An error
says where it is, what is wrong, which part of the language was being read, and how it may be
mended. Every error ends the session that raised it.
-/
namespace StreamLexer

/-! ## Warnings -/

/-- What a warning is about. -/
inductive WarningKind where
  /-- `(*)` opens a comment. -/
  | commentStart
  /-- `*)` outside every comment. -/
  | commentNotEnd
  /-- An unknown escape in a string, which stays as it is. -/
  | illegalBackslash
  /-- A line end in a string. -/
  | eolInString
  deriving DecidableEq

/-- The warning in words. -/
def WarningKind.message : WarningKind → String
  | .commentStart => "this is the start of a comment"
  | .commentNotEnd => "this is not the end of a comment"
  | .illegalBackslash => "illegal backslash escape in string"
  | .eolInString => "unescaped end-of-line in a string constant (non-portable code)"

/-- A warning with its place. -/
structure Warning where
  kind : WarningKind
  span : Span
  deriving DecidableEq

/-- The warning with its place, in words. -/
def Warning.display (w : Warning) : String :=
  s!"{w.span.display}: warning: {w.kind.message}"

/-! ## Errors -/

/-- What is wrong. -/
inductive Fault where
  /-- A byte that starts no lexeme. -/
  | illegalCharacter (byte : UInt8)
  /-- An unknown or too large escape, as written. -/
  | illegalEscape (escape : String)
  | unterminatedComment
  /-- A string or a quotation without an end. -/
  | unterminatedString
  /-- A string without an end inside a comment; the error itself points at the comment. -/
  | unterminatedStringInComment (stringStart : Span)
  /-- A reserved word as the name of a label. -/
  | keywordAsLabel (name : String)
  /-- An integer out of the range of its type. -/
  | literalOverflow (type : IntType)
  deriving DecidableEq

/-- Which part of the language was being read. -/
inductive FaultContext where
  | topLevel
  | insideComment (depth : Nat)
  | insideString
  | insideQuotation
  | numberLiteral
  | charLiteral
  deriving DecidableEq

/-- A way to mend an error; the lowest number is the most likely one. -/
structure Suggestion where
  message : String
  priority : Nat
  deriving DecidableEq

/-- A lexical error. -/
structure LexError where
  span : Span
  fault : Fault
  context : FaultContext
  suggestions : List Suggestion
  deriving DecidableEq

/-- The fault in words. -/
def Fault.message : Fault → String
  | .illegalCharacter byte => s!"illegal character ({Escape.ascii [byte]})"
  | .illegalEscape escape => s!"illegal backslash escape in string or character ({escape})"
  | .unterminatedComment => "comment not terminated"
  | .unterminatedString => "string literal not terminated"
  | .unterminatedStringInComment _ => "this comment contains an unterminated string literal"
  | .keywordAsLabel name => s!"`{name}` is a keyword, it cannot be used as label name"
  | .literalOverflow type =>
    s!"integer literal exceeds the range of representable integers of type {type.display}"

namespace LexError

/-- The error in words. -/
def message (e : LexError) : String :=
  e.fault.message

/-- A byte that starts no lexeme. -/
def illegalCharacter (span : Span) (byte : UInt8) : LexError :=
  ⟨span, .illegalCharacter byte, .topLevel, []⟩

/-- An escape that denotes nothing. -/
def illegalEscape (span : Span) (escape : String) : LexError :=
  ⟨span, .illegalEscape escape, .charLiteral,
    [⟨"valid escapes are \\\\, \\', \\\", \\n, \\t, \\b, \\r, \\ , \\ddd (up to \\255) and \\xhh",
      0⟩]⟩

/-- A comment without an end, shown at its outermost opener. -/
def unterminatedComment (span : Span) (depth : Nat) : LexError :=
  ⟨span, .unterminatedComment, .insideComment depth, [⟨"add closing `*)`", 0⟩]⟩

/-- A string without an end, shown at its opener. -/
def unterminatedString (span : Span) : LexError :=
  ⟨span, .unterminatedString, .insideString, [⟨"add closing `\"`", 0⟩]⟩

/-- A quotation without an end, shown at its outermost opener. -/
def unterminatedQuotation (span : Span) : LexError :=
  ⟨span, .unterminatedString, .insideQuotation, [⟨"add closing `>>`", 0⟩]⟩

/-- A string without an end inside a comment, shown at the outermost opener of the comment. -/
def unterminatedStringInComment (commentStart stringStart : Span) (depth : Nat) : LexError :=
  ⟨commentStart, .unterminatedStringInComment stringStart, .insideComment depth,
    [⟨"close the string literal", 0⟩, ⟨"a `\"` inside a comment starts a string", 1⟩]⟩

/-- A reserved word as the name of a label. -/
def keywordAsLabel (span : Span) (name : String) : LexError :=
  ⟨span, .keywordAsLabel name, .topLevel, [⟨s!"rename the label, for example `{name}_`", 0⟩]⟩

/-- An integer out of the range of its type. A wider type is suggested where there is one. -/
def literalOverflow (span : Span) (type : IntType) : LexError :=
  ⟨span, .literalOverflow type, .numberLiteral,
    match type with
    | .int | .int32 => [⟨"use the `L` suffix for a 64-bit literal", 1⟩]
    | .int64 | .native => []⟩

/-- The same error in another context. -/
def withContext (e : LexError) (context : FaultContext) : LexError :=
  { e with context }

/-- The same error with one more suggestion. -/
def withSuggestion (e : LexError) (suggestion : Suggestion) : LexError :=
  { e with suggestions := e.suggestions ++ [suggestion] }

end LexError

end StreamLexer
