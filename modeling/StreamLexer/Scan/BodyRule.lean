import StreamLexer.Scan.TokenRule

/-!
The rules inside comments, strings, quoted strings and quotations, and of the header line, with the
scan for each.

Bytes that start no rule of a body are plain. A run of them is taken as far as it is held, without
waiting for its end: cutting such a run in two changes nothing about what it means.
-/
namespace StreamLexer

/-! ## Comments -/

/-- A rule inside a comment. -/
inductive CommentRule where
  /-- `(*` -/
  | nestedOpen
  /-- `*)` -/
  | close
  | stringOpen
  /-- `{id|` -/
  | quotedOpen
  /-- A character literal, or two quotes; a quote mark in it opens no string. -/
  | char
  /-- A line end between quotes. -/
  | charNewline
  | newline
  /-- Plain content. -/
  | plain
  | endOfInput
  deriving DecidableEq

namespace Matcher

/-- The rule of a form of character literals in comments. -/
def commentCharRule : CharForm → CommentRule
  | .newline => .charNewline
  | _ => .char

/-- What starts with a single quote in a comment. -/
def commentQuote : Matcher CommentRule := do
  if ← isAt 1 '\'' then take .char 2
  else takeOr .plain ((← charLiteral).map fun literal => (commentCharRule literal.1, literal.2))

/-- The lexeme of a comment that starts with a byte. -/
def comment (b : UInt8) : Matcher CommentRule :=
  match Char.ofUInt8 b with
  | '(' => pair '*' .nestedOpen .plain
  | '*' => pair ')' .close .plain
  | '"' => take .stringOpen 1
  | '\x7b' => do takeOr .plain ((← quotedOpenLength).map (.quotedOpen, ·))
  | '\'' => commentQuote
  | '\r' | '\n' => lineEnd .newline .plain
  | _ => skip .plain (·.skipUntil Byte.isCommentStop)

end Matcher

/-- The lexeme of a comment at the start of a lookahead. -/
def CommentRule.scan (view : Lookahead) : Verdict CommentRule :=
  (Matcher.byFirst .endOfInput Matcher.comment).verdict view

/-! ## Strings -/

/-- A rule inside a string between double quotes. -/
inductive StringRule where
  | close
  /-- A backslash before a line end; it goes with the blanks that start the next line. -/
  | lineContinuation
  /-- A backslash and a letter with a meaning of its own. -/
  | namedEscape
  /-- `\ddd` -/
  | decimalEscape
  /-- `\xhh` -/
  | hexEscape
  /-- A backslash and any other byte; both are content. -/
  | unknownEscape
  | newline
  /-- Plain content. -/
  | plain
  | endOfInput
  deriving DecidableEq

namespace Matcher

/-- The escape with this first byte in a string. -/
def stringEscape (e : UInt8) : Matcher StringRule := do
  if Byte.isNamedEscape e then take .namedEscape 2
  else if ← pure (Byte.isDecimal e) <&&> areAtIn 2 [Byte.isDecimal, Byte.isDecimal] then
    take .decimalEscape 4
  else if ← pure (e == 'x'.toUInt8) <&&> areAtIn 2 [Byte.isHex, Byte.isHex] then take .hexEscape 4
  else take .unknownEscape 2

/-- What starts with a backslash in a string. -/
def backslash : Matcher StringRule := do
  match ← lineEndLength 1 with
  | some line =>
    let blanks ← runLength (1 + line) (Byte.isAny [' ', '\t'])
    take .lineContinuation (1 + line + blanks)
  | none =>
    match ← peekAt 1 with
    | some e => stringEscape e
    | none => take .plain 1

/-- The lexeme of a string that starts with a byte. -/
def string (b : UInt8) : Matcher StringRule :=
  match Char.ofUInt8 b with
  | '"' => take .close 1
  | '\\' => backslash
  | '\r' | '\n' => lineEnd .newline .plain
  | _ => skip .plain (·.skipStringBody)

end Matcher

/-- The lexeme of a string at the start of a lookahead. -/
def StringRule.scan (view : Lookahead) : Verdict StringRule :=
  (Matcher.byFirst .endOfInput Matcher.string).verdict view

/-! ## Quoted strings -/

/-- A rule inside a string between `{id|` and `|id}`. -/
inductive QuotedRule where
  /-- `|id}`, which ends the string if its `id` is that of the opener. -/
  | terminator
  | newline
  /-- Plain content. -/
  | plain
  | endOfInput
  deriving DecidableEq

namespace Matcher

/-- What starts with a bar in a quoted string. -/
def bar : Matcher QuotedRule := do
  let name ← runLength 1 Byte.isLower
  if ← isAt (1 + name) '\x7d' then take .terminator (name + 2) else take .plain 1

/-- The lexeme of a quoted string that starts with a byte. -/
def quoted (b : UInt8) : Matcher QuotedRule :=
  match Char.ofUInt8 b with
  | '|' => bar
  | '\r' | '\n' => lineEnd .newline .plain
  | _ => skip .plain (·.skipTo '|'.toUInt8 '\r'.toUInt8 '\n'.toUInt8)

end Matcher

/-- The lexeme of a quoted string at the start of a lookahead. -/
def QuotedRule.scan (view : Lookahead) : Verdict QuotedRule :=
  (Matcher.byFirst .endOfInput Matcher.quoted).verdict view

/-! ## Quotations -/

/-- A rule inside a quotation. -/
inductive QuotationRule where
  | nestedOpen
  /-- `>>` -/
  | close
  | newline
  /-- Plain content. -/
  | plain
  | endOfInput
  deriving DecidableEq

namespace Matcher

/-- The lexeme of a quotation that starts with a byte. -/
def quotation (b : UInt8) : Matcher QuotationRule :=
  match Char.ofUInt8 b with
  | '>' => pair '>' .close .plain
  | '<' => do takeOr .plain ((← quotationOpenLength).map (.nestedOpen, ·))
  | '\r' | '\n' => lineEnd .newline .plain
  | _ => skip .plain (·.skipUntil Byte.isQuotationStop)

end Matcher

/-- The lexeme of a quotation at the start of a lookahead. -/
def QuotationRule.scan (view : Lookahead) : Verdict QuotationRule :=
  (Matcher.byFirst .endOfInput Matcher.quotation).verdict view

/-! ## The header -/

/-- The header that the very start of the input may have. -/
inductive HeaderRule where
  /-- A line that starts with `#!`, another line, and a line `!#`. -/
  | threeLines
  /-- A line that starts with `#!`. -/
  | oneLine
  | absent
  deriving DecidableEq

/-- Lines of the header. -/
def HeaderRule.lines : HeaderRule → Nat
  | .threeLines => 3
  | .oneLine => 1
  | .absent => 0

namespace Matcher

/-- The longest header at the start. -/
def header : Matcher (Longest HeaderRule) := do
  let absent : Longest HeaderRule := ⟨.absent, 0⟩
  if ← isSpelled 0 ['#', '!'] then
    let first := 2 + (← runLength 2 (· != '\n'.toUInt8))
    if ← isAt first '\n' then
      let one := first + 1
      let best := absent.offer .oneLine (some one)
      let second := one + (← runLength one (· != '\n'.toUInt8))
      if ← isSpelled second ['\n', '!', '#', '\n'] then
        return best.offer .threeLines (some (second + 4))
      else return best
    else return absent
  else return absent

end Matcher

/-- The header at the start of a lookahead, which is empty where there is none. -/
def HeaderRule.scan (view : Lookahead) : Verdict HeaderRule :=
  Matcher.verdict (do Matcher.accept (← Matcher.header)) view

end StreamLexer
