import StreamLexer.Diagnostic.Basic
import StreamLexer.Literal.Value
import StreamLexer.Scan.TokenRule
import StreamLexer.Token.KeywordTable

/-!
The token of a lexeme that is a token of its own: a function of the rule that matched, the bytes,
and the keyword table. The rule fixes the shape of the bytes, so each part is taken at a fixed
place.
-/
namespace StreamLexer

/-- The bytes between the first and the last one. -/
def Lexeme.inner (lexeme : List UInt8) : List UInt8 :=
  (lexeme.drop 1).dropLast

/-- Why a lexeme makes no token. -/
inductive WordFault where
  | illegalCharacter (byte : UInt8)
  | illegalEscape (escape : String)
  | keywordAsLabel (name : String)
  | literalOverflow (type : IntType)
  deriving DecidableEq

/-- The error for a lexeme that makes no token. -/
def WordFault.toError (span : Span) : WordFault → LexError
  | .illegalCharacter byte => .illegalCharacter span byte
  | .illegalEscape escape => .illegalEscape span escape
  | .keywordAsLabel name => .keywordAsLabel span name
  | .literalOverflow type => .literalOverflow span type

namespace WordRule

/-- A label, given how to make its token; a reserved word cannot name one. -/
def readLabel (keywords : KeywordTable) (make : String → TokenKind) (lexeme : List UInt8) :
    Except WordFault TokenKind :=
  let name := Latin1.decode (Lexeme.inner lexeme)
  if keywords.isReserved name then .error (.keywordAsLabel name) else .ok (make name)

/-- The token of a lexeme, or what is wrong with it. -/
def read (keywords : KeywordTable) (rule : WordRule) (lexeme : List UInt8) :
    Except WordFault TokenKind :=
  match rule with
  | .punct mark => .ok (.punct mark)
  | .lower =>
    let name := Latin1.decode lexeme
    .ok ((keywords.lookup? name).getD (.lident name))
  | .upper =>
    let name := Latin1.decode lexeme
    .ok ((keywords.lookup? name).getD (.uident name))
  | .label => readLabel keywords .label lexeme
  | .optLabel => readLabel keywords .optLabel lexeme
  | .integer type =>
    let digits := if type.suffix?.isSome then lexeme.dropLast else lexeme
    match Numeral.integer? type digits with
    | some value => .ok (.integer type value)
    | none => .error (.literalOverflow type)
  | .float => .ok (.float (Latin1.decode (Numeral.stripUnderscores lexeme)))
  | .charNewline | .char => .ok (.char ((lexeme.drop 1).headD 0))
  | .charEscape => .ok (.char (ByteEscape.named ((lexeme.drop 2).headD 0)))
  | .charDecimal =>
    match ByteEscape.decimal? ((lexeme.drop 2).take 3) with
    | some byte => .ok (.char byte)
    | none => .error (.illegalEscape (Latin1.decode (Lexeme.inner lexeme)))
  | .charHex => .ok (.char (ByteEscape.hex ((lexeme.drop 3).take 2)))
  | .charIllegal => .error (.illegalEscape (Latin1.decode (lexeme.drop 1)))
  | .operator cls => .ok (.operator cls (Latin1.decode lexeme))
  | .illegalByte => .error (.illegalCharacter (lexeme.headD 0))

end WordRule

end StreamLexer
