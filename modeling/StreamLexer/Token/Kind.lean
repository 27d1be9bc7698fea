import StreamLexer.Source.Position
import StreamLexer.Token.Keyword
import StreamLexer.Token.Punct

/-!
Tokens: a kind with its decoded payload, and the span it was read from. Names and other texts are
the lexeme decoded as Latin-1, so that any bytes survive; the text of a string literal stays bytes.
-/
namespace StreamLexer

/-- The integer types of literals. -/
inductive IntType where
  | int
  | int32
  | int64
  | native
  deriving DecidableEq

namespace IntType

/-- Every type, the one without a suffix first. -/
def all : List IntType :=
  [.int, .int32, .int64, .native]

/-- Number of bits of a value. -/
def bits : IntType → Nat
  | .int => 63
  | .int32 => 32
  | .int64 | .native => 64

/-- The letter after the digits, if the type needs one. -/
def suffix? : IntType → Option Char
  | .int => none
  | .int32 => some 'l'
  | .int64 => some 'L'
  | .native => some 'n'

/-- The type as messages call it. -/
def display : IntType → String
  | .int => "int"
  | .int32 => "int32"
  | .int64 => "int64"
  | .native => "nativeint"

/-- The name of the type in debug output. -/
def name : IntType → String
  | .int => "Int"
  | .int32 => "Int32"
  | .int64 => "Int64"
  | .native => "NativeInt"

end IntType

/-- Operators fall into classes by their first characters. The class decides how tightly an
operator binds. -/
inductive OperatorClass where
  /-- `!`, `~` and `?` led. -/
  | prefixOp
  /-- Led by `=`, `<`, `>`, `|`, `&` or `$`; also `!=`. -/
  | level0
  /-- Led by `@` or `^`. -/
  | level1
  /-- Led by `+` or `-`. -/
  | level2
  /-- Led by `*`, `/` or `%`; also the words `mod`, `land`, `lor` and `lxor`. -/
  | level3
  /-- Led by `**`; also the words `lsl`, `lsr` and `asr`. -/
  | level4
  deriving DecidableEq

namespace OperatorClass

/-- Every class. -/
def all : List OperatorClass :=
  [.prefixOp, .level0, .level1, .level2, .level3, .level4]

/-- The name of the class in debug output. -/
def name : OperatorClass → String
  | .prefixOp => "Prefix"
  | .level0 => "Infix0"
  | .level1 => "Infix1"
  | .level2 => "Infix2"
  | .level3 => "Infix3"
  | .level4 => "Infix4"

/-- The number of the class among the rules of the lexer. -/
def code : OperatorClass → Nat
  | .prefixOp => 40
  | .level0 => 41
  | .level1 => 42
  | .level2 => 43
  | .level3 => 44
  | .level4 => 45

end OperatorClass

/-- What a token is. -/
inductive TokenKind where
  /-- Identifier that starts with a small letter or `_`. -/
  | lident (name : String)
  /-- Identifier that starts with a capital. -/
  | uident (name : String)
  /-- `~name:` -/
  | label (name : String)
  /-- `?name:` -/
  | optLabel (name : String)
  /-- Integer literal, in the range of its type. -/
  | integer (type : IntType) (value : Int)
  /-- Float literal as written, without underscores. -/
  | float (text : String)
  /-- Character literal, as a byte. -/
  | char (code : UInt8)
  /-- String literal; the delimiter is the `id` of `{id|...|id}`, absent between double quotes. -/
  | string (bytes : List UInt8) (delimiter : Option String)
  /-- Comment, without its outer `(*` and `*)`. -/
  | comment (text : String)
  /-- Quotation, whose contents are not interpreted. -/
  | quotation
  | operator (cls : OperatorClass) (text : String)
  | keyword (word : Keyword)
  | punct (mark : Punct)
  /-- End of input. -/
  | eof
  deriving DecidableEq

/-- A kind with the span it was read from. -/
structure Token where
  kind : TokenKind
  span : Span
  deriving DecidableEq

namespace TokenKind

/-- The token is a comment. -/
def isComment : TokenKind → Bool
  | .comment _ => true
  | _ => false

/-- The token is the end of input. -/
def isEof : TokenKind → Bool
  | .eof => true
  | _ => false

/-- The spelling of a kind that has only one. -/
def spelling? : TokenKind → Option String
  | .keyword word => some word.spelling
  | .punct mark => some mark.spelling
  | _ => none

end TokenKind

end StreamLexer
