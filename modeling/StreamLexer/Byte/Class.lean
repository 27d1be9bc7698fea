/-!
Source bytes: the text that they stand for, and their classes. Source text is read as Latin-1, one
byte per character, so the accented letters `0xC0` to `0xFF` (without the signs `0xD7` and `0xF7`)
take part in identifiers. Decoding never fails; encoding fails exactly on a character above `ÿ`.

`Byte.inRange` and the predicates below it are the whole vocabulary of the lexical patterns;
`ByteClass` names the eight classes that a byte can be asked for as a set.
-/
namespace StreamLexer

namespace Latin1

/-- The character that a byte stands for. -/
def char (b : UInt8) : Char :=
  Char.ofNat b.toNat

/-- The text that bytes stand for. -/
def decode (bytes : List UInt8) : String :=
  String.ofList (bytes.map char)

/-- The bytes of a text, if all its characters are Latin-1. -/
def encode? (text : String) : Option (List UInt8) :=
  text.toList.mapM fun c => if c.toNat < 256 then some c.toUInt8 else none

end Latin1

namespace Byte

/-- The byte lies between two characters, both ends included. -/
def inRange (lo hi : Char) (b : UInt8) : Bool :=
  lo.toUInt8 ≤ b && b ≤ hi.toUInt8

/-- The byte is one of the listed characters. -/
def isAny (cs : List Char) (b : UInt8) : Bool :=
  cs.any fun c => b == c.toUInt8

/-- Space, tab and form feed separate lexemes within a line. -/
def isBlank (b : UInt8) : Bool :=
  isAny [' ', '\t', '\x0c'] b

/-- Starts a lowercase identifier: the small letters, `_`, and `ß` to `ÿ` without the division
sign. -/
def isLower (b : UInt8) : Bool :=
  inRange 'a' 'z' b || b == '_'.toUInt8 || inRange 'ß' 'ö' b || inRange 'ø' 'ÿ' b

/-- Starts a capitalized identifier: the capitals, and `À` to `Þ` without the multiplication
sign. -/
def isUpper (b : UInt8) : Bool :=
  inRange 'A' 'Z' b || inRange 'À' 'Ö' b || inRange 'Ø' 'Þ' b

/-- The decimal digits. -/
def isDecimal (b : UInt8) : Bool :=
  inRange '0' '9' b

/-- The hexadecimal digits, in both cases. -/
def isHex (b : UInt8) : Bool :=
  inRange '0' '9' b || inRange 'a' 'f' b || inRange 'A' 'F' b

/-- The octal digits. -/
def isOctal (b : UInt8) : Bool :=
  inRange '0' '7' b

/-- The binary digits. -/
def isBinary (b : UInt8) : Bool :=
  inRange '0' '1' b

/-- Continues an identifier: a letter, a decimal digit, `_` or a quote. -/
def isIdent (b : UInt8) : Bool :=
  isLower b || isUpper b || isDecimal b || b == '\''.toUInt8

/-- Operator characters. -/
def isSymbol (b : UInt8) : Bool :=
  isAny ['!', '$', '%', '&', '*', '+', '-', '.', '/', ':', '<', '=', '>', '?', '@', '^', '|', '~'] b

/-- The escapes `\c` that have a meaning of their own in character and string literals. -/
def isNamedEscape (b : UInt8) : Bool :=
  isAny ['\\', '\'', '"', 'n', 't', 'b', 'r', ' '] b

/-- Carriage return and newline, the only bytes of a line end. -/
def isLineEnd (b : UInt8) : Bool :=
  isAny ['\r', '\n'] b

/-- Ends a run of plain bytes inside a comment: every rule of comments starts with one of these. -/
def isCommentStop (b : UInt8) : Bool :=
  isAny ['(', '*', '"', '{', '\'', '\r', '\n'] b

/-- Ends a run of plain bytes inside a string. -/
def isStringStop (b : UInt8) : Bool :=
  isAny ['"', '\\', '\n', '\r'] b

/-- Ends a run of plain bytes inside a quoted string. -/
def isQuotedStop (b : UInt8) : Bool :=
  isAny ['|', '\r', '\n'] b

/-- Ends a run of plain bytes inside a quotation. -/
def isQuotationStop (b : UInt8) : Bool :=
  isAny ['>', '<', '\r', '\n'] b

end Byte

/-- A lexical class that a byte may belong to. -/
inductive ByteClass where
  | blank
  | lower
  | upper
  | ident
  | symbol
  | decimal
  | hex
  | commentStop
  deriving DecidableEq

namespace ByteClass

/-- Every class, the one of least weight first. -/
def all : List ByteClass :=
  [.blank, .lower, .upper, .ident, .symbol, .decimal, .hex, .commentStop]

/-- The bytes of the class. -/
def contains : ByteClass → UInt8 → Bool
  | .blank => Byte.isBlank
  | .lower => Byte.isLower
  | .upper => Byte.isUpper
  | .ident => Byte.isIdent
  | .symbol => Byte.isSymbol
  | .decimal => Byte.isDecimal
  | .hex => Byte.isHex
  | .commentStop => Byte.isCommentStop

/-- The weight of the class in the number that stands for a set of classes: a power of two each. -/
def weight : ByteClass → Nat
  | .blank => 1
  | .lower => 2
  | .upper => 4
  | .ident => 8
  | .symbol => 16
  | .decimal => 32
  | .hex => 64
  | .commentStop => 128

/-- The classes of a byte, as the sum of their weights. -/
def maskOf (b : UInt8) : Nat :=
  (all.filter (·.contains b)).foldl (fun mask cls => mask + cls.weight) 0

end ByteClass

end StreamLexer
