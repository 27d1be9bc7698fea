import StreamLexer.Byte.Class
import StreamLexer.Token.Kind

/-!
What lexemes denote: the numbers and escapes of literals, and line directives.

Digits may be separated by underscores, which count for nothing. An integer literal is held in as
many bits as its type has. A decimal one may reach the magnitude of the least value, which it then
denotes; one in another radix may use every bit and is read as two's complement.
-/
namespace StreamLexer

/-! ## Numbers -/

namespace Numeral

/-- The value of a digit, in any radix up to sixteen. -/
def digitValue (b : UInt8) : Nat :=
  if Byte.isDecimal b then b.toNat - '0'.toNat
  else if Byte.inRange 'a' 'f' b then b.toNat - 'a'.toNat + 10
  else if Byte.inRange 'A' 'F' b then b.toNat - 'A'.toNat + 10
  else 0

/-- The lexeme without its underscores. -/
def stripUnderscores (lexeme : List UInt8) : List UInt8 :=
  lexeme.filter (· != '_'.toUInt8)

/-- The number that digits denote. -/
def value (radix : Nat) (digits : List UInt8) : Nat :=
  (stripUnderscores digits).foldl (fun n b => n * radix + digitValue b) 0

/-- The radix that a literal is written in, and its digits. -/
def splitRadix (lexeme : List UInt8) : Nat × List UInt8 :=
  match lexeme with
  | zero :: letter :: digits =>
    if zero == '0'.toUInt8 then
      if Byte.isAny ['x', 'X'] letter then (16, digits)
      else if Byte.isAny ['o', 'O'] letter then (8, digits)
      else if Byte.isAny ['b', 'B'] letter then (2, digits)
      else (10, lexeme)
    else (10, lexeme)
  | _ => (10, lexeme)

/-- The largest magnitude that a literal may have. -/
def limit (type : IntType) (radix : Nat) : Nat :=
  if radix == 10 then Nat.pow 2 (type.bits - 1) else Nat.pow 2 type.bits - 1

/-- The value of an integer literal without its suffix; none if it does not fit its type. -/
def integer? (type : IntType) (lexeme : List UInt8) : Option Int :=
  let (radix, digits) := splitRadix lexeme
  let magnitude := value radix digits
  if magnitude ≤ limit type radix then some (Int.bmod magnitude (Nat.pow 2 type.bits)) else none

end Numeral

/-! ## Escapes -/

namespace ByteEscape

/-- The byte of `\c`: a control character for four letters, else the byte itself. -/
def named (c : UInt8) : UInt8 :=
  if c == 'n'.toUInt8 then '\n'.toUInt8
  else if c == 'r'.toUInt8 then '\r'.toUInt8
  else if c == 'b'.toUInt8 then '\x08'.toUInt8
  else if c == 't'.toUInt8 then '\t'.toUInt8
  else c

/-- The byte of `\ddd`, given its digits; none above 255. -/
def decimal? (digits : List UInt8) : Option UInt8 :=
  let n := Numeral.value 10 digits
  if n < 256 then some (UInt8.ofNat n) else none

/-- The byte of `\xhh`, given its digits. -/
def hex (digits : List UInt8) : UInt8 :=
  UInt8.ofNat (Numeral.value 16 digits)

end ByteEscape

/-!
## Line directives

A directive is `#`, blanks, a line number, blanks, perhaps a file name between double quotes, then
anything up to the line end. The number is that of the next line.
-/

/-- What a line directive says. -/
structure LineDirective where
  /-- The number of the line after the directive, at most `Position.maxLine`. -/
  line : Nat
  /-- The new file name, if one is given and its quote is closed on the same line. -/
  file : Option String

namespace LineDirective

/-- Space and tab separate the parts of a directive. -/
def isSpace (b : UInt8) : Bool :=
  Byte.isAny [' ', '\t'] b

/-- The text between double quotes at the start, if the second quote comes before a line end. -/
def quotedName? : List UInt8 → Option String
  | quote :: rest =>
    if quote == '"'.toUInt8 then
      let name := rest.takeWhile fun b => !Byte.isAny ['"', '\n', '\r'] b
      if (rest.drop name.length).head? == some '"'.toUInt8 then some (Latin1.decode name) else none
    else none
  | [] => none

/-- A line number with one more digit. Its product with ten stops at `Position.maxLine`, and so does
the sum. -/
def addDigit (line : Nat) (digit : UInt8) : Nat :=
  min (min (line * 10) Position.maxLine + (digit.toNat - '0'.toNat)) Position.maxLine

/-- The line number that digits denote. -/
def lineNumber (digits : List UInt8) : Nat :=
  digits.foldl addDigit 0

/-- Reads the lexeme of a directive. -/
def ofLexeme (lexeme : List UInt8) : LineDirective :=
  let number := (lexeme.drop 1).dropWhile isSpace
  let digits := number.takeWhile Byte.isDecimal
  let rest := (number.drop digits.length).dropWhile isSpace
  { line := lineNumber digits
    file := quotedName? rest }

end LineDirective

end StreamLexer
