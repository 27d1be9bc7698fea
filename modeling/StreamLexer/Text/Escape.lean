import StreamLexer.Byte.Class
import StreamLexer.Text.Category
import StreamLexer.Text.Property

/-!
Two ways to write text with escapes: `Escape.ascii` for bytes in displayed tokens and messages, and
`Escape.quoted` for text in debug output. The first leaves printable ASCII alone, the second every
visible character.
-/
namespace StreamLexer.Escape

/-- The hexadecimal digit of a number below sixteen, in lower case. -/
def hexDigit (n : Nat) : Char :=
  if n < 10 then Char.ofNat ('0'.toNat + n) else Char.ofNat ('a'.toNat + (n - 10))

/-- A byte in printable ASCII: `\t \r \n \' \" \\`, itself where it is printable, else `\xhh`. -/
def asciiByte (b : UInt8) : List Char :=
  if b == '\t'.toUInt8 then ['\\', 't']
  else if b == '\r'.toUInt8 then ['\\', 'r']
  else if b == '\n'.toUInt8 then ['\\', 'n']
  else if b == '\''.toUInt8 then ['\\', '\'']
  else if b == '"'.toUInt8 then ['\\', '"']
  else if b == '\\'.toUInt8 then ['\\', '\\']
  else if 0x20 ≤ b && b ≤ 0x7e then [Latin1.char b]
  else ['\\', 'x', hexDigit (b.toNat / 16), hexDigit (b.toNat % 16)]

/-- Bytes in printable ASCII, each escaped on its own. -/
def ascii (bytes : List UInt8) : String :=
  String.ofList (bytes.flatMap asciiByte)

/-- The halfwidth voiced sound marks. They extend the character before them, as marks do, but are
letters with a place of their own. -/
def isHalfwidthSoundMark (c : Char) : Bool :=
  c == '\uff9e' || c == '\uff9f'

/-- Whether a character is drawn on the character before it. -/
def isDrawnOnPrevious (c : Char) : Bool :=
  graphemeExtend.contains c && !isHalfwidthSoundMark c

/-- Whether a character is seen as itself in quoted text: it is drawn, and in a place of its own. -/
def isVisible (c : Char) : Bool :=
  !(otherOrSeparator.contains c || isDrawnOnPrevious c || defaultIgnorable.contains c)

/-- A character in quoted debug text. A quote mark `'` needs no escape between double quotes. -/
def quotedChar (c : Char) : List Char :=
  if c == '"' then ['\\', '"']
  else if c == '\\' then ['\\', '\\']
  else if c == '\t' then ['\\', 't']
  else if c == '\r' then ['\\', 'r']
  else if c == '\n' then ['\\', 'n']
  else if c == '\x00' then ['\\', '0']
  else if isVisible c then [c]
  else ['\\', 'u', '\x7b'] ++ Nat.toDigits 16 c.toNat ++ ['\x7d']

/-- Debug text: the characters between double quotes, escaped one by one. -/
def quoted (text : String) : String :=
  String.ofList ('"' :: text.toList.flatMap quotedChar ++ ['"'])

end StreamLexer.Escape
