import StreamLexer.Scan.Matcher
import StreamLexer.Token.Kind

/-!
The rules of source code outside comments, strings and quotations, and the scan for them.

A `WordRule` makes a token out of its own bytes alone; the other rules of `TokenRule` move the
position, open a nested construct, or end the input. The first byte of a lexeme says which rules
there are to try; of two candidates of the same length the one that is offered first wins, so marks
are offered before operators and quotation openers before both.
-/
namespace StreamLexer

/-- A rule whose lexeme is a token of its own. -/
inductive WordRule where
  | punct (mark : Punct)
  /-- Identifier or reserved word that starts with a small letter or `_`. -/
  | lower
  /-- The same with a capital. -/
  | upper
  /-- `~name:` -/
  | label
  /-- `?name:` -/
  | optLabel
  /-- Integer literal of a type. -/
  | integer (type : IntType)
  | float
  /-- A line end between quotes. -/
  | charNewline
  /-- A plain byte between quotes. -/
  | char
  /-- `'\n'` and the other named escapes. -/
  | charEscape
  /-- `'\ddd'` -/
  | charDecimal
  /-- `'\xhh'` -/
  | charHex
  /-- `'\` and a byte that makes no escape; this is an error. -/
  | charIllegal
  | operator (cls : OperatorClass)
  /-- A byte that starts nothing; this is an error. -/
  | illegalByte
  deriving DecidableEq

/-- A rule of source code. -/
inductive TokenRule where
  | blank
  | newline
  /-- `# 12 "file"`, with the rest of its line. -/
  | lineDirective
  | stringOpen
  /-- `{id|` -/
  | quotedOpen
  /-- `(*` -/
  | commentOpen
  /-- `(*)`, which opens a comment but looks like an operator in brackets. -/
  | commentOpenAmbiguous
  /-- `*)` outside every comment. -/
  | strayClose
  /-- `<:id<`, `<:id@id<` or `<@id<`. -/
  | quotationOpen
  | word (rule : WordRule)
  | endOfInput
  deriving DecidableEq

/-! ## Names of the rules -/

namespace WordRule

/-- The number of the rule, stable across versions. -/
def code : WordRule → Nat
  | .punct mark => mark.code
  | .lower => 9
  | .upper => 10
  | .label => 12
  | .optLabel => 15
  | .integer .int => 16
  | .integer .int32 => 17
  | .integer .int64 => 18
  | .integer .native => 19
  | .float => 20
  | .charNewline => 24
  | .char => 25
  | .charEscape => 26
  | .charDecimal => 27
  | .charHex => 28
  | .charIllegal => 29
  | .operator cls => cls.code
  | .illegalByte => 240

end WordRule

namespace TokenRule

/-- The number of the rule, stable across versions. -/
def code : TokenRule → Nat
  | .blank => 0
  | .newline => 1
  | .lineDirective => 2
  | .stringOpen => 32
  | .quotedOpen => 33
  | .commentOpen => 34
  | .commentOpenAmbiguous => 35
  | .strayClose => 36
  | .quotationOpen => 37
  | .word rule => rule.code
  | .endOfInput => 255

/-- The rule of a mark. -/
@[match_pattern]
abbrev mark (mark : Punct) : TokenRule :=
  .word (.punct mark)

/-- The lexeme of a rule that has only one. -/
def lexeme? : TokenRule → Option String
  | .stringOpen => some "\""
  | .commentOpen => some "(*"
  | .commentOpenAmbiguous => some "(*)"
  | .strayClose => some "*)"
  | mark .amperAmper => some "&&"
  | mark .ampersand => some "&"
  | mark .backquote => some "\x60"
  | mark .bang => some "!"
  | mark .bar => some "|"
  | mark .barBar => some "||"
  | mark .barRBracket => some "|]"
  | mark .colon => some ":"
  | mark .colonColon => some "::"
  | mark .colonEqual => some ":="
  | mark .colonGreater => some ":>"
  | mark .comma => some ","
  | mark .dot => some "."
  | mark .dotDot => some ".."
  | mark .equal => some "="
  | mark .greater => some ">"
  | mark .greaterRBrace => some ">\x7d"
  | mark .greaterRBracket => some ">]"
  | mark .lBrace => some "\x7b"
  | mark .lBraceLess => some "\x7b<"
  | mark .lBracket => some "["
  | mark .lBracketBar => some "[|"
  | mark .lBracketLess => some "[<"
  | mark .lBracketGreater => some "[>"
  | mark .lBracketPercent => some "[%"
  | mark .lBracketPercent2 => some "[%%"
  | mark .lBracketAt => some "[@"
  | mark .lBracketAt2 => some "[@@"
  | mark .lBracketAt3 => some "[@@@"
  | mark .less => some "<"
  | mark .lessMinus => some "<-"
  | mark .lParen => some "("
  | mark .minus => some "-"
  | mark .minusDot => some "-."
  | mark .minusGreater => some "->"
  | mark .percent => some "%"
  | mark .plus => some "+"
  | mark .plusDot => some "+."
  | mark .plusEq => some "+="
  | mark .question => some "?"
  | mark .questionQuestion => some "??"
  | mark .quote => some "'"
  | mark .rBrace => some "\x7d"
  | mark .rBracket => some "]"
  | mark .rParen => some ")"
  | mark .semi => some ";"
  | mark .semiSemi => some ";;"
  | mark .sharp => some "#"
  | mark .star => some "*"
  | mark .tilde => some "~"
  | mark .underscore => some "_"
  | _ => none

/-- The rule of an operator class. -/
abbrev operator (cls : OperatorClass) : TokenRule :=
  .word (.operator cls)

end TokenRule

/-! ## Matchers -/

namespace Matcher

open TokenRule (mark operator)

/-- Bytes of the byte under the cursor and the operator characters after it. -/
def classLength : Matcher Nat := do
  return 1 + (← runLength 1 Byte.isSymbol)

/-- An operator of a class that has no marks. -/
def classOnly (cls : OperatorClass) : Matcher TokenRule := do
  take (operator cls) (← classLength)

/-- The longest of some texts, else the mark under the cursor. -/
def fixed (texts : List (List Char × TokenRule)) (single : Punct) : Matcher TokenRule := do
  accept (← spelled texts (mark single))

/-- The longest of some texts, else the mark under the cursor or an operator of the class. -/
def markOrClass (texts : List (List Char × TokenRule)) (single : Punct) (cls : OperatorClass) :
    Matcher TokenRule := do
  let best ← spelled texts (mark single)
  let length ← classLength
  accept (best.offer (operator cls) (some length))

/-- Length of a label, which is a name and a colon after one byte. -/
def labelLength : Matcher (Option Nat) := do
  if ← isAtIn 1 Byte.isLower then
    let stop := 2 + (← runLength 2 Byte.isIdent)
    if ← isAt stop ':' then return some (stop + 1) else return none
  else return none

/-- Length of a prefix operator, which has operator characters after one byte. -/
def prefixLength : Matcher (Option Nat) := do
  let n ← runLength 1 Byte.isSymbol
  return if 0 < n then some (n + 1) else none

/-- What starts with `_`. -/
def underscore : Matcher TokenRule := do
  advance 1
  let n ← eatWhile Byte.isIdent
  return if 0 < n then .word .lower else mark .underscore

/-- What starts with `~`. -/
def tilde : Matcher TokenRule := do
  let best : Longest TokenRule := ⟨mark .tilde, 1⟩
  let best := best.offer (.word .label) (← labelLength)
  accept (best.offer (operator .prefixOp) (← prefixLength))

/-- What starts with `?`. -/
def question : Matcher TokenRule := do
  let best ← spelled [(['?', '?'], mark .questionQuestion)] (mark .question)
  let best := best.offer (.word .optLabel) (← labelLength)
  accept (best.offer (operator .prefixOp) (← prefixLength))

/-- What starts with `!`. -/
def bang : Matcher TokenRule := do
  let best ← spelled [(['!', '='], operator .level0)] (mark .bang)
  accept (best.offer (operator .prefixOp) (← prefixLength))

/-- What starts with `*`. -/
def star : Matcher TokenRule := do
  let best ← spelled [(['*', ')'], .strayClose)] (mark .star)
  let length ← classLength
  let best := if ← isAt 1 '*' then best.offer (operator .level4) (some length) else best
  accept (best.offer (operator .level3) (some length))

/-- What starts with `<`. -/
def less : Matcher TokenRule := do
  let best ← spelled [(['<', '-'], mark .lessMinus)] (mark .less)
  let best := best.offer .quotationOpen (← quotationOpenLength)
  let length ← classLength
  accept (best.offer (operator .level0) (some length))

/-- What starts with an opening brace. -/
def brace : Matcher TokenRule := do
  let best ← spelled [(['\x7b', '<'], mark .lBraceLess)] (mark .lBrace)
  accept (best.offer .quotedOpen (← quotedOpenLength))

/-- The digits of the radix that a letter after a zero stands for. -/
def radixDigit? (letter : UInt8) : Option (UInt8 → Bool) :=
  if Byte.isAny ['x', 'X'] letter then some Byte.isHex
  else if Byte.isAny ['o', 'O'] letter then some Byte.isOctal
  else if Byte.isAny ['b', 'B'] letter then some Byte.isBinary
  else none

/-- Length of an integer without its suffix, given that of its decimal digits. -/
def integerLength (decimal : Nat) : Matcher Nat := do
  if ← isAt 0 '0' then
    match (← peekAt 1).bind radixDigit? with
    | some isDigit =>
      if ← isAtIn 2 isDigit then
        return 3 + (← runLength 3 fun b => isDigit b || b == '_'.toUInt8)
      else return decimal
    | none => return decimal
  else return decimal

/-- Where the digits from `digits` on end, for an exponent that starts at `start`; there is no
exponent without digits. -/
def exponentStop (start digits : Nat) : Matcher Nat := do
  if ← isAtIn digits Byte.isDecimal then
    return digits + 1 + (← runLength (digits + 1) fun b => Byte.isDecimal b || b == '_'.toUInt8)
  else return start

/-- Where an exponent ends that may start at `start`. -/
def afterExponent (start : Nat) : Matcher Nat := do
  if ← isAtIn start (Byte.isAny ['e', 'E']) then
    if ← isAtIn (start + 1) (Byte.isAny ['+', '-']) then exponentStop start (start + 2)
    else exponentStop start (start + 1)
  else return start

/-- Length of a float, given that of its decimal digits. It is the same if there is neither a
fraction nor an exponent. -/
def floatLength (decimal : Nat) : Matcher Nat := do
  if ← isAt decimal '.' then
    let n ← runLength (decimal + 1) fun b => Byte.isDecimal b || b == '_'.toUInt8
    afterExponent (decimal + 1 + n)
  else afterExponent decimal

/-- The integer type of a suffix. -/
def suffixType? (suffix : UInt8) : Option IntType :=
  if suffix == 'l'.toUInt8 then some .int32
  else if suffix == 'L'.toUInt8 then some .int64
  else if suffix == 'n'.toUInt8 then some .native
  else none

/-- The longest of some candidates and an integer with a suffix, given the length of the integer
without it. -/
def suffixed (best : Longest TokenRule) (integer : Nat) : Matcher TokenRule := do
  match (← peekAt integer).bind suffixType? with
  | some type => accept (best.offer (.word (.integer type)) (some (integer + 1)))
  | none => accept best

/-- What starts with a digit. -/
def number : Matcher TokenRule := do
  let decimal := 1 + (← runLength 1 fun b => Byte.isDecimal b || b == '_'.toUInt8)
  let integer ← integerLength decimal
  let float ← floatLength decimal
  let best : Longest TokenRule := ⟨.word (.integer .int), integer⟩
  suffixed (best.offer (.word .float) (some float)) integer

/-- The rule of a form of character literals. -/
def charRule : CharForm → WordRule
  | .newline => .charNewline
  | .plain => .char
  | .namedEscape => .charEscape
  | .decimalEscape => .charDecimal
  | .hexEscape => .charHex

/-- Length of a single quote, a backslash and any byte. -/
def illegalEscapeLength : Matcher (Option Nat) := do
  if ← isAt 1 '\\' then return (← peekAt 2).map fun _ => 3 else return none

/-- What starts with a single quote. -/
def quote : Matcher TokenRule := do
  let best : Longest TokenRule := ⟨mark .quote, 1⟩
  let literal ← charLiteral
  let best := best.orLonger (literal.map fun literal => (.word (charRule literal.1), literal.2))
  accept (best.offer (.word .charIllegal) (← illegalEscapeLength))

/-- Length of a line directive: `#`, blanks, a number, the rest of the line and its end. -/
def lineDirectiveLength : Matcher (Option Nat) := do
  let start := 1 + (← runLength 1 (Byte.isAny [' ', '\t']))
  let digits ← runLength start Byte.isDecimal
  if digits = 0 then return none
  else
    let stop := start + digits
    let stop := stop + (← runLength stop fun b => !Byte.isLineEnd b)
    return (← lineEndLength stop).map (stop + ·)

/-- What starts with `#`. -/
def sharp : Matcher TokenRule := do
  let best : Longest TokenRule := ⟨mark .sharp, 1⟩
  accept (best.offer .lineDirective (← lineDirectiveLength))

/-- An identifier, whose first byte is under the cursor. -/
def identifier (rule : WordRule) : Matcher TokenRule := do
  advance 1
  let _ ← eatWhile Byte.isIdent
  return .word rule

/-- The lexeme of source code that starts with a byte. -/
def sourceCode (b : UInt8) : Matcher TokenRule :=
  match Char.ofUInt8 b with
  | ' ' | '\t' | '\x0c' => skip .blank (·.eatWhile Byte.isBlank)
  | '\r' | '\n' => lineEnd .newline (.word .illegalByte)
  | '_' => underscore
  | '~' => tilde
  | '?' => question
  | '!' => bang
  | '0' | '1' | '2' | '3' | '4' | '5' | '6' | '7' | '8' | '9' => number
  | '"' => take .stringOpen 1
  | '\'' => quote
  | '#' => sharp
  | '(' => fixed [(['(', '*'], .commentOpen), (['(', '*', ')'], .commentOpenAmbiguous)] .lParen
  | '*' => star
  | '<' => less
  | '>' => markOrClass [(['>', ']'], mark .greaterRBracket), (['>', '\x7d'], mark .greaterRBrace)]
      .greater .level0
  | '|' => markOrClass [(['|', '|'], mark .barBar), (['|', ']'], mark .barRBracket)] .bar .level0
  | '&' => markOrClass [(['&', '&'], mark .amperAmper)] .ampersand .level0
  | '=' => markOrClass [] .equal .level0
  | '$' => classOnly .level0
  | '@' | '^' => classOnly .level1
  | '+' => markOrClass [(['+', '.'], mark .plusDot), (['+', '='], mark .plusEq)] .plus .level2
  | '-' => markOrClass [(['-', '.'], mark .minusDot), (['-', '>'], mark .minusGreater)]
      .minus .level2
  | '%' => markOrClass [] .percent .level3
  | '/' => classOnly .level3
  | '[' => fixed
      [(['[', '|'], mark .lBracketBar), (['[', '<'], mark .lBracketLess),
       (['[', '>'], mark .lBracketGreater), (['[', '%'], mark .lBracketPercent),
       (['[', '%', '%'], mark .lBracketPercent2), (['[', '@'], mark .lBracketAt),
       (['[', '@', '@'], mark .lBracketAt2), (['[', '@', '@', '@'], mark .lBracketAt3)]
      .lBracket
  | '\x7b' => brace
  | ':' => fixed
      [([':', ':'], mark .colonColon), ([':', '='], mark .colonEqual),
       ([':', '>'], mark .colonGreater)] .colon
  | '.' => fixed [(['.', '.'], mark .dotDot)] .dot
  | ';' => fixed [([';', ';'], mark .semiSemi)] .semi
  | ')' => take (mark .rParen) 1
  | ']' => take (mark .rBracket) 1
  | '\x7d' => take (mark .rBrace) 1
  | ',' => take (mark .comma) 1
  | '\x60' => take (mark .backquote) 1
  | _ =>
    if Byte.isLower b then identifier .lower
    else if Byte.isUpper b then identifier .upper
    else take (.word .illegalByte) 1

end Matcher

/-- The lexeme of source code at the start of a lookahead. -/
def TokenRule.scan (view : Lookahead) : Verdict TokenRule :=
  (Matcher.byFirst .endOfInput Matcher.sourceCode).verdict view

end StreamLexer
