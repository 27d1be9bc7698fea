import StreamLexer.Proofs.Scan.Munch
import StreamLexer.Scan.BodyRule

/-!
# The rules as tables

The rules of source code, of the four sorts of bodies and of the header line as tables for maximal
munch: what the scans try byte by byte, said once for each rule.

Precedence matters only between rules that can accept the same lexeme: `_` before identifiers, marks
before operators, `!=` before the prefix operators, integers before floats, quotation openers before
operators, `**` before the operators that start with one `*`, and every rule before the illegal
byte. In a body only the rules go through `munch`; plain bytes are taken as far as they are held, by
`bodyScan`.
-/
namespace StreamLexer

/-! ## Shapes that several tables share -/

namespace Pattern

/-- Carriage returns, then a newline. -/
def lineEnd : Pattern :=
  [.many (· == '\r'.toUInt8), .char '\n']

/-- A line end between quotes. -/
def charNewline : Pattern :=
  .char '\'' :: lineEnd ++ [.char '\'']

/-- A byte between quotes, neither a quote, a backslash nor part of a line end. -/
def charPlain : Pattern :=
  [.char '\'', .one fun b => !Byte.isAny ['\\', '\'', '\n', '\r'] b, .char '\'']

/-- A backslash and the letter of a named escape. -/
def namedEscape : Pattern :=
  [.char '\\', .one Byte.isNamedEscape]

/-- A backslash and three decimal digits. -/
def decimalEscape : Pattern :=
  [.char '\\', .one Byte.isDecimal, .one Byte.isDecimal, .one Byte.isDecimal]

/-- A backslash, an `x` and two hexadecimal digits. -/
def hexEscape : Pattern :=
  [.char '\\', .char 'x', .one Byte.isHex, .one Byte.isHex]

/-- A pattern between single quotes. -/
def inQuotes (p : Pattern) : Pattern :=
  .char '\'' :: p ++ [.char '\'']

/-- `{`, letters that start a small identifier, `|`. -/
def quotedOpen : Pattern :=
  [.char '\x7b', .many Byte.isLower, .char '|']

/-- The three forms of a quotation opener. -/
def quotationOpens : List Pattern :=
  [[.char '<', .char ':', .many Byte.isIdent, .char '<'],
   [.char '<', .char ':', .many Byte.isIdent, .char '@', .many Byte.isIdent, .char '<'],
   [.char '<', .char '@', .many Byte.isIdent, .char '<']]

/-- A digit, then more digits and underscores. -/
def digits (isDigit : UInt8 → Bool) : Pattern :=
  [.one isDigit, .many fun b => isDigit b || b == '_'.toUInt8]

/-- The four forms of the digits of an integer literal: decimal, hexadecimal, octal, binary. -/
def integers : List Pattern :=
  [digits Byte.isDecimal,
   [.char '0', .anyOf ['x', 'X']] ++ digits Byte.isHex,
   [.char '0', .anyOf ['o', 'O']] ++ digits Byte.isOctal,
   [.char '0', .anyOf ['b', 'B']] ++ digits Byte.isBinary]

/-- A point with the digits after it, of which there may be none. -/
def fraction : Pattern :=
  [.char '.', .many fun b => Byte.isDecimal b || b == '_'.toUInt8]

/-- The two forms of an exponent: with and without a sign. -/
def exponents : List Pattern :=
  [[.anyOf ['e', 'E'], .anyOf ['+', '-']] ++ digits Byte.isDecimal,
   .anyOf ['e', 'E'] :: digits Byte.isDecimal]

/-- A float has a fraction, an exponent or both. -/
def floats : List Pattern :=
  (digits Byte.isDecimal ++ fraction) ::
    exponents.map (digits Byte.isDecimal ++ fraction ++ ·) ++
    exponents.map (digits Byte.isDecimal ++ ·)

/-- `#`, blanks, a number, then the rest of the line with its end. The rest, where there is one,
starts with no digit, so that each directive is read in one way only. -/
def lineDirectives : List Pattern :=
  let number : Pattern :=
    [.char '#', .many (Byte.isAny [' ', '\t']), .one Byte.isDecimal, .many Byte.isDecimal]
  let restOfLine : Pattern :=
    [.one fun b => !Byte.isLineEnd b && !Byte.isDecimal b, .many fun b => !Byte.isLineEnd b]
  [number ++ lineEnd, number ++ restOfLine ++ lineEnd]

/-- One of some characters, then operator characters. -/
def operatorLed (cs : List Char) : Pattern :=
  [.anyOf cs, .many Byte.isSymbol]

end Pattern

/-! ## Source code -/

/-- The characters of a mark. -/
def Punct.chars : Punct → List Char
  | .amperAmper => ['&', '&']
  | .ampersand => ['&']
  | .backquote => ['\x60']
  | .bang => ['!']
  | .bar => ['|']
  | .barBar => ['|', '|']
  | .barRBracket => ['|', ']']
  | .colon => [':']
  | .colonColon => [':', ':']
  | .colonEqual => [':', '=']
  | .colonGreater => [':', '>']
  | .comma => [',']
  | .dot => ['.']
  | .dotDot => ['.', '.']
  | .equal => ['=']
  | .greater => ['>']
  | .greaterRBrace => ['>', '}']
  | .greaterRBracket => ['>', ']']
  | .lBrace => ['{']
  | .lBraceLess => ['{', '<']
  | .lBracket => ['[']
  | .lBracketBar => ['[', '|']
  | .lBracketLess => ['[', '<']
  | .lBracketGreater => ['[', '>']
  | .lBracketPercent => ['[', '%']
  | .lBracketPercent2 => ['[', '%', '%']
  | .lBracketAt => ['[', '@']
  | .lBracketAt2 => ['[', '@', '@']
  | .lBracketAt3 => ['[', '@', '@', '@']
  | .less => ['<']
  | .lessMinus => ['<', '-']
  | .lParen => ['(']
  | .minus => ['-']
  | .minusDot => ['-', '.']
  | .minusGreater => ['-', '>']
  | .percent => ['%']
  | .plus => ['+']
  | .plusDot => ['+', '.']
  | .plusEq => ['+', '=']
  | .question => ['?']
  | .questionQuestion => ['?', '?']
  | .quote => ['\'']
  | .rBrace => ['}']
  | .rBracket => [']']
  | .rParen => [')']
  | .semi => [';']
  | .semiSemi => [';', ';']
  | .sharp => ['#']
  | .star => ['*']
  | .tilde => ['~']
  | .underscore => ['_']

/-- A mark is printed as its characters. -/
theorem Punct.spelling_eq (mark : Punct) : mark.spelling = String.ofList mark.chars := by
  cases mark <;> rfl

/-- The lexeme that the rule of a mark is listed with is the text that the mark is printed as. -/
theorem TokenRule.lexeme?_mark (mark : Punct) :
    (TokenRule.mark mark).lexeme? = some mark.spelling := by
  cases mark <;> rfl

namespace WordRule

/-- The rules that make a token of their own bytes, with their patterns, in order of precedence. -/
def rows : List (WordRule × Pattern) :=
  Punct.all.map (fun mark => (.punct mark, Pattern.literal mark.chars)) ++
  [(.operator .level0, Pattern.literal ['!', '=']),
   (.label, [.char '~', .one Byte.isLower, .many Byte.isIdent, .char ':']),
   (.optLabel, [.char '?', .one Byte.isLower, .many Byte.isIdent, .char ':']),
   (.lower, [.one Byte.isLower, .many Byte.isIdent]),
   (.upper, [.one Byte.isUpper, .many Byte.isIdent])] ++
  Pattern.integers.map (.integer .int, ·) ++
  Pattern.floats.map (.float, ·) ++
  Pattern.integers.map (fun p => (.integer .int32, p ++ [.char 'l'])) ++
  Pattern.integers.map (fun p => (.integer .int64, p ++ [.char 'L'])) ++
  Pattern.integers.map (fun p => (.integer .native, p ++ [.char 'n'])) ++
  [(.charNewline, Pattern.charNewline),
   (.char, Pattern.charPlain),
   (.charEscape, Pattern.inQuotes Pattern.namedEscape),
   (.charDecimal, Pattern.inQuotes Pattern.decimalEscape),
   (.charHex, Pattern.inQuotes Pattern.hexEscape),
   (.charIllegal, [.char '\'', .char '\\', .one fun _ => true])]

/-- The operator classes, which give way to every other rule but the illegal byte. -/
def operatorRows : List (WordRule × Pattern) :=
  [(.operator .prefixOp, [.anyOf ['!', '~', '?'], .one Byte.isSymbol, .many Byte.isSymbol]),
   (.operator .level0, Pattern.operatorLed ['=', '<', '>', '|', '&', '$']),
   (.operator .level1, Pattern.operatorLed ['@', '^']),
   (.operator .level2, Pattern.operatorLed ['+', '-']),
   (.operator .level4, [.char '*', .char '*', .many Byte.isSymbol]),
   (.operator .level3, Pattern.operatorLed ['*', '/', '%']),
   (.illegalByte, [.one fun _ => true])]

end WordRule

namespace TokenRule

/-- The rules of source code with their patterns, in order of precedence. -/
def rows : List (TokenRule × Pattern) :=
  [(.blank, [.one Byte.isBlank, .many Byte.isBlank]),
   (.newline, Pattern.lineEnd)] ++
  WordRule.rows.map (fun row => (.word row.1, row.2)) ++
  [(.stringOpen, Pattern.literal ['"']),
   (.quotedOpen, Pattern.quotedOpen),
   (.commentOpen, Pattern.literal ['(', '*']),
   (.commentOpenAmbiguous, Pattern.literal ['(', '*', ')']),
   (.strayClose, Pattern.literal ['*', ')'])] ++
  Pattern.lineDirectives.map (.lineDirective, ·) ++
  Pattern.quotationOpens.map (.quotationOpen, ·) ++
  WordRule.operatorRows.map (fun row => (.word row.1, row.2))

end TokenRule

/-! ## Bodies and the header -/

variable {ρ : Type}

/-- The lexeme of a body: a run of plain bytes as `skip` finds it, or the longest match of a rule.
A byte that starts a rule but completes none is content like a plain one. -/
def bodyScan (isStop : UInt8 → Bool) (skip : Cursor → Nat × Cursor) (endOfInput plain : ρ)
    (rows : List (ρ × Pattern)) (view : Lookahead) : Verdict ρ :=
  match view.bytes with
  | b :: _ =>
    if isStop b then munch endOfInput (rows ++ [(plain, [.one fun _ => true])]) view
    else .found plain (skip ⟨view, 0, false⟩).1
  | [] => munch endOfInput (rows ++ [(plain, [.one fun _ => true])]) view

theorem bodyScan_bounded {isStop : UInt8 → Bool} {skip : Cursor → Nat × Cursor}
    (endOfInput plain : ρ) (rows : List (ρ × Pattern))
    (hskip : ∀ view b r, view.bytes = b :: r → isStop b = false →
      0 < (skip ⟨view, 0, false⟩).1 ∧ (skip ⟨view, 0, false⟩).1 ≤ view.bytes.length) :
    Bounded (bodyScan isStop skip endOfInput plain rows) endOfInput := by
  have hmunch := munch_bounded endOfInput (rows ++ [(plain, [.one fun _ => true])])
  refine ⟨fun view hclosed => ?_, fun view rule n h => ?_⟩
  · unfold bodyScan
    split
    · split
      · exact hmunch.answers view hclosed
      · simp
    · exact hmunch.answers view hclosed
  · unfold bodyScan at h
    split at h
    · rename_i b r hview
      split at h
      · exact hmunch.found view rule n h
      · rename_i hb
        cases h
        exact .inr (hskip view b r hview (by simpa using hb))
    · exact hmunch.found view rule n h

/-- The rules of comments other than plain content. -/
def CommentRule.rows : List (CommentRule × Pattern) :=
  [(.nestedOpen, Pattern.literal ['(', '*']),
   (.close, Pattern.literal ['*', ')']),
   (.stringOpen, Pattern.literal ['"']),
   (.quotedOpen, Pattern.quotedOpen),
   (.char, Pattern.literal ['\'', '\'']),
   (.charNewline, Pattern.charNewline),
   (.char, Pattern.charPlain),
   (.char, Pattern.inQuotes Pattern.namedEscape),
   (.char, Pattern.inQuotes Pattern.decimalEscape),
   (.char, Pattern.inQuotes Pattern.hexEscape),
   (.newline, Pattern.lineEnd)]

/-- The rules of strings other than plain content. -/
def StringRule.rows : List (StringRule × Pattern) :=
  [(.close, Pattern.literal ['"']),
   (.lineContinuation, .char '\\' :: Pattern.lineEnd ++ [.many (Byte.isAny [' ', '\t'])]),
   (.namedEscape, Pattern.namedEscape),
   (.decimalEscape, Pattern.decimalEscape),
   (.hexEscape, Pattern.hexEscape),
   (.unknownEscape, [.char '\\', .one fun _ => true]),
   (.newline, Pattern.lineEnd)]

/-- The rules of quoted strings other than plain content. -/
def QuotedRule.rows : List (QuotedRule × Pattern) :=
  [(.terminator, [.char '|', .many Byte.isLower, .char '\x7d']),
   (.newline, Pattern.lineEnd)]

/-- The rules of quotations other than plain content. -/
def QuotationRule.rows : List (QuotationRule × Pattern) :=
  (.close, Pattern.literal ['>', '>']) ::
    Pattern.quotationOpens.map (.nestedOpen, ·) ++
    [(.newline, Pattern.lineEnd)]

/-- The two forms of a header. -/
def HeaderRule.rows : List (HeaderRule × Pattern) :=
  let line : Pattern := [.many (· != '\n'.toUInt8), .char '\n']
  [(.oneLine, Pattern.literal ['#', '!'] ++ line),
   (.threeLines, Pattern.literal ['#', '!'] ++ line ++ line ++ Pattern.literal ['!', '#', '\n'])]

end StreamLexer
