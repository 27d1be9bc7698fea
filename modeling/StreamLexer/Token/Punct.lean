/-!
Punctuation: the operators and brackets that are lexemes of their own, each with one spelling, which
is what a mark is printed as.
-/
namespace StreamLexer

/-- A punctuation mark. -/
inductive Punct where
  | amperAmper
  | ampersand
  | backquote
  | bang
  | bar
  | barBar
  | barRBracket
  | colon
  | colonColon
  | colonEqual
  | colonGreater
  | comma
  | dot
  | dotDot
  | equal
  | greater
  | greaterRBrace
  | greaterRBracket
  | lBrace
  | lBraceLess
  | lBracket
  | lBracketBar
  | lBracketLess
  | lBracketGreater
  | lBracketPercent
  | lBracketPercent2
  | lBracketAt
  | lBracketAt2
  | lBracketAt3
  | less
  | lessMinus
  | lParen
  | minus
  | minusDot
  | minusGreater
  | percent
  | plus
  | plusDot
  | plusEq
  | question
  | questionQuestion
  | quote
  | rBrace
  | rBracket
  | rParen
  | semi
  | semiSemi
  | sharp
  | star
  | tilde
  | underscore
  deriving DecidableEq

namespace Punct

/-- Every mark. -/
def all : List Punct :=
  [.amperAmper, .ampersand, .backquote, .bang, .bar, .barBar, .barRBracket, .colon, .colonColon,
   .colonEqual, .colonGreater, .comma, .dot, .dotDot, .equal, .greater, .greaterRBracket,
   .greaterRBrace, .lBrace, .lBraceLess, .lBracket, .lBracketBar, .lBracketLess,
   .lBracketGreater, .lBracketPercent, .lBracketPercent2, .lBracketAt, .lBracketAt2, .lBracketAt3,
   .less, .lessMinus, .lParen, .minus, .minusDot, .minusGreater, .percent, .plus, .plusDot,
   .plusEq, .question, .questionQuestion, .quote, .rBrace, .rBracket, .rParen, .semi, .semiSemi,
   .sharp, .star, .tilde, .underscore]

/-- The mark as text. -/
def spelling : Punct → String
  | .amperAmper => "&&"
  | .ampersand => "&"
  | .backquote => "\x60"
  | .bang => "!"
  | .bar => "|"
  | .barBar => "||"
  | .barRBracket => "|]"
  | .colon => ":"
  | .colonColon => "::"
  | .colonEqual => ":="
  | .colonGreater => ":>"
  | .comma => ","
  | .dot => "."
  | .dotDot => ".."
  | .equal => "="
  | .greater => ">"
  | .greaterRBrace => ">\x7d"
  | .greaterRBracket => ">]"
  | .lBrace => "\x7b"
  | .lBraceLess => "\x7b<"
  | .lBracket => "["
  | .lBracketBar => "[|"
  | .lBracketLess => "[<"
  | .lBracketGreater => "[>"
  | .lBracketPercent => "[%"
  | .lBracketPercent2 => "[%%"
  | .lBracketAt => "[@"
  | .lBracketAt2 => "[@@"
  | .lBracketAt3 => "[@@@"
  | .less => "<"
  | .lessMinus => "<-"
  | .lParen => "("
  | .minus => "-"
  | .minusDot => "-."
  | .minusGreater => "->"
  | .percent => "%"
  | .plus => "+"
  | .plusDot => "+."
  | .plusEq => "+="
  | .question => "?"
  | .questionQuestion => "??"
  | .quote => "'"
  | .rBrace => "\x7d"
  | .rBracket => "]"
  | .rParen => ")"
  | .semi => ";"
  | .semiSemi => ";;"
  | .sharp => "#"
  | .star => "*"
  | .tilde => "~"
  | .underscore => "_"

/-- The name of the mark in debug output. -/
def name : Punct → String
  | .amperAmper => "AmperAmper"
  | .ampersand => "Ampersand"
  | .backquote => "Backquote"
  | .bang => "Bang"
  | .bar => "Bar"
  | .barBar => "BarBar"
  | .barRBracket => "BarRBracket"
  | .colon => "Colon"
  | .colonColon => "ColonColon"
  | .colonEqual => "ColonEqual"
  | .colonGreater => "ColonGreater"
  | .comma => "Comma"
  | .dot => "Dot"
  | .dotDot => "DotDot"
  | .equal => "Equal"
  | .greater => "Greater"
  | .greaterRBrace => "GreaterRBrace"
  | .greaterRBracket => "GreaterRBracket"
  | .lBrace => "LBrace"
  | .lBraceLess => "LBraceLess"
  | .lBracket => "LBracket"
  | .lBracketBar => "LBracketBar"
  | .lBracketLess => "LBracketLess"
  | .lBracketGreater => "LBracketGreater"
  | .lBracketPercent => "LBracketPercent"
  | .lBracketPercent2 => "LBracketPercent2"
  | .lBracketAt => "LBracketAt"
  | .lBracketAt2 => "LBracketAt2"
  | .lBracketAt3 => "LBracketAt3"
  | .less => "Less"
  | .lessMinus => "LessMinus"
  | .lParen => "LParen"
  | .minus => "Minus"
  | .minusDot => "MinusDot"
  | .minusGreater => "MinusGreater"
  | .percent => "Percent"
  | .plus => "Plus"
  | .plusDot => "PlusDot"
  | .plusEq => "PlusEq"
  | .question => "Question"
  | .questionQuestion => "QuestionQuestion"
  | .quote => "Quote"
  | .rBrace => "RBrace"
  | .rBracket => "RBracket"
  | .rParen => "RParen"
  | .semi => "Semi"
  | .semiSemi => "SemiSemi"
  | .sharp => "Sharp"
  | .star => "Star"
  | .tilde => "Tilde"
  | .underscore => "Underscore"

/-- The number of the mark among the rules of the lexer. -/
def code : Punct → Nat
  | .amperAmper => 64
  | .ampersand => 65
  | .backquote => 66
  | .bang => 67
  | .bar => 68
  | .barBar => 69
  | .barRBracket => 70
  | .colon => 71
  | .colonColon => 72
  | .colonEqual => 73
  | .colonGreater => 74
  | .comma => 75
  | .dot => 76
  | .dotDot => 77
  | .equal => 78
  | .greater => 79
  | .greaterRBrace => 80
  | .greaterRBracket => 81
  | .lBrace => 82
  | .lBraceLess => 83
  | .lBracket => 84
  | .lBracketBar => 85
  | .lBracketLess => 86
  | .lBracketGreater => 87
  | .lBracketPercent => 88
  | .lBracketPercent2 => 89
  | .lBracketAt => 90
  | .lBracketAt2 => 91
  | .lBracketAt3 => 92
  | .less => 93
  | .lessMinus => 94
  | .lParen => 95
  | .minus => 96
  | .minusDot => 97
  | .minusGreater => 98
  | .percent => 99
  | .plus => 100
  | .plusDot => 101
  | .plusEq => 102
  | .question => 13
  | .questionQuestion => 14
  | .quote => 30
  | .rBrace => 103
  | .rBracket => 104
  | .rParen => 105
  | .semi => 106
  | .semiSemi => 107
  | .sharp => 108
  | .star => 109
  | .tilde => 11
  | .underscore => 8

end Punct

end StreamLexer
