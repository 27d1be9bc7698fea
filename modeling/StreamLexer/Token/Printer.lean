import StreamLexer.Text.Escape
import StreamLexer.Token.Kind

/-!
Texts of tokens: `TokenKind.display` writes a token as source text, `TokenKind.category` names it in
messages, `TokenKind.describe` is its debug form. A delimited string is displayed with escapes too,
although its source text has none.
-/
namespace StreamLexer

namespace TokenKind

/-- The token as source text. Quotations and the end of input have a placeholder. -/
def display : TokenKind → String
  | .lident name | .uident name => name
  | .label name => "~" ++ name ++ ":"
  | .optLabel name => "?" ++ name ++ ":"
  | .integer type value => toString value ++ String.ofList type.suffix?.toList
  | .float text => text
  | .char code => "'" ++ Escape.ascii [code] ++ "'"
  | .string bytes none => "\"" ++ Escape.ascii bytes ++ "\""
  | .string bytes (some id) => "\x7b" ++ id ++ "|" ++ Escape.ascii bytes ++ "|" ++ id ++ "\x7d"
  | .comment text => "(*" ++ text ++ "*)"
  | .quotation => "<quotation>"
  | .operator _ text => text
  | .keyword word => word.spelling
  | .punct mark => mark.spelling
  | .eof => "<eof>"

/-- What kind of thing the token is; a token with one spelling is named by it. -/
def category : TokenKind → String
  | .lident _ => "identifier"
  | .uident _ => "constructor"
  | .label _ => "label"
  | .optLabel _ => "optional label"
  | .integer .. => "integer"
  | .float _ => "float"
  | .char _ => "char"
  | .string .. => "string"
  | .comment _ => "comment"
  | .quotation => "quotation"
  | .operator .prefixOp _ => "prefix operator"
  | .operator _ _ => "infix operator"
  | .keyword word => word.spelling
  | .punct mark => mark.spelling
  | .eof => "end of file"

/-- The name of the kind in debug output, without its payload. -/
def name : TokenKind → String
  | .lident _ => "Lident"
  | .uident _ => "Uident"
  | .label _ => "Label"
  | .optLabel _ => "OptLabel"
  | .integer type _ => type.name
  | .float _ => "Float"
  | .char _ => "Char"
  | .string .. => "String"
  | .comment _ => "Comment"
  | .quotation => "Quotation"
  | .operator cls _ => cls.name
  | .keyword word => word.name
  | .punct mark => mark.name
  | .eof => "Eof"

/-- The payload of a kind in debug output, with the brackets around it. -/
def describePayload : TokenKind → String
  | .lident text | .uident text | .label text | .optLabel text | .float text | .comment text
  | .operator _ text => "(" ++ Escape.quoted text ++ ")"
  | .integer _ value => "(" ++ toString value ++ ")"
  | .char code => "(" ++ toString code.toNat ++ ")"
  | .string bytes delimiter =>
    let items := ", ".intercalate (bytes.map fun b => toString b.toNat)
    let id := match delimiter with
      | none => "None"
      | some id => "Some(" ++ Escape.quoted id ++ ")"
    " \x7b text: [" ++ items ++ "], delimiter: " ++ id ++ " \x7d"
  | .quotation | .keyword _ | .punct _ | .eof => ""

/-- The kind in debug output. -/
def describe (kind : TokenKind) : String :=
  kind.name ++ kind.describePayload

end TokenKind

/-- The token in debug output. -/
def Token.describe (t : Token) : String :=
  t.kind.describe ++ " @ " ++ t.span.describe

end StreamLexer
