import StreamLexer.Source.Position

/-!
What a session is in the middle of. Only the constructs that can really be nested have a mode:
comments nest in comments, strings in comments, quotations in quotations, and nothing else. Each
mode carries just what its construct needs, so no field of a finished construct is left behind.
-/
namespace StreamLexer

/-- A comment that is still open, with the comments open inside it. -/
structure OpenComment where
  /-- The opener of the outermost comment. -/
  outer : Span
  /-- The openers of the comments inside it, innermost first. -/
  inner : List Span := []
  deriving DecidableEq

/-- Number of open comments. -/
def OpenComment.depth (c : OpenComment) : Nat :=
  c.inner.length + 1

/-- A string that is still open. -/
structure OpenString where
  opener : Span
  /-- The `id` of `{id|`; none between double quotes. -/
  delimiter : Option (List UInt8)
  /-- The comment around the string, if there is one. Its text then goes on with that of the
  string. -/
  enclosing : Option OpenComment
  deriving DecidableEq

/-- A quotation that is still open, with the number of quotations open inside it. The number has no
bound of its own; each quotation takes a byte at least, so it stays below the number of bytes. -/
structure OpenQuotation where
  /-- The opener of the outermost quotation. -/
  outer : Span
  inner : Nat := 0
  deriving DecidableEq

/-- What a session is in the middle of. `text` is that of the token under construction so far,
latest byte first. -/
inductive Mode where
  /-- Source code, outside every other construct. -/
  | code
  | comment (c : OpenComment) (text : List UInt8)
  | string (o : OpenString) (text : List UInt8)
  | quotation (q : OpenQuotation)
  deriving DecidableEq

namespace Mode

/-- The open comment, around a string too. -/
def comment? : Mode → Option OpenComment
  | .comment c _ => some c
  | .string o _ => o.enclosing
  | .code | .quotation _ => none

/-- Number of open comments. -/
def commentDepth (m : Mode) : Nat :=
  (m.comment?.map OpenComment.depth).getD 0

/-- The names of the constructs, outermost first. -/
def names : Mode → List String
  | .code => []
  | .comment .. => ["Comment"]
  | .string o _ =>
    (if o.enclosing.isSome then ["Comment"] else []) ++
      [if o.delimiter.isSome then "QuotedString" else "String"]
  | .quotation _ => ["Quotation"]

end Mode

end StreamLexer
