import StreamLexer.Command.Options
import StreamLexer.Diagnostic.Report
import StreamLexer.Stream.TokenStream
import StreamLexer.Token.Printer

/-!
The token dump: the tokens of a file, one a line, and the reports of what was wrong in it.
-/
namespace StreamLexer

/-- What a path leads to. -/
inductive PathEntry where
  | missing
  /-- Something that cannot be opened. -/
  | locked (message : String)
  /-- Something that can be opened, but not read. -/
  | unreadable (message : String)
  | file (bytes : List UInt8)
  deriving DecidableEq

/-- A directory: it opens and cannot be read. -/
def PathEntry.directory : PathEntry := .unreadable "Is a directory (os error 21)"

/-- Why a dump was not completed. -/
inductive DumpError where
  | notFound (path : String)
  | read (path message : String)
  | write (message : String)
  deriving DecidableEq

/-- The error in words. -/
def DumpError.message : DumpError → String
  | .notFound path => s!"cannot find file '{path}'"
  | .read path message => s!"error reading '{path}': {message}"
  | .write message => s!"failed to write output: {message}"

/-- A completed dump. -/
structure Dump where
  /-- The tokens as text. -/
  out : String
  /-- The source as its reports show it. -/
  source : SourceText
  reports : List Report
  tokens : Nat
  warnings : Nat
  /-- The lexing stopped at an error. -/
  failed : Bool

namespace Dump

/-- The first line of the text. -/
def header (name : String) : String :=
  s!"Tokens for '{name}':\n"

/-- The line of a token. -/
def tokenLine (t : Token) : String :=
  s!"  {t.kind.describe} @ {t.span.display}\n"

/-- The last line of the text. -/
def footer (count : Nat) : String :=
  s!"({count} tokens)\n"

/-- The tokens among the items of a stream. -/
def tokensOf (items : List (Except StreamError Token)) : List Token :=
  items.filterMap Except.toOption

/-- The lexical error among the items of a stream. -/
def lexError? (items : List (Except StreamError Token)) : Option LexError :=
  items.findSome? fun
    | .error (.lex e) => some e
    | _ => none

/-- The input error among the items of a stream. -/
def inputError? (items : List (Except StreamError Token)) : Option String :=
  items.findSome? fun
    | .error (.input message) => some message
    | _ => none

/-- Lists the tokens of something that could be opened. -/
def ofEvents (o : Options) (bytes : List UInt8) (events : List ReadEvent) :
    Except (DumpError × String) Dump :=
  let name := o.logicalName
  let (stream, items) :=
    (TokenStream.new { fileName := name } (.reader o.chunkSize events) (!o.comments)).items
  let tokens := tokensOf items
  let listed := header name ++ String.join (tokens.map tokenLine)
  match inputError? items with
  | some message => .error (.read o.path message, listed)
  | none =>
    let warnings := stream.session.warnings.toList
    let error := lexError? items
    let source := SourceText.ofBytes name bytes
    .ok
      { out := listed ++ footer tokens.length
        source
        reports := source.reports warnings error
        tokens := tokens.length
        warnings := warnings.length
        failed := error.isSome }

end Dump

/-- Dumps the tokens of what a path leads to. `writeError` is the error of every write, if nothing
can be written. A dump that is not completed comes with the text written before. -/
def dump (o : Options) (entry : PathEntry) (writeError : Option String) :
    Except (DumpError × String) Dump :=
  match entry, writeError with
  | .missing, _ => .error (.notFound o.path, "")
  | .locked message, _ => .error (.read o.path message, "")
  | _, some message => .error (.write message, "")
  | .unreadable message, none => Dump.ofEvents o [] [.failed message]
  | .file bytes, none => Dump.ofEvents o bytes [.data bytes]

end StreamLexer
