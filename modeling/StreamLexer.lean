import StreamLexer.Command.FileTree
import StreamLexer.Command.Program
import StreamLexer.Main
import StreamLexer.Proofs.Scan.SourceGrammar
import StreamLexer.Resumable.Tape
import StreamLexer.Proofs.Scan.Starvation
import StreamLexer.Proofs.Session.Frame
import StreamLexer.Proofs.Session.Plain
import StreamLexer.Proofs.Session.Commit
import StreamLexer.Proofs.Session.Growth
import StreamLexer.Proofs.Session.Closed
import StreamLexer.Proofs.Session.Output
import StreamLexer.Proofs.Session.Schedule
import StreamLexer.Proofs.Stream.Chunking
import StreamLexer.Proofs.Comment.Reader
import StreamLexer.Proofs.Scan.Lexeme
import StreamLexer.Proofs.Comment.Content
import StreamLexer.Proofs.Comment.Strings
import StreamLexer.Proofs.Comment.Nesting
import StreamLexer.Proofs.Scan.Rows
import StreamLexer.Proofs.Scan.WordBytes
import StreamLexer.Proofs.Session.Course
import StreamLexer.Proofs.Span.Gap
import StreamLexer.Proofs.Span.TokenStart
import StreamLexer.Proofs.Span.Partition
import StreamLexer.Proofs.Literal.Digits
import StreamLexer.Proofs.Literal.Items
import StreamLexer.Proofs.Literal.Strings
import StreamLexer.Proofs.Position.Places
import StreamLexer.Proofs.Position.LineEnd
import StreamLexer.Proofs.Position.Directive
import StreamLexer.Proofs.Position.Truth
import StreamLexer.Proofs.Position.Moves
import StreamLexer.Proofs.Position.Accuracy
import StreamLexer.Proofs.Printer.Words
import StreamLexer.Proofs.Printer.Numbers
import StreamLexer.Proofs.Printer.Spellings
import StreamLexer.Proofs.Printer.Texts
import StreamLexer.Proofs.Printer.RoundTrip
import StreamLexer.Proofs.Session.Parallel
import StreamLexer.Proofs.Session.Significant
import StreamLexer.Proofs.Session.Suffix
import StreamLexer.Proofs.Stream.Reader
import StreamLexer.Proofs.Flat.Attribution
import StreamLexer.Proofs.Flat.Invariant
import StreamLexer.Proofs.Flat.Requests
import StreamLexer.Proofs.Resumable.Sequencing
import StreamLexer.Proofs.Session.Filtering
import StreamLexer.Proofs.Stream.Filtering
import StreamLexer.Proofs.Session.Progress
import StreamLexer.Proofs.Diagnostic.Pointers
import StreamLexer.Proofs.Scan.Shortening
import StreamLexer.Proofs.Session.Slice
import StreamLexer.Proofs.Session.Absorption
import StreamLexer.Proofs.Stream.Absorption
import StreamLexer.Proofs.Literal.Integers
import StreamLexer.Proofs.Literal.Quoted
import StreamLexer.Proofs.Source.SlidingWindow
import StreamLexer.Proofs.Quotation.Reader
import StreamLexer.Proofs.Quotation.Balance
import StreamLexer.Proofs.Session.Keywords
import StreamLexer.Proofs.Keyword.Names
import StreamLexer.Proofs.Keyword.Segmentation
import StreamLexer.Proofs.Keyword.Table
import StreamLexer.Proofs.Keyword.Resolution
import StreamLexer.Proofs.Source.PlainRun
import StreamLexer.Proofs.Command.Items
import StreamLexer.Proofs.Command.Reading
import StreamLexer.Proofs.Diagnostic.Disclosure
