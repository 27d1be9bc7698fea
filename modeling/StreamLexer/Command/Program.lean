import StreamLexer.Command.Dump

/-!
The command line: which command the arguments name, and what it prints. The files it reads are given
by a function from paths, so that the whole program is a function too.
-/
namespace StreamLexer

/-- What a run of the program comes to. -/
structure ProgramResult where
  code : UInt32
  stdout : String
  /-- Error messages; the reports come after them. -/
  stderr : String
  /-- The source with the reports on it, if there are any. -/
  reports : Option (SourceText × List Report) := none

namespace Program

/-- How the program is called. -/
def usage : String :=
  "\n".intercalate
    ["ML lexer",
     "",
     "Usage: mlc <command> [options]",
     "",
     "Commands:",
     "  lex <file.ml>        Tokenize and display tokens",
     "  help                 Show this help message",
     "  version              Show version information",
     "",
     "Lex options:",
     "  --chunk <n>          Feed the lexer <n> bytes at a time (default: 8192)",
     "  --no-comments        Leave comments out of the dump",
     "  --file-name <name>   File name reported in spans (default: the path)",
     "  --no-color           Plain diagnostics",
     "",
     "Logging:",
     "  RUST_LOG=ml_lexer=trace     Enable lexer tracing",
     "  MLC_LOG_TREE=1              Render tracing output as a tree",
     ""]

/-- The line that says which version this is. -/
def version : String :=
  "mlc 0.1.0-alpha.1\n"

/-- The lines for arguments that are refused. -/
def refusal (e : OptionError) : String :=
  s!"error: {e.message}\nUsage: mlc lex <file.ml> [options]\n"

/-- The result of a dump. -/
def ofDump : Except (DumpError × String) Dump → ProgramResult
  | .ok d =>
    { code := if d.failed then 1 else 0
      stdout := d.out
      stderr := ""
      reports := if d.reports.isEmpty then none else some (d.source, d.reports) }
  | .error (e, written) => { code := 1, stdout := written, stderr := s!"error: {e.message}\n" }

/-- The command that the arguments name. A dump is told apart, for it reads a file. -/
inductive Command where
  | finish (result : ProgramResult)
  | dump (options : Options)

/-- Reads the command line. -/
def command (terminal : Bool) : List String → Command
  | [] => .finish { code := 0, stdout := usage, stderr := "" }
  | name :: args =>
    if name == "lex" then
      match Options.parse terminal args with
      | .ok options => .dump options
      | .error e => .finish { code := 1, stdout := "", stderr := refusal e }
    else if name == "help" || name == "--help" || name == "-h" then
      .finish { code := 0, stdout := usage, stderr := "" }
    else if name == "version" || name == "--version" || name == "-V" then
      .finish { code := 0, stdout := version, stderr := "" }
    else .finish { code := 1, stdout := usage, stderr := s!"Unknown command: {name}\n\n" }

/-- Runs the program on files. -/
def run (terminal : Bool) (files : String → PathEntry) (args : List String) : ProgramResult :=
  match command terminal args with
  | .finish result => result
  | .dump options => ofDump (dump options (files options.path) none)

end Program

end StreamLexer
