import StreamLexer.Command.Program

/-!
The command line program: reads the file that the arguments name, prints the result, and draws the
reports plainly.
-/
namespace StreamLexer.Program

/-- What a path of the file system leads to. -/
def readEntry (path : String) : IO PathEntry := do
  try
    let bytes ← IO.FS.readBinFile path
    return .file bytes.toList
  catch
    | .noFileOrDirectory .. => return .missing
    | .inappropriateType .. => return .directory
    | e => return .locked (toString e)

/-- The lines of a report. -/
def drawReport (source : SourceText) (r : Report) : String :=
  let place := ((source.place? r).map fun p => s!"  at {p}\n").getD ""
  let marks := (source.words r).map fun m => s!"  | {m}\n"
  let note := (r.note.map fun n => s!"  = note: {n}\n").getD ""
  let help := (r.help.map fun h => s!"  = help: {h}\n").getD ""
  s!"{r.title}\n" ++ place ++ String.join marks ++ note ++ help

end StreamLexer.Program

open StreamLexer in
/-- Runs the program on the file system. -/
def main (args : List String) : IO UInt32 := do
  let result ← match Program.command false args with
    | .finish result => pure result
    | .dump options => do
      let entry ← Program.readEntry options.path
      pure (Program.ofDump (dump options entry none))
  IO.print result.stdout
  IO.eprint result.stderr
  if let some (source, reports) := result.reports then
    for r in reports do
      IO.eprint (Program.drawReport source r)
  return result.code
