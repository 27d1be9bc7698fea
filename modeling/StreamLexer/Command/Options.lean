import StreamLexer.Stream.Source

/-!
The options of the token dump. Arguments are read from left to right; options and the path may stand
in any order, and of several values for one option the last counts.
-/
namespace StreamLexer

/-- Why arguments are refused. -/
inductive OptionError where
  | missingPath
  /-- An option at the very end that needs a value. -/
  | missingValue (option : String)
  | invalidChunkSize (text : String)
  /-- An option that does not exist, or a second path. -/
  | unknownOption (text : String)
  deriving DecidableEq

/-- The error in words. -/
def OptionError.message : OptionError → String
  | .missingPath => "missing file path"
  | .missingValue option => s!"option `{option}` needs a value"
  | .invalidChunkSize text => s!"invalid chunk size `{text}`: expected a positive integer"
  | .unknownOption text => s!"unknown option `{text}`"

/-- The options of a dump. -/
structure Options where
  path : String
  /-- Bytes read at a time. -/
  chunkSize : Nat := defaultChunkSize
  /-- Comments are listed. -/
  comments : Bool := true
  /-- Logical file name; the path if there is none. -/
  fileName : Option String := none
  /-- Reports are coloured. -/
  color : Bool := false
  deriving DecidableEq

namespace Options

/-- The logical file name of the first positions. -/
def logicalName (o : Options) : String :=
  o.fileName.getD o.path

/-- The largest chunk size. -/
def maxChunkSize : Nat := Nat.pow 2 64 - 1

/-- A chunk size: digits, perhaps after a plus sign, that denote a positive number of 64 bits. -/
def chunkSize? (text : String) : Option Nat :=
  let digits := match text.toList with
    | '+' :: digits => digits
    | digits => digits
  if digits.isEmpty || !digits.all Char.isDigit then none
  else
    let n := digits.foldl (fun n c => n * 10 + (c.toNat - '0'.toNat)) 0
    if 0 < n && n ≤ maxChunkSize then some n else none

/-- What arguments have set so far. -/
structure Settings where
  path : Option String := none
  chunkSize : Option Nat := none
  comments : Bool := true
  fileName : Option String := none
  color : Option Bool := none
  deriving DecidableEq

/-- Sets the chunk size from its text. -/
def Settings.withChunkSize (s : Settings) (text : String) : Except OptionError Settings :=
  match chunkSize? text with
  | some size => .ok { s with chunkSize := some size }
  | none => .error (.invalidChunkSize text)

/-- The value of an argument that starts with an option and an equals sign. -/
def valueAfter? (option arg : String) : Option String :=
  (option.toList.isPrefixOf? arg.toList).map String.ofList

/-- Reads an argument that is neither an option with a separate value nor a flag. -/
def Settings.readArgument (s : Settings) (arg : String) : Except OptionError Settings :=
  match valueAfter? "--chunk=" arg with
  | some text => s.withChunkSize text
  | none =>
    match valueAfter? "--file-name=" arg with
    | some name => .ok { s with fileName := some name }
    | none =>
      if arg.toList.head? == some '-' || s.path.isSome then .error (.unknownOption arg)
      else .ok { s with path := some arg }

/-- Reads the arguments from left to right, after those that have set `s`. -/
def readAll (s : Settings) : List String → Except OptionError Settings
  | [] => .ok s
  | [arg] =>
    if arg == "--chunk" || arg == "--file-name" then .error (.missingValue arg)
    else if arg == "--no-comments" then .ok { s with comments := false }
    else if arg == "--no-color" then .ok { s with color := some false }
    else s.readArgument arg
  | arg :: value :: args =>
    if arg == "--chunk" then do readAll (← s.withChunkSize value) args
    else if arg == "--file-name" then readAll { s with fileName := some value } args
    else if arg == "--no-comments" then readAll { s with comments := false } (value :: args)
    else if arg == "--no-color" then readAll { s with color := some false } (value :: args)
    else do readAll (← s.readArgument arg) (value :: args)

/-- The options that arguments ask for. Reports are coloured if they go to a terminal, unless the
arguments say otherwise. -/
def parse (terminal : Bool) (args : List String) : Except OptionError Options := do
  let s ← readAll {} args
  match s.path with
  | some path =>
    .ok
      { path
        chunkSize := s.chunkSize.getD defaultChunkSize
        comments := s.comments
        fileName := s.fileName
        color := s.color.getD terminal }
  | none => .error .missingPath

end Options

end StreamLexer
