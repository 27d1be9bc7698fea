import StreamLexer.Command.Dump

/-!
A directory held in memory, and what a path leads to in it. A path is followed name by name, so a
path through something that is no directory leads nowhere, even where a later `..` would undo the
step. What lies outside the directory is taken to be empty.
-/
namespace StreamLexer

/-- A name between the slashes of a path. -/
abbrev PathName := List Char

/-- The names of a path: what its slashes separate, empty names included. -/
def pathNames : List Char → List PathName
  | [] => [[]]
  | c :: rest =>
    if c == '/' then [] :: pathNames rest
    else
      match pathNames rest with
      | name :: names => (c :: name) :: names
      | [] => [[c]]

/-- The names that lead nowhere new. -/
def isHere (name : PathName) : Bool :=
  name.isEmpty || name == ['.']

/-- The name that leads to the directory above. -/
def isParent (name : PathName) : Bool :=
  name == ['.', '.']

/-- The bytes that a name takes. -/
def nameSize (name : PathName) : Nat :=
  name.foldl (fun size c => size + c.utf8Size) 0

/-- The bytes that a name may take. -/
def maxNameSize : Nat := 255

/-- The bytes that a whole path may take. -/
def maxPathSize : Nat := 4095

namespace PathEntry

/-- A path on through something that is no directory. -/
def notDirectory : PathEntry := .locked "Not a directory (os error 20)"

/-- A path, or a name in it, that is too long. -/
def nameTooLong : PathEntry := .locked "File name too long (os error 36)"

/-- A path that holds the character that ends paths. -/
def nulInName : PathEntry := .locked "file name contained an unexpected NUL byte"

end PathEntry

/-- A directory: what is in it, each with its names from there. An entry without bytes is a
directory too, and so is all that an entry lies in. -/
structure FileTree where
  entries : List (List PathName × Option (List UInt8))

namespace FileTree

/-- The directory of entries given by their paths. -/
def ofPaths (entries : List (String × Option (List UInt8))) : FileTree :=
  ⟨entries.map fun (path, bytes) => ((pathNames path.toList).filter (!isHere ·), bytes)⟩

/-- What is at a place in the directory. -/
def find (t : FileTree) (place : List PathName) : PathEntry :=
  match t.entries.find? (·.1 == place) with
  | some (_, some bytes) => .file bytes
  | some (_, none) => .directory
  | none =>
    if place.isEmpty || t.entries.any (fun e => place.isPrefixOf e.1) then .directory else .missing

/-- Where names lead from outside the directory, where there is nothing but directories above it. -/
def followOutside : List PathName → PathEntry
  | [] => .directory
  | name :: names =>
    if isHere name || isParent name then followOutside names
    else if nameSize name > maxNameSize then .nameTooLong
    else .missing

/-- Where names lead from a place in the directory. -/
def follow (t : FileTree) (place : List PathName) : List PathName → PathEntry
  | [] => t.find place
  | name :: names =>
    match t.find place with
    | .file _ => .notDirectory
    | .unreadable _ =>
      if isHere name then t.follow place names
      else if isParent name then
        if place.isEmpty then followOutside names else t.follow place.dropLast names
      else if nameSize name > maxNameSize then .nameTooLong
      else t.follow (place ++ [name]) names
    | entry => entry

/-- What a path leads to from the directory. -/
def lookup (t : FileTree) (path : String) : PathEntry :=
  let chars := path.toList
  if chars.contains '\x00' then .nulInName
  else if chars.isEmpty then .missing
  else if nameSize chars > maxPathSize then .nameTooLong
  else if chars.head? == some '/' then followOutside (pathNames chars)
  else t.follow [] (pathNames chars)

end FileTree

end StreamLexer
