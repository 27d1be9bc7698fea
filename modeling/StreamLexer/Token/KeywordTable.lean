import StreamLexer.Token.Kind

/-!
Which words are reserved. A table has its own entries before the fixed ones, so that a caller can
reserve more words or give a reserved word another meaning. A reserved word cannot be a label name.
-/
namespace StreamLexer

/-- Words that are operators, with their class. -/
def operatorWords : List (String × OperatorClass) :=
  [("mod", .level3), ("land", .level3), ("lor", .level3), ("lxor", .level3),
   ("lsl", .level4), ("lsr", .level4), ("asr", .level4)]

/-- The meaning of a word that every table reserves. -/
def fixedKeyword? (word : String) : Option TokenKind :=
  match Keyword.all.find? (·.spelling == word) with
  | some keyword => some (.keyword keyword)
  | none => (operatorWords.lookup word).map (.operator · word)

/-- A keyword table: the entries put before the fixed ones, each spelling at most once. -/
structure KeywordTable where
  overrides : List (String × TokenKind) := []
  deriving DecidableEq

namespace KeywordTable

/-- Reserves a word; an earlier entry for it is replaced. -/
def insert (t : KeywordTable) (word : String) (kind : TokenKind) : KeywordTable :=
  { overrides := (word, kind) :: t.overrides.filter (·.1 != word) }

/-- The table with these entries, of which a later one for the same word wins. -/
def ofList (entries : List (String × TokenKind)) : KeywordTable :=
  entries.foldl (fun t entry => t.insert entry.1 entry.2) {}

/-- Number of entries put before the fixed ones. -/
def size (t : KeywordTable) : Nat :=
  t.overrides.length

/-- The meaning of a word, if it is reserved. -/
def lookup? (t : KeywordTable) (word : String) : Option TokenKind :=
  match t.overrides.lookup word with
  | some kind => some kind
  | none => fixedKeyword? word

/-- The word is reserved. -/
def isReserved (t : KeywordTable) (word : String) : Bool :=
  (t.lookup? word).isSome

end KeywordTable

end StreamLexer
