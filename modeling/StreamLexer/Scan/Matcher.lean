import StreamLexer.Source.Cursor

/-!
Matchers: computations that look through a cursor at the bytes from the start of a lexeme. They try
the rules that can start with the first byte, each with as many looks ahead as it needs, and keep
the longest candidate.

`Matcher.verdict` says what has been decided: nothing at all if any look went past the held bytes of
an open lookahead, be it that of a candidate that lost. Matching has no effect, so the same lexeme
can be tried again when there is more to read.
-/
namespace StreamLexer

variable {ρ : Type}

/-- The answer of a scan. -/
inductive Verdict (ρ : Type) where
  /-- Some rule may still match more than the held bytes. -/
  | undecided
  /-- The lexeme has this rule and this length in bytes. -/
  | found (rule : ρ) (length : Nat)
  deriving DecidableEq

/-- The longest candidate so far. -/
structure Longest (ρ : Type) where
  rule : ρ
  length : Nat
  deriving DecidableEq

/-- Takes another candidate into account, if there is one. Of two of the same length the earlier
one stays. -/
def Longest.orLonger (best : Longest ρ) : Option (ρ × Nat) → Longest ρ
  | some (rule, length) => if best.length < length then ⟨rule, length⟩ else best
  | none => best

/-- Takes a candidate of a rule into account, if it has a length. -/
def Longest.offer (best : Longest ρ) (rule : ρ) (length? : Option Nat) : Longest ρ :=
  best.orLonger (length?.map (rule, ·))

/-- A computation that reads through a cursor. -/
abbrev Matcher := StateM Cursor

namespace Matcher

/-- What the matcher decides about a lookahead: its rule, with the bytes that it has passed. -/
def verdict (m : Matcher ρ) (view : Lookahead) : Verdict ρ :=
  match m { view } with
  | (rule, c) => if c.starved then .undecided else .found rule c.pos

/-! ## Looks -/

/-- The byte `n` ahead. -/
def peekAt (n : Nat) : Matcher (Option UInt8) :=
  fun c => c.peekAt n

/-- Whether the byte `n` ahead is in a set. -/
def isAtIn (n : Nat) (set : UInt8 → Bool) : Matcher Bool :=
  fun c => c.isAtIn n set

/-- Whether a character is `n` ahead. -/
def isAt (n : Nat) (char : Char) : Matcher Bool :=
  fun c => c.isAt n char.toUInt8

/-- Whether bytes of these sets follow each other from `n` ahead on. No look goes past the first
byte that is not in its set. -/
def areAtIn (n : Nat) : List (UInt8 → Bool) → Matcher Bool
  | [] => return true
  | set :: sets => do
    if ← isAtIn n set then areAtIn (n + 1) sets else return false

/-- Whether a text is `n` ahead. -/
def isSpelled (n : Nat) (text : List Char) : Matcher Bool :=
  areAtIn n (text.map fun char b => b == char.toUInt8)

/-- Length of the run of bytes of a set that starts `start` ahead. -/
def runLength (start : Nat) (set : UInt8 → Bool) : Matcher Nat :=
  fun c => c.runLength start set

/-- Length of the line end that starts `start` ahead, if there is one. -/
def lineEndLength (start : Nat) : Matcher (Option Nat) :=
  fun c => c.newlineLength start

/-! ## Moves -/

/-- Moves on. -/
def advance (n : Nat) : Matcher Unit :=
  fun c => ((), c.advance n)

/-- Moves over the run of bytes of a set. -/
def eatWhile (set : UInt8 → Bool) : Matcher Nat :=
  fun c => c.eatWhile set

/-- Moves over a lexeme. -/
def take (rule : ρ) (length : Nat) : Matcher ρ := do
  advance length
  return rule

/-- Moves over the longest candidate. -/
def accept (best : Longest ρ) : Matcher ρ :=
  take best.rule best.length

/-- Moves over plain content as far as it is held, given how. -/
def skip (rule : ρ) (move : Cursor → Nat × Cursor) : Matcher ρ := do
  let _ ← (move : Matcher Nat)
  return rule

/-! ## Forms that several scans share -/

/-- Chooses by the first byte. At the end of what is held the rule is `last`. -/
def byFirst (last : ρ) (choose : UInt8 → Matcher ρ) : Matcher ρ := do
  match ← peekAt 0 with
  | some b => choose b
  | none => return last

/-- The longest of some texts; the single byte under the cursor if none of them is there. -/
def spelled (texts : List (List Char × ρ)) (single : ρ) : Matcher (Longest ρ) :=
  texts.foldlM (fun best text => do
    let there ← isSpelled 0 text.1
    return best.offer text.2 (if there then some text.1.length else none)) ⟨single, 1⟩

/-- Moves over what has been found, or over the single byte under the cursor. -/
def takeOr (single : ρ) : Option (ρ × Nat) → Matcher ρ
  | some (rule, length) => take rule length
  | none => take single 1

/-- Two bytes if the second one is this character, else the single byte under the cursor. -/
def pair (second : Char) (both single : ρ) : Matcher ρ := do
  if ← isAt 1 second then take both 2 else take single 1

/-- A line end, or the single byte under the cursor. -/
def lineEnd (whole single : ρ) : Matcher ρ := do
  takeOr single ((← lineEndLength 0).map (whole, ·))

/-- Length of `{`, letters that start a small identifier, `|`. -/
def quotedOpenLength : Matcher (Option Nat) := do
  let name ← runLength 1 Byte.isLower
  if ← isAt (1 + name) '|' then return some (name + 2) else return none

/-- Length of `<:id<`, `<:id@id<` or `<@id<`. -/
def quotationOpenLength : Matcher (Option Nat) := do
  match ← peekAt 1 with
  | some b =>
    if b == ':'.toUInt8 then
      let stop := 2 + (← runLength 2 Byte.isIdent)
      if ← isAt stop '<' then return some (stop + 1)
      else if ← isAt stop '@' then
        let stop := stop + 1 + (← runLength (stop + 1) Byte.isIdent)
        if ← isAt stop '<' then return some (stop + 1) else return none
      else return none
    else if b == '@'.toUInt8 then
      let stop := 2 + (← runLength 2 Byte.isIdent)
      if ← isAt stop '<' then return some (stop + 1) else return none
    else return none
  | none => return none

end Matcher

/-- The forms of character literals. -/
inductive CharForm where
  | newline
  | plain
  | namedEscape
  | decimalEscape
  | hexEscape
  deriving DecidableEq

namespace Matcher

/-- The escape with this first byte in a character literal, with the length of the literal. -/
def escapedChar (e : UInt8) : Matcher (Option (CharForm × Nat)) := do
  if ← pure (Byte.isNamedEscape e) <&&> isAt 3 '\'' then return some (.namedEscape, 4)
  else if ← pure (Byte.isDecimal e) <&&>
      areAtIn 3 [Byte.isDecimal, Byte.isDecimal, (· == '\''.toUInt8)] then
    return some (.decimalEscape, 6)
  else if ← pure (e == 'x'.toUInt8) <&&>
      areAtIn 3 [Byte.isHex, Byte.isHex, (· == '\''.toUInt8)] then
    return some (.hexEscape, 6)
  else return none

/-- A character literal that is no line end, with its length. -/
def charOnLine : Matcher (Option (CharForm × Nat)) := do
  match ← peekAt 1 with
  | some b =>
    if b == '\\'.toUInt8 then
      match ← peekAt 2 with
      | some e => escapedChar e
      | none => return none
    else if Byte.isAny ['\'', '\n', '\r'] b then return none
    else if ← isAt 2 '\'' then return some (.plain, 3)
    else return none
  | none => return none

/-- A character literal, with its length. -/
def charLiteral : Matcher (Option (CharForm × Nat)) := do
  match ← lineEndLength 1 with
  | some line =>
    if ← isAt (1 + line) '\'' then return some (.newline, line + 2) else charOnLine
  | none => charOnLine

end Matcher

end StreamLexer
