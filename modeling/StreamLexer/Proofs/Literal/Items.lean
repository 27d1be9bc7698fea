import StreamLexer.Diagnostic.Basic
import StreamLexer.Proofs.Comment.Reader

/-!
# A recursive reader of string literals

What follows the opening quote of a string outside comments, read from left to right as items, each
of which denotes some bytes: `readItems`. Like the reader of comments it knows nothing of rules,
longest matches and modes. It keeps where the items lie, as they may call for warnings.
-/
namespace StreamLexer.Reader

/-! ## Items -/

/-- What a string is made of. -/
inductive Item where
  /-- A backslash before a line end, with the blanks behind it. -/
  | continuation
  /-- An escape of a byte. -/
  | escape (byte : UInt8)
  /-- A backslash before a byte that it makes no escape with. -/
  | unknown (byte : UInt8)
  /-- A line end, with so many carriage returns before its newline. -/
  | lineEnd (returns : Nat)
  /-- Any other byte. -/
  | plain (byte : UInt8)
  deriving DecidableEq

/-- The bytes that an item denotes. An unknown escape and a line end denote themselves. -/
def Item.denotes : Item → List UInt8
  | .continuation => []
  | .escape byte | .plain byte => [byte]
  | .unknown byte => ['\\'.toUInt8, byte]
  | .lineEnd returns => List.replicate returns '\r'.toUInt8 ++ ['\n'.toUInt8]

/-- The warning that an item calls for. -/
def Item.warning? : Item → Option WarningKind
  | .unknown _ => some .illegalBackslash
  | .lineEnd _ => some .eolInString
  | .continuation | .escape _ | .plain _ => none

/-- Why no item is next. -/
inductive Ending where
  /-- The closing quote. -/
  | closed
  /-- A decimal escape above 255, with its four bytes. -/
  | outOfRange (escape : List UInt8)
  /-- The end of the input, or a backslash right before it. -/
  | missing
  deriving DecidableEq

/-- What stands at the start of the bytes. -/
inductive Head where
  | item (item : Item) (rest : List UInt8)
  | ending (ending : Ending)
  deriving DecidableEq

/-- The first item, or why there is none. -/
def head (bytes : List UInt8) : Head :=
  match bytes with
  | [] => .ending .missing
  | b :: rest =>
    if b == '"'.toUInt8 then .ending .closed
    else if b == '\\'.toUInt8 then
      match afterLineEnd? rest, escape? rest, rest with
      | some next, _, _ => .item .continuation (next.dropWhile (Byte.isAny [' ', '\t']))
      | none, some (some byte, next), _ => .item (.escape byte) next
      | none, some (none, _), _ => .ending (.outOfRange (bytes.take 4))
      | none, none, c :: next => .item (.unknown c) next
      | none, none, [] => .ending .missing
    else
      match afterLineEnd? bytes with
      | some next => .item (.lineEnd (bytes.takeWhile (· == '\r'.toUInt8)).length) next
      | none => .item (.plain b) rest

/-- What the bytes are where the head is this one. -/
inductive Shape : List UInt8 → Head → Prop
  | empty : Shape [] (.ending .missing)
  | quote (rest : List UInt8) : Shape ('"'.toUInt8 :: rest) (.ending .closed)
  | continuation {rest next : List UInt8} (line : afterLineEnd? rest = some next) :
      Shape ('\\'.toUInt8 :: rest)
        (.item .continuation (next.dropWhile (Byte.isAny [' ', '\t'])))
  | escape {rest next : List UInt8} {byte : UInt8} (line : afterLineEnd? rest = none)
      (found : escape? rest = some (some byte, next)) :
      Shape ('\\'.toUInt8 :: rest) (.item (.escape byte) next)
  | outOfRange {rest next : List UInt8} (line : afterLineEnd? rest = none)
      (found : escape? rest = some (none, next)) :
      Shape ('\\'.toUInt8 :: rest) (.ending (.outOfRange (('\\'.toUInt8 :: rest).take 4)))
  | unknown {c : UInt8} {next : List UInt8} (line : afterLineEnd? (c :: next) = none)
      (found : escape? (c :: next) = none) :
      Shape ('\\'.toUInt8 :: c :: next) (.item (.unknown c) next)
  | lone : Shape ['\\'.toUInt8] (.ending .missing)
  | lineEnd {bytes next : List UInt8} (line : afterLineEnd? bytes = some next) :
      Shape bytes (.item (.lineEnd (bytes.takeWhile (· == '\r'.toUInt8)).length) next)
  | plain {b : UInt8} {rest : List UInt8} (quote : (b == '"'.toUInt8) = false)
      (back : (b == '\\'.toUInt8) = false) (line : afterLineEnd? (b :: rest) = none) :
      Shape (b :: rest) (.item (.plain b) rest)

theorem head_shape (bytes : List UInt8) : Shape bytes (head bytes) := by
  cases bytes with
  | nil => exact .empty
  | cons b rest =>
    cases hquote : b == '"'.toUInt8 with
    | true =>
      simp only [head, hquote, if_true]
      rw [eq_of_beq hquote]
      exact .quote rest
    | false =>
      cases hback : b == '\\'.toUInt8 with
      | true =>
        simp only [head, hquote, hback, if_true, Bool.false_eq_true, if_false]
        rw [eq_of_beq hback]
        cases hline : afterLineEnd? rest with
        | some next => exact .continuation hline
        | none =>
          cases hescape : escape? rest with
          | none =>
            cases rest with
            | nil => exact .lone
            | cons c next => exact .unknown hline hescape
          | some found =>
            obtain ⟨byte?, next⟩ := found
            cases byte? with
            | none => exact .outOfRange hline hescape
            | some byte => exact .escape hline hescape
      | false =>
        simp only [head, hquote, hback, Bool.false_eq_true, if_false]
        cases hline : afterLineEnd? (b :: rest) with
        | some next => exact .lineEnd hline
        | none => exact .plain hquote hback hline

theorem Shape.of_head {bytes : List UInt8} {found : Head} (h : head bytes = found) :
    Shape bytes found :=
  h ▸ head_shape bytes

theorem head_length {bytes rest : List UInt8} {item : Item} (h : head bytes = .item item rest) :
    rest.length < bytes.length := by
  cases Shape.of_head h with
  | @continuation tail next line =>
    have hnext := afterLineEnd?_length line
    have hdrop := (List.dropWhile_sublist (Byte.isAny [' ', '\t']) (l := next)).length_le
    simp only [List.length_cons]
    omega
  | escape line found =>
    have hnext := escape?_length found
    simp only [List.length_cons]
    omega
  | unknown line found =>
    simp only [List.length_cons]
    omega
  | lineEnd line => exact afterLineEnd?_length line
  | plain => simp

/-- An escape of a byte is one item. -/
theorem head_escape {rest next : List UInt8} {byte : UInt8} (line : afterLineEnd? rest = none)
    (found : escape? rest = some (some byte, next)) :
    head ('\\'.toUInt8 :: rest) = .item (.escape byte) next := by
  have hquote : ('\\'.toUInt8 == '"'.toUInt8) = false := rfl
  simp only [head, hquote, beq_self_eq_true, line, found, Bool.false_eq_true, if_false, if_true]

/-! ## Literals -/

/-- An item with its range in the source. -/
structure Placed where
  item : Item
  start : Nat
  stop : Nat
  deriving DecidableEq

/-- The warning that an item calls for, with the range of the item. -/
def Placed.notes (placed : Placed) : List (WarningKind × Nat × Nat) :=
  (placed.item.warning?.map fun kind => (kind, placed.start, placed.stop)).toList

/-- A string as it stands in the source. -/
structure Literal where
  items : List Placed
  ending : Ending
  /-- Where the items end. -/
  stop : Nat
  deriving DecidableEq

namespace Literal

/-- The bytes that the items denote together. -/
def text (literal : Literal) : List UInt8 :=
  literal.items.flatMap (·.item.denotes)

/-- The warnings that the items call for. -/
def notes (literal : Literal) : List (WarningKind × Nat × Nat) :=
  literal.items.flatMap Placed.notes

/-- The string with one more item before the others. -/
def prepend (placed : Placed) (literal : Literal) : Literal :=
  { literal with items := placed :: literal.items }

section Prepend

variable (placed : Placed) (literal : Literal)

@[simp] theorem text_prepend :
    (literal.prepend placed).text = placed.item.denotes ++ literal.text := rfl

@[simp] theorem notes_prepend : (literal.prepend placed).notes = placed.notes ++ literal.notes :=
  rfl

@[simp] theorem ending_prepend : (literal.prepend placed).ending = literal.ending := rfl

@[simp] theorem stop_prepend : (literal.prepend placed).stop = literal.stop := rfl

end Prepend

end Literal

set_option linter.unusedVariables false in
/-- The string whose first item is at the offset. -/
def readItems (offset : Nat) (bytes : List UInt8) : Literal :=
  match hhead : head bytes with
  | .ending ending => ⟨[], ending, offset⟩
  | .item item rest =>
    (readItems (offset + (bytes.length - rest.length)) rest).prepend
      ⟨item, offset, offset + (bytes.length - rest.length)⟩
termination_by bytes.length
decreasing_by exact head_length hhead

theorem readItems_of_ending {bytes : List UInt8} {ending : Ending}
    (h : head bytes = .ending ending) (offset : Nat) :
    readItems offset bytes = ⟨[], ending, offset⟩ := by
  rw [readItems]
  split
  · rename_i found hfound
    rw [h] at hfound
    cases hfound
    rfl
  · rename_i hfound
    rw [h] at hfound
    cases hfound

theorem readItems_of_item {bytes rest : List UInt8} {item : Item}
    (h : head bytes = .item item rest) (offset : Nat) :
    readItems offset bytes = (readItems (offset + (bytes.length - rest.length)) rest).prepend
      ⟨item, offset, offset + (bytes.length - rest.length)⟩ := by
  rw [readItems]
  split
  · rename_i hfound
    rw [h] at hfound
    cases hfound
  · rename_i hfound
    rw [h] at hfound
    cases hfound
    rfl

example : (readItems 1 ("a\\\r\n \\065\\q\r\n\\x41\"".toList.map Char.toUInt8)).text =
    "aA\\q\r\nA".toList.map Char.toUInt8 := by decide +kernel

end StreamLexer.Reader
