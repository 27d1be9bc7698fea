import Mathlib.Data.List.Basic
import StreamLexer.Byte.Class

/-!
# A recursive reader of comments

What follows the opener of a comment, read from left to right by recursion: comments nest, character
literals are opaque, and strings of both kinds hide whatever stands in them. The reader knows
nothing of rules, longest matches and modes; it is what the lexing of comments is compared with.

`readComment` is the reader, `readString` and `readQuoted` are its parts for the two kinds of
strings.
-/
namespace StreamLexer.Reader

/-! ## Marks -/

/-- What follows a mark, if the bytes start with it. -/
def after? (mark : List Char) (bytes : List UInt8) : Option (List UInt8) :=
  bytes.dropPrefix? (mark.map Char.toUInt8)

/-- What follows a line end: carriage returns, then a newline. -/
def afterLineEnd? (bytes : List UInt8) : Option (List UInt8) :=
  after? ['\n'] (bytes.dropWhile (· == '\r'.toUInt8))

/-- The `id` of `{id|`, and what follows it. -/
def quotedOpener? (bytes : List UInt8) : Option (List UInt8 × List UInt8) :=
  (after? ['{'] bytes).bind fun rest =>
    (after? ['|'] (rest.dropWhile Byte.isLower)).map fun body => (rest.takeWhile Byte.isLower, body)

/-- The opener of a comment, `(*` or `(*)`: its length, and what follows it. -/
def commentOpener? (bytes : List UInt8) : Option (Nat × List UInt8) :=
  (after? ['(', '*'] bytes).map fun rest =>
    match after? [')'] rest with
    | some body => (3, body)
    | none => (2, rest)

theorem after?_eq_some_iff {mark : List Char} {bytes rest : List UInt8} :
    after? mark bytes = some rest ↔ bytes = mark.map Char.toUInt8 ++ rest := by
  simp [after?, List.dropPrefix?_eq_some_iff]

theorem afterLineEnd?_eq_some {bytes rest : List UInt8} (h : afterLineEnd? bytes = some rest) :
    bytes = bytes.takeWhile (· == '\r'.toUInt8) ++ '\n'.toUInt8 :: rest := by
  have hdrop := after?_eq_some_iff.mp h
  calc bytes = bytes.takeWhile (· == '\r'.toUInt8) ++ bytes.dropWhile (· == '\r'.toUInt8) :=
        List.takeWhile_append_dropWhile.symm
    _ = bytes.takeWhile (· == '\r'.toUInt8) ++ '\n'.toUInt8 :: rest := by rw [hdrop]; rfl

theorem quotedOpener?_eq_some {bytes id rest : List UInt8}
    (h : quotedOpener? bytes = some (id, rest)) :
    bytes = '{'.toUInt8 :: id ++ '|'.toUInt8 :: rest ∧ ∀ b ∈ id, Byte.isLower b = true := by
  obtain ⟨tail, htail, hmap⟩ := Option.bind_eq_some_iff.mp h
  obtain ⟨body, hbody, hpair⟩ := Option.map_eq_some_iff.mp hmap
  obtain ⟨rfl, rfl⟩ : tail.takeWhile Byte.isLower = id ∧ body = rest := by simpa using hpair
  have hdrop := after?_eq_some_iff.mp hbody
  refine ⟨?_, fun b hb => List.all_eq_true.mp List.all_takeWhile b hb⟩
  have hsplit : tail = tail.takeWhile Byte.isLower ++ '|'.toUInt8 :: body := by
    conv => lhs; rw [← List.takeWhile_append_dropWhile (p := Byte.isLower) (l := tail), hdrop]
    rfl
  rw [after?_eq_some_iff.mp htail]
  conv => lhs; rw [hsplit]
  rfl

theorem commentOpener?_eq_some {bytes body : List UInt8} {n : Nat}
    (h : commentOpener? bytes = some (n, body)) :
    ∃ rest, bytes = '('.toUInt8 :: '*'.toUInt8 :: rest ∧
      (n = 3 ∧ after? [')'] rest = some body ∨ n = 2 ∧ after? [')'] rest = none ∧ rest = body) := by
  obtain ⟨rest, hstart, hpair⟩ := Option.map_eq_some_iff.mp h
  refine ⟨rest, after?_eq_some_iff.mp hstart, ?_⟩
  cases hparen : after? [')'] rest with
  | some body' =>
    rw [hparen] at hpair
    cases hpair
    exact .inl ⟨rfl, rfl⟩
  | none =>
    rw [hparen] at hpair
    cases hpair
    exact .inr ⟨rfl, rfl, rfl⟩

/-! ## Escapes -/

/-- The escapes of one letter, with the bytes they stand for. -/
def namedEscapes : List (Char × UInt8) :=
  [('\\', 92), ('\'', 39), ('"', 34), ('n', 10), ('t', 9), ('b', 8), ('r', 13), (' ', 32)]

/-- The byte of an escape of one letter. -/
def namedByte? (c : UInt8) : Option UInt8 :=
  (namedEscapes.find? (·.1.toUInt8 == c)).map (·.2)

/-- The byte of an escape of three decimal digits, none above 255. -/
def decimalByte? (d₁ d₂ d₃ : UInt8) : Option UInt8 :=
  let n := 100 * (d₁.toNat - 48) + 10 * (d₂.toNat - 48) + (d₃.toNat - 48)
  if n ≤ 255 then some (UInt8.ofNat n) else none

/-- The value of a hexadecimal digit. -/
def hexValue (b : UInt8) : Nat :=
  if Byte.isDecimal b then b.toNat - 48
  else if Byte.inRange 'a' 'f' b then b.toNat - 87
  else b.toNat - 55

/-- The byte of an escape of two hexadecimal digits. -/
def hexByte (d₁ d₂ : UInt8) : UInt8 :=
  UInt8.ofNat (16 * hexValue d₁ + hexValue d₂)

/-- An escape after its backslash: its byte, which is none if it is out of range, and what follows.
-/
def escape? (bytes : List UInt8) : Option (Option UInt8 × List UInt8) :=
  match bytes with
  | [] => none
  | c :: rest =>
    match namedByte? c, rest with
    | some byte, _ => some (some byte, rest)
    | none, d :: e :: rest =>
      if Byte.isDecimal c && Byte.isDecimal d && Byte.isDecimal e then
        some (decimalByte? c d e, rest)
      else if c == 'x'.toUInt8 && Byte.isHex d && Byte.isHex e then some (some (hexByte d e), rest)
      else none
    | none, _ => none

/-- What follows a character literal, given what follows its first quote. -/
def afterChar? (bytes : List UInt8) : Option (List UInt8) :=
  match bytes with
  | [] => none
  | c :: rest =>
    if c == '\''.toUInt8 then some rest
    else if c == '\\'.toUInt8 then (escape? rest).bind fun e => after? ['\''] e.2
    else if Byte.isLineEnd c then (afterLineEnd? bytes).bind (after? ['\''])
    else after? ['\''] rest

/-! ## Strings -/

/-- Puts bytes before the text that was read. -/
def prepend (bytes : List UInt8) (read : Option (List UInt8 × List UInt8)) :
    Option (List UInt8 × List UInt8) :=
  read.map fun (text, rest) => (bytes ++ text, rest)

theorem afterLineEnd?_length {bytes rest : List UInt8} (h : afterLineEnd? bytes = some rest) :
    rest.length < bytes.length := by
  have hlength := congrArg List.length (afterLineEnd?_eq_some h)
  simp only [List.length_append, List.length_cons] at hlength
  omega

theorem escape?_length {bytes rest : List UInt8} {byte? : Option UInt8}
    (h : escape? bytes = some (byte?, rest)) : rest.length < bytes.length := by
  unfold escape? at h
  split at h
  · cases h
  · split at h
    · cases h
      simp
    · split at h
      · cases h
        simp only [List.length_cons]
        omega
      · split at h
        · cases h
          simp only [List.length_cons]
          omega
        · cases h
    · cases h

set_option linter.unusedVariables false in
/-- A string between double quotes, after its first one: the text it denotes, and what follows its
last one. An escape out of range denotes an `x` here, as it does inside comments. -/
def readString (bytes : List UInt8) : Option (List UInt8 × List UInt8) :=
  match bytes with
  | [] => none
  | b :: rest =>
    if b == '"'.toUInt8 then some ([], rest)
    else if b == '\\'.toUInt8 then
      match hline : afterLineEnd? rest with
      | some next => readString (next.dropWhile (Byte.isAny [' ', '\t']))
      | none =>
        match hescape : escape? rest with
        | some (byte?, next) => prepend [byte?.getD 'x'.toUInt8] (readString next)
        | none =>
          match rest with
          | [] => none
          | c :: next => prepend [b, c] (readString next)
    else prepend [b] (readString rest)
termination_by bytes.length
decreasing_by
  · have hnext := afterLineEnd?_length hline
    have hdrop := (List.dropWhile_sublist (Byte.isAny [' ', '\t']) (l := next)).length_le
    simp only [List.length_cons]
    omega
  · have hnext := escape?_length hescape
    simp only [List.length_cons]
    omega
  · simp only [List.length_cons]
    omega
  · simp

/-- A string between `{id|` and `|id}`, after its opener: its text, and what follows its terminator.
-/
def readQuoted (id : List UInt8) (bytes : List UInt8) : Option (List UInt8 × List UInt8) :=
  match bytes.dropPrefix? ('|'.toUInt8 :: id ++ ['}'.toUInt8]) with
  | some rest => some ([], rest)
  | none =>
    match bytes with
    | [] => none
    | b :: rest => prepend [b] (readQuoted id rest)

theorem prepend_eq_some {bytes text rest : List UInt8} {read : Option (List UInt8 × List UInt8)}
    (h : prepend bytes read = some (text, rest)) :
    ∃ more, read = some (more, rest) ∧ text = bytes ++ more := by
  obtain ⟨⟨more, rest'⟩, hread, hpair⟩ := Option.map_eq_some_iff.mp h
  cases hpair
  exact ⟨more, hread, rfl⟩

theorem readString_length {bytes text rest : List UInt8}
    (h : readString bytes = some (text, rest)) : rest.length < bytes.length := by
  fun_induction readString bytes generalizing text with
  | case1 => cases h
  | case2 b tail hquote =>
    cases h
    simp
  | case3 b tail hquote hback next hline ih =>
    have hnext := afterLineEnd?_length hline
    have hdrop := (List.dropWhile_sublist (Byte.isAny [' ', '\t']) (l := next)).length_le
    have hrest := ih h
    simp only [List.length_cons]
    omega
  | case4 b tail hquote hback hline byte? next hescape ih =>
    obtain ⟨more, hread, -⟩ := prepend_eq_some h
    have hnext := escape?_length hescape
    have hrest := ih hread
    simp only [List.length_cons]
    omega
  | case5 => cases h
  | case6 b hquote hback c next hline hescape ih =>
    obtain ⟨more, hread, -⟩ := prepend_eq_some h
    have hrest := ih hread
    simp only [List.length_cons]
    omega
  | case7 b tail hquote hback ih =>
    obtain ⟨more, hread, -⟩ := prepend_eq_some h
    have hrest := ih hread
    simp only [List.length_cons]
    omega

theorem readQuoted_length {id bytes text rest : List UInt8}
    (h : readQuoted id bytes = some (text, rest)) : rest.length < bytes.length := by
  fun_induction readQuoted id bytes generalizing text with
  | case1 bytes rest' hend =>
    cases h
    obtain ⟨mark, rfl, hmark⟩ := List.dropPrefix?_eq_some_iff.mp hend
    have hlength := congrArg List.length (eq_of_beq hmark)
    simp only [List.length_append, List.length_cons] at hlength ⊢
    omega
  | case2 => cases h
  | case3 b tail hend ih =>
    obtain ⟨more, hread, -⟩ := prepend_eq_some h
    have hrest := ih hread
    simp only [List.length_cons]
    omega

/-! ## Comments -/

/-- What the reader finds. -/
inductive Reading where
  /-- The comment ends: its text, and what follows it. -/
  | closed (text rest : List UInt8)
  /-- The input ends outside any string, with so many comments open. -/
  | unclosed (depth : Nat)
  /-- The input ends inside a string with this opener, with so many comments open. What follows the
  opener is left. -/
  | unclosedString (depth : Nat) (opener rest : List UInt8)
  deriving DecidableEq

/-- Puts bytes before the text of the comment. -/
def Reading.prepend (bytes : List UInt8) : Reading → Reading
  | .closed text rest => .closed (bytes ++ text) rest
  | reading => reading

/-- What follows a character literal, if the bytes start with one. -/
def afterCharLiteral? (bytes : List UInt8) : Option (List UInt8) :=
  (after? ['\''] bytes).bind afterChar?

theorem after?_length {c : Char} {bytes rest : List UInt8} (h : after? [c] bytes = some rest) :
    rest.length < bytes.length := by
  rw [after?_eq_some_iff.mp h]
  simp

theorem afterChar?_length {bytes rest : List UInt8} (h : afterChar? bytes = some rest) :
    rest.length < bytes.length := by
  unfold afterChar? at h
  split at h
  · cases h
  · split at h
    · cases h
      simp
    · split at h
      · obtain ⟨⟨byte?, next⟩, hescape, hquote⟩ := Option.bind_eq_some_iff.mp h
        have hnext := escape?_length hescape
        have hrest := after?_length hquote
        simp only [List.length_cons] at *
        omega
      · split at h
        · obtain ⟨next, hline, hquote⟩ := Option.bind_eq_some_iff.mp h
          have hnext := afterLineEnd?_length hline
          have hrest := after?_length hquote
          omega
        · have hrest := after?_length h
          simp only [List.length_cons]
          omega

theorem afterCharLiteral?_length {bytes rest : List UInt8}
    (h : afterCharLiteral? bytes = some rest) : rest.length < bytes.length := by
  obtain ⟨next, hquote, hchar⟩ := Option.bind_eq_some_iff.mp h
  have hnext := after?_length hquote
  have hrest := afterChar?_length hchar
  omega

theorem quotedOpener?_length {bytes id rest : List UInt8}
    (h : quotedOpener? bytes = some (id, rest)) : rest.length < bytes.length := by
  rw [(quotedOpener?_eq_some h).1]
  simp only [List.length_append, List.length_cons]
  omega

set_option linter.unusedVariables false in
/-- A comment with `inner` more comments open inside it, after its opener. -/
def readComment (inner : Nat) (bytes : List UInt8) : Reading :=
  match bytes with
  | [] => .unclosed (inner + 1)
  | b :: rest =>
    if b == '('.toUInt8 && rest.head? == some '*'.toUInt8 then
      (readComment (inner + 1) rest.tail).prepend [b, '*'.toUInt8]
    else if b == '*'.toUInt8 && rest.head? == some ')'.toUInt8 then
      match inner with
      | 0 => .closed [] rest.tail
      | inner + 1 => (readComment inner rest.tail).prepend [b, ')'.toUInt8]
    else if b == '"'.toUInt8 then
      match hstring : readString rest with
      | some (text, next) => (readComment inner next).prepend (b :: text ++ [b])
      | none => .unclosedString (inner + 1) [b] rest
    else
      match hopener : quotedOpener? (b :: rest) with
      | some (id, body) =>
        match hquoted : readQuoted id body with
        | some (text, next) =>
          (readComment inner next).prepend
            (b :: id ++ '|'.toUInt8 :: text ++ '|'.toUInt8 :: id ++ ['}'.toUInt8])
        | none => .unclosedString (inner + 1) (b :: id ++ ['|'.toUInt8]) body
      | none =>
        match hchar : afterCharLiteral? (b :: rest) with
        | some next =>
          (readComment inner next).prepend ((b :: rest).take ((b :: rest).length - next.length))
        | none => (readComment inner rest).prepend [b]
termination_by bytes.length
decreasing_by
  · simp only [List.length_tail, List.length_cons]
    omega
  · simp only [List.length_tail, List.length_cons]
    omega
  · have hnext := readString_length hstring
    simp only [List.length_cons]
    omega
  · have hbody := quotedOpener?_length hopener
    have hnext := readQuoted_length hquoted
    omega
  · exact afterCharLiteral?_length hchar
  · simp

end StreamLexer.Reader
