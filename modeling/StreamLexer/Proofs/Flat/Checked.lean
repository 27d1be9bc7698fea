import StreamLexer.Proofs.Scan.WordBytes
import StreamLexer.Scan.BodyRule
import StreamLexer.Session.Word

/-!
# Checked reads of a lexeme

The token of a lexeme is made from parts of it that are taken at fixed places and decoded without
another look at their shape: the rule that matched stands for both. Here each such read is checked
first and gives nothing if the check fails. The main statement is `WordRule.read?_eq`: on a lexeme
that its rule matched no check fails, and the checked reader is `WordRule.read`.
-/
namespace StreamLexer

/-! ## Checks -/

/-- The number before, if there is one. -/
def predecessor? (n : Nat) : Option Nat :=
  if 1 ≤ n then some (n - 1) else none

namespace Lexeme

/-- The bytes from one place up to another, if those come in this order within the lexeme. -/
def between? (lexeme : List UInt8) (start stop : Nat) : Option (List UInt8) :=
  if start ≤ stop ∧ stop ≤ lexeme.length then some ((lexeme.drop start).take (stop - start))
  else none

/-- The bytes between the first and the last one. -/
def inner? (lexeme : List UInt8) : Option (List UInt8) := do
  let last ← predecessor? lexeme.length
  between? lexeme 1 last

/-- The bytes without the last one. -/
def unsuffixed? (lexeme : List UInt8) : Option (List UInt8) := do
  let last ← predecessor? lexeme.length
  between? lexeme 0 last

/-- The bytes between two places, if all of them are of a set. -/
def digits? (set : UInt8 → Bool) (lexeme : List UInt8) (start stop : Nat) :
    Option (List UInt8) := do
  let bytes ← between? lexeme start stop
  if bytes.all set then some bytes else none

theorem inner?_eq {lexeme : List UInt8} (h : 2 ≤ lexeme.length) :
    inner? lexeme = some (inner lexeme) := by
  have hlast : predecessor? lexeme.length = some (lexeme.length - 1) := by
    rw [predecessor?, if_pos (by omega)]
  have hparts : 1 ≤ lexeme.length - 1 ∧ lexeme.length - 1 ≤ lexeme.length := by omega
  simp only [inner?, hlast, Option.bind_eq_bind, Option.bind_some, between?, if_pos hparts, inner,
    List.dropLast_eq_take, List.length_drop]

theorem unsuffixed?_append (bytes : List UInt8) (b : UInt8) :
    unsuffixed? (bytes ++ [b]) = some bytes := by
  simp [unsuffixed?, predecessor?, between?]

end Lexeme

/-- A digit of the radix, or an underscore between digits. -/
def Numeral.isDigitOf (radix : Nat) (b : UInt8) : Bool :=
  match radix with
  | 16 => Byte.isHex b || b == '_'.toUInt8
  | 8 => Byte.isOctal b || b == '_'.toUInt8
  | 2 => Byte.isBinary b || b == '_'.toUInt8
  | _ => Byte.isDecimal b || b == '_'.toUInt8

namespace WordRule

/-- A label. -/
def readLabel? (keywords : KeywordTable) (make : String → TokenKind) (lexeme : List UInt8) :
    Option (Except WordFault TokenKind) := do
  let name := Latin1.decode (← Lexeme.inner? lexeme)
  some (if keywords.isReserved name then .error (.keywordAsLabel name) else .ok (make name))

/-- The digits of an integer literal, without the suffix of its type. -/
def integerDigits? (type : IntType) (lexeme : List UInt8) : Option (List UInt8) :=
  if type.suffix?.isSome then Lexeme.unsuffixed? lexeme else some lexeme

/-- An integer of a type, from digits of one radix. A value of a 32-bit type has to fit 32 bits. -/
def readDigits? (type : IntType) (digits : List UInt8) : Option (Except WordFault TokenKind) :=
  if (Numeral.splitRadix digits).2.all (Numeral.isDigitOf (Numeral.splitRadix digits).1) then
    match Numeral.integer? type digits with
    | some value =>
      if type = .int32 → -2 ^ 31 ≤ value ∧ value < 2 ^ 31 then some (.ok (.integer type value))
      else none
    | none => some (.error (.literalOverflow type))
  else none

/-- The token of a lexeme, or what is wrong with it, with every read checked. The rules that are not
listed read the lexeme as a whole. -/
def read? (keywords : KeywordTable) (rule : WordRule) (lexeme : List UInt8) :
    Option (Except WordFault TokenKind) :=
  match rule with
  | .label => readLabel? keywords .label lexeme
  | .optLabel => readLabel? keywords .optLabel lexeme
  | .integer type => do
    let digits ← integerDigits? type lexeme
    readDigits? type digits
  | .charNewline | .char => do
    let byte ← lexeme[1]?
    some (.ok (.char byte))
  | .charEscape => do
    let letter ← lexeme[2]?
    some (.ok (.char (ByteEscape.named letter)))
  | .charDecimal => do
    let digits ← Lexeme.digits? Byte.isDecimal lexeme 2 5
    match ByteEscape.decimal? digits with
    | some byte => some (.ok (.char byte))
    | none =>
      let escape ← Lexeme.between? lexeme 1 5
      some (.error (.illegalEscape (Latin1.decode escape)))
  | .charHex => do
    let digits ← Lexeme.digits? Byte.isHex lexeme 3 5
    some (.ok (.char (ByteEscape.hex digits)))
  | .charIllegal => do
    let escape ← Lexeme.between? lexeme 1 lexeme.length
    some (.error (.illegalEscape (Latin1.decode escape)))
  | .illegalByte => do
    let byte ← lexeme[0]?
    some (.error (.illegalCharacter byte))
  | _ => some (rule.read keywords lexeme)

end WordRule

/-! ## The shape of lexemes -/

namespace Pattern

/-- Number of bytes that every word of the pattern has at least. -/
def shortest : Pattern → Nat
  | [] => 0
  | .one _ :: p => shortest p + 1
  | .many _ :: p => shortest p

theorem shortest_le {p : Pattern} {w : List UInt8} (h : p.Accepts w) : p.shortest ≤ w.length := by
  induction p generalizing w with
  | nil => exact Nat.zero_le _
  | cons piece p ih =>
    cases piece with
    | one set =>
      obtain ⟨b, v, rfl, -, hv⟩ := h
      exact Nat.succ_le_succ (ih hv)
    | many set =>
      obtain ⟨u, v, rfl, -, hv⟩ := h
      rw [List.length_append]
      exact Nat.le_trans (ih hv) (Nat.le_add_left _ _)

theorem accepts_decimalEscape {w : List UInt8} (h : decimalEscape.Accepts w) :
    ∃ b d₁ d₂ d₃, Byte.isDecimal d₁ = true ∧ Byte.isDecimal d₂ = true ∧
      Byte.isDecimal d₃ = true ∧ w = [b, d₁, d₂, d₃] := by
  obtain ⟨b, _, rfl, -, d₁, _, rfl, hd₁, d₂, _, rfl, hd₂, d₃, _, rfl, hd₃, rfl⟩ := h
  exact ⟨b, d₁, d₂, d₃, hd₁, hd₂, hd₃, rfl⟩

theorem accepts_hexEscape {w : List UInt8} (h : hexEscape.Accepts w) :
    ∃ b x d₁ d₂, Byte.isHex d₁ = true ∧ Byte.isHex d₂ = true ∧ w = [b, x, d₁, d₂] := by
  obtain ⟨b, _, rfl, -, x, _, rfl, -, d₁, _, rfl, hd₁, d₂, _, rfl, hd₂, rfl⟩ := h
  exact ⟨b, x, d₁, d₂, hd₁, hd₂, rfl⟩

theorem accepts_inQuotes {p : Pattern} {w : List UInt8} (h : (inQuotes p).Accepts w) :
    ∃ u first last, w = first :: (u ++ [last]) ∧ p.Accepts u := by
  obtain ⟨first, _, rfl, -, hrest⟩ := h
  obtain ⟨u, _, rfl, hu, last, _, rfl, -, rfl⟩ := accepts_append hrest
  exact ⟨u, first, last, rfl, hu⟩

end Pattern

/-- The lexeme of a rule is as long as the words of its patterns are at least. -/
theorem le_length_of_first {ρ : Type} [DecidableEq ρ] {rows : List (ρ × Pattern)} {rule : ρ}
    {n : Nat} (hrows : ((patternsOf rows rule).all fun p => n ≤ p.shortest) = true)
    {lexeme : List UInt8} (h : firstAccepting? rows lexeme = some rule) : n ≤ lexeme.length := by
  obtain ⟨p, hp, haccepts⟩ := exists_patternsOf h
  have hle : n ≤ p.shortest := by simpa using List.all_eq_true.mp hrows p hp
  exact Nat.le_trans hle (Pattern.shortest_le haccepts)

/-- A line that is continued has its line end in the lexeme. -/
theorem StringRule.findIdx?_lineContinuation {lexeme : List UInt8}
    (h : firstAccepting? StringRule.rows lexeme = some .lineContinuation) :
    lexeme.findIdx? (· == '\n'.toUInt8) = some (lexeme.findIdx (· == '\n'.toUInt8)) := by
  obtain ⟨p, hp, haccepts⟩ := exists_patternsOf h
  obtain rfl := List.mem_singleton.mp hp
  obtain ⟨b, hb, hnewline⟩ : ∃ b ∈ lexeme, b ∈ ['\n'.toUInt8] :=
    Pattern.exists_mem_of_needs (by decide +kernel) haccepts
  obtain rfl := List.mem_singleton.mp hnewline
  have hlt : lexeme.findIdx (· == '\n'.toUInt8) < lexeme.length :=
    List.findIdx_lt_length_of_exists ⟨_, hb, beq_self_eq_true '\n'.toUInt8⟩
  exact List.findIdx?_eq_some_iff_findIdx_eq.mpr ⟨hlt, rfl⟩

/-! ## The checks hold -/

namespace WordRule

variable {lexeme : List UInt8}

theorem readLabel?_eq (h : 2 ≤ lexeme.length) (keywords : KeywordTable)
    (make : String → TokenKind) :
    readLabel? keywords make lexeme = some (readLabel keywords make lexeme) := by
  rw [readLabel?, Lexeme.inner?_eq h]
  rfl

end WordRule

namespace Numeral

/-- The value of a 32-bit literal fits into 32 bits. -/
theorem range_of_int32 {digits : List UInt8} {value : Int}
    (h : integer? .int32 digits = some value) : -2 ^ 31 ≤ value ∧ value < 2 ^ 31 := by
  simp only [integer?] at h
  split at h
  · obtain rfl := Option.some.inj h
    have hle := Int.le_bmod (x := (value (splitRadix digits).1 (splitRadix digits).2 : Int))
      (Nat.two_pow_pos 32)
    have hlt := Int.bmod_lt (x := (value (splitRadix digits).1 (splitRadix digits).2 : Int))
      (Nat.two_pow_pos 32)
    constructor
    · exact hle
    · exact hlt
  · cases h

/-- A byte that goes on with decimal digits is no letter for a radix. -/
theorem not_radix_letter {b : UInt8} (h : (Byte.isDecimal b || b == '_'.toUInt8) = true) :
    Byte.isAny ['x', 'X'] b = false ∧ Byte.isAny ['o', 'O'] b = false ∧
      Byte.isAny ['b', 'B'] b = false := by
  have hb := Byte.forall_of_range (p := fun b => !(Byte.isDecimal b || b == '_'.toUInt8) ||
    !Byte.isAny ['x', 'X'] b && (!Byte.isAny ['o', 'O'] b && !Byte.isAny ['b', 'B'] b))
    (by decide +kernel) b
  simpa [h] using hb

theorem of_accepts_digits {isDigit : UInt8 → Bool} {w : List UInt8}
    (h : (Pattern.digits isDigit).Accepts w) :
    ∀ b ∈ w, (isDigit b || b == '_'.toUInt8) = true := by
  obtain ⟨d, _, rfl, hd, rest, _, rfl, hrest, rfl⟩ := h
  intro b hb
  rw [List.append_nil] at hb
  rcases List.mem_cons.mp hb with rfl | hb
  · rw [hd, Bool.true_or]
  · exact hrest b hb

/-- A radix is told by the letter behind the first zero. -/
theorem isDigitOf_prefixed (radix : Nat) {letters : List Char} {isDigit : UInt8 → Bool}
    (hset : ∀ b, (isDigit b || b == '_'.toUInt8) = isDigitOf radix b)
    (hsplit : ∀ letter digits, Byte.isAny letters letter = true →
      splitRadix ('0'.toUInt8 :: letter :: digits) = (radix, digits))
    {lexeme : List UInt8}
    (h : Pattern.Accepts (.char '0' :: .anyOf letters :: Pattern.digits isDigit) lexeme) :
    (splitRadix lexeme).2.all (isDigitOf (splitRadix lexeme).1) = true := by
  obtain ⟨zero, _, rfl, hzero, letter, digits, rfl, hletter, hdigits⟩ := h
  obtain rfl := eq_of_beq hzero
  rw [hsplit letter digits hletter, List.all_eq_true]
  intro b hb
  rw [← hset]
  exact of_accepts_digits hdigits b hb

/-- The digits of a numeral are digits of the radix that it is written in. -/
theorem isDigitOf_splitRadix {p : Pattern} (hp : p ∈ Pattern.integers) {lexeme : List UInt8}
    (h : p.Accepts lexeme) :
    (splitRadix lexeme).2.all (isDigitOf (splitRadix lexeme).1) = true := by
  simp only [Pattern.integers, List.mem_cons, List.not_mem_nil, or_false] at hp
  rcases hp with rfl | rfl | rfl | rfl
  · have hdigits := of_accepts_digits h
    have hsplit : splitRadix lexeme = (10, lexeme) := by
      rcases lexeme with _ | ⟨zero, _ | ⟨letter, digits⟩⟩
      · rfl
      · rfl
      · obtain ⟨hx, ho, hb⟩ := not_radix_letter (hdigits letter (by simp))
        simp [splitRadix, hx, ho, hb]
    rw [hsplit, List.all_eq_true]
    exact hdigits
  · refine isDigitOf_prefixed 16 (fun _ => rfl) (fun letter digits hletter => ?_) h
    simp [splitRadix, hletter]
  · refine isDigitOf_prefixed 8 (fun _ => rfl) (fun letter digits hletter => ?_) h
    obtain rfl | rfl : letter = 'o'.toUInt8 ∨ letter = 'O'.toUInt8 := by
      simpa [Byte.isAny] using hletter
    · rfl
    · rfl
  · refine isDigitOf_prefixed 2 (fun _ => rfl) (fun letter digits hletter => ?_) h
    obtain rfl | rfl : letter = 'b'.toUInt8 ∨ letter = 'B'.toUInt8 := by
      simpa [Byte.isAny] using hletter
    · rfl
    · rfl

end Numeral

namespace WordRule

theorem readDigits?_eq {p : Pattern} (hp : p ∈ Pattern.integers) {digits : List UInt8}
    (h : p.Accepts digits) (type : IntType) :
    readDigits? type digits =
      some (match Numeral.integer? type digits with
        | some value => .ok (.integer type value)
        | none => .error (.literalOverflow type)) := by
  rw [readDigits?, if_pos (Numeral.isDigitOf_splitRadix hp h)]
  cases hvalue : Numeral.integer? type digits with
  | none => rfl
  | some value =>
    have hrange : type = .int32 → -2 ^ 31 ≤ value ∧ value < 2 ^ 31 := by
      rintro rfl
      exact Numeral.range_of_int32 hvalue
    simp only [if_pos hrange]

/-- An integer literal consists of a numeral and the suffix of its type. -/
theorem exists_integerDigits {lexeme : List UInt8} {type : IntType}
    (h : firstAccepting? TokenRule.rows lexeme = some (.word (.integer type))) :
    ∃ digits, integerDigits? type lexeme = some digits ∧
      (if type.suffix?.isSome then lexeme.dropLast else lexeme) = digits ∧
      ∃ p ∈ Pattern.integers, p.Accepts digits := by
  have hpatterns : patternsOf TokenRule.rows (.word (.integer type)) =
      Pattern.integers.map (· ++ Pattern.literal type.suffix?.toList) := by
    cases type <;> rfl
  obtain ⟨p, hp, haccepts⟩ := exists_patternsOf h
  rw [hpatterns] at hp
  obtain ⟨q, hq, rfl⟩ := List.mem_map.mp hp
  obtain ⟨digits, suffix, rfl, hdigits, hsuffix⟩ := Pattern.accepts_append haccepts
  rw [Pattern.accepts_literal] at hsuffix
  subst hsuffix
  refine ⟨digits, ?_, ?_, q, hq, hdigits⟩
  · cases type with
    | int => exact congrArg some (List.append_nil _)
    | _ => exact Lexeme.unsuffixed?_append digits _
  · cases type with
    | int => exact List.append_nil _
    | _ => exact List.dropLast_concat

/-- Where a rule has matched a lexeme, no check of its reader fails. -/
theorem read?_eq {rule : WordRule} {lexeme : List UInt8}
    (h : firstAccepting? TokenRule.rows lexeme = some (.word rule)) (keywords : KeywordTable) :
    rule.read? keywords lexeme = some (rule.read keywords lexeme) := by
  cases rule with
  | label => exact readLabel?_eq (le_length_of_first (by rfl) h) keywords _
  | optLabel => exact readLabel?_eq (le_length_of_first (by rfl) h) keywords _
  | integer type =>
    obtain ⟨digits, hchecked, htotal, p, hp, haccepts⟩ := exists_integerDigits h
    have hdigits : read? keywords (.integer type) lexeme = readDigits? type digits := by
      simp only [read?, hchecked, Option.bind_eq_bind, Option.bind_some]
    subst htotal
    exact hdigits.trans (readDigits?_eq hp haccepts type)
  | charNewline =>
    have hlength : 2 ≤ lexeme.length := le_length_of_first (by rfl) h
    match lexeme, hlength with
    | _ :: _ :: _, _ => rfl
  | char =>
    have hlength : 2 ≤ lexeme.length := le_length_of_first (by rfl) h
    match lexeme, hlength with
    | _ :: _ :: _, _ => rfl
  | charEscape =>
    have hlength : 3 ≤ lexeme.length := le_length_of_first (by rfl) h
    match lexeme, hlength with
    | _ :: _ :: _ :: _, _ => rfl
  | charIllegal =>
    have hlength : 1 ≤ lexeme.length := le_length_of_first (by rfl) h
    have hescape : Lexeme.between? lexeme 1 lexeme.length = some (lexeme.drop 1) := by
      rw [Lexeme.between?, if_pos ⟨hlength, Nat.le_refl _⟩, ← List.length_drop, List.take_length]
    simp only [read?, hescape, Option.bind_eq_bind, Option.bind_some, read]
  | illegalByte =>
    have hlength : 1 ≤ lexeme.length := le_length_of_first (by rfl) h
    match lexeme, hlength with
    | _ :: _, _ => rfl
  | charDecimal =>
    obtain ⟨p, hp, haccepts⟩ := exists_patternsOf h
    obtain rfl : p = Pattern.inQuotes Pattern.decimalEscape := List.mem_singleton.mp hp
    obtain ⟨_, q₁, q₂, rfl, hescape⟩ := Pattern.accepts_inQuotes haccepts
    obtain ⟨b, d₁, d₂, d₃, hd₁, hd₂, hd₃, rfl⟩ := Pattern.accepts_decimalEscape hescape
    have hdigits : Lexeme.digits? Byte.isDecimal [q₁, b, d₁, d₂, d₃, q₂] 2 5 =
        some [d₁, d₂, d₃] := by
      simp [Lexeme.digits?, Lexeme.between?, hd₁, hd₂, hd₃]
    show read? keywords .charDecimal [q₁, b, d₁, d₂, d₃, q₂] = _
    simp only [read?, hdigits, Option.bind_eq_bind, Option.bind_some]
    show _ = some (match ByteEscape.decimal? [d₁, d₂, d₃] with | some byte => _ | none => _)
    cases ByteEscape.decimal? [d₁, d₂, d₃] with
    | none => rfl
    | some byte => rfl
  | charHex =>
    obtain ⟨p, hp, haccepts⟩ := exists_patternsOf h
    obtain rfl : p = Pattern.inQuotes Pattern.hexEscape := List.mem_singleton.mp hp
    obtain ⟨_, q₁, q₂, rfl, hescape⟩ := Pattern.accepts_inQuotes haccepts
    obtain ⟨b, x, d₁, d₂, hd₁, hd₂, rfl⟩ := Pattern.accepts_hexEscape hescape
    have hdigits : Lexeme.digits? Byte.isHex [q₁, b, x, d₁, d₂, q₂] 3 5 = some [d₁, d₂] := by
      simp [Lexeme.digits?, Lexeme.between?, hd₁, hd₂]
    show read? keywords .charHex [q₁, b, x, d₁, d₂, q₂] = _
    simp only [read?, hdigits, Option.bind_eq_bind, Option.bind_some]
    rfl
  | _ => rfl

end WordRule

end StreamLexer
