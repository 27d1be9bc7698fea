import StreamLexer.Proofs.Comment.Strings
import StreamLexer.Proofs.Printer.Numbers

/-!
# Integer literals

What an integer literal is written as and what it denotes, told without the lexer: an
`IntegerLiteral` has a radix with its mark, digits among which underscores count for nothing, and a
type, and `IntegerLiteral.denotes` is its value as two's complement in as many bits as the type has.
-/
namespace StreamLexer

/-! ## What literals denote -/

/-- The radix that an integer literal is written in. -/
inductive Radix where
  | decimal
  | hexadecimal
  | octal
  | binary
  deriving DecidableEq

namespace Radix

def base : Radix → Nat
  | decimal => 10
  | hexadecimal => 16
  | octal => 8
  | binary => 2

/-- The spellings of the mark before the digits. -/
def marks : Radix → List (List UInt8)
  | decimal => [[]]
  | hexadecimal => ["0x".toList.map Char.toUInt8, "0X".toList.map Char.toUInt8]
  | octal => ["0o".toList.map Char.toUInt8, "0O".toList.map Char.toUInt8]
  | binary => ["0b".toList.map Char.toUInt8, "0B".toList.map Char.toUInt8]

def isDigit : Radix → UInt8 → Bool
  | decimal => Byte.isDecimal
  | hexadecimal => Byte.isHex
  | octal => Byte.isOctal
  | binary => Byte.isBinary

end Radix

/-- An integer literal, taken apart. -/
structure IntegerLiteral where
  type : IntType
  radix : Radix
  mark : List UInt8
  /-- The first digit. -/
  first : UInt8
  /-- The digits and underscores behind it. -/
  later : List UInt8
  mark_mem : mark ∈ radix.marks
  isDigit_first : radix.isDigit first = true
  isDigit_later : ∀ b ∈ later, radix.isDigit b = true ∨ b = '_'.toUInt8

namespace IntegerLiteral

/-- The digits, with the underscores among them. -/
def digits (l : IntegerLiteral) : List UInt8 :=
  l.first :: l.later

/-- The literal as it is written. -/
def bytes (l : IntegerLiteral) : List UInt8 :=
  l.mark ++ l.digits ++ l.type.suffix

/-- The number that the digits denote in their radix, least digit first; underscores are left out.
-/
def magnitude (l : IntegerLiteral) : Nat :=
  Nat.ofDigits l.radix.base
    (((l.digits.filter (· != '_'.toUInt8)).map Reader.hexValue).reverse)

/-- The value of the literal, none if it does not fit the type: a decimal one reaches to the
magnitude of the least value, which it then denotes, and one in another radix has all bits, the
highest of which is the sign. -/
def denotes (l : IntegerLiteral) : Option Int :=
  if l.magnitude < 2 ^ (l.type.bits - 1) then some l.magnitude
  else if l.radix = .decimal then
    if l.magnitude = 2 ^ (l.type.bits - 1) then some (-(2 ^ (l.type.bits - 1))) else none
  else if l.magnitude < 2 ^ l.type.bits then some (l.magnitude - 2 ^ l.type.bits)
  else none

end IntegerLiteral

/-! ## The lexemes of integers -/

theorem accepts_digits {isDigit : UInt8 → Bool} {w : List UInt8}
    (h : (Pattern.digits isDigit).Accepts w) : ∃ first later, w = first :: later ∧
      isDigit first = true ∧ ∀ b ∈ later, isDigit b = true ∨ b = '_'.toUInt8 := by
  obtain ⟨first, v, rfl, hfirst, later, v', rfl, hlater, rfl⟩ := h
  refine ⟨first, later, by simp, hfirst, fun b hb => ?_⟩
  simpa using hlater b hb

/-- Each pattern of integers has the words of one radix. -/
theorem exists_radix {p : Pattern} (h : p ∈ Pattern.integers) {w : List UInt8} (hw : p.Accepts w) :
    ∃ (radix : Radix) (mark : List UInt8) (first : UInt8) (later : List UInt8),
      w = mark ++ first :: later ∧ mark ∈ radix.marks ∧ radix.isDigit first = true ∧
        ∀ b ∈ later, radix.isDigit b = true ∨ b = '_'.toUInt8 := by
  have hmarked : ∀ (radix : Radix) (lower upper : Char),
      Pattern.Accepts ([.char '0', .anyOf [lower, upper]] ++ Pattern.digits radix.isDigit) w →
      radix.marks = [['0'.toUInt8, lower.toUInt8], ['0'.toUInt8, upper.toUInt8]] →
      ∃ (mark : List UInt8) (first : UInt8) (later : List UInt8),
        w = mark ++ first :: later ∧ mark ∈ radix.marks ∧ radix.isDigit first = true ∧
          ∀ b ∈ later, radix.isDigit b = true ∨ b = '_'.toUInt8 := by
    intro radix lower upper haccepts hmarks
    obtain ⟨zero, v, rfl, hzero, letter, v', rfl, hletter, hdigits⟩ := haccepts
    obtain ⟨first, later, rfl, hfirst, hlater⟩ := accepts_digits hdigits
    obtain rfl := eq_of_beq hzero
    refine ⟨['0'.toUInt8, letter], first, later, rfl, ?_, hfirst, hlater⟩
    rw [hmarks]
    simpa [Byte.isAny] using hletter
  simp only [Pattern.integers, List.mem_cons, List.not_mem_nil, or_false] at h
  rcases h with rfl | rfl | rfl | rfl
  · obtain ⟨first, later, rfl, hfirst, hlater⟩ := accepts_digits hw
    exact ⟨.decimal, [], first, later, rfl, List.mem_singleton_self _, hfirst, hlater⟩
  · exact ⟨.hexadecimal, hmarked .hexadecimal 'x' 'X' hw rfl⟩
  · exact ⟨.octal, hmarked .octal 'o' 'O' hw rfl⟩
  · exact ⟨.binary, hmarked .binary 'b' 'B' hw rfl⟩

/-- What is scanned as an integer of a type is a literal of that type. -/
theorem exists_literal {type : IntType} {lexeme : List UInt8}
    (h : firstAccepting? TokenRule.rows lexeme = some (.word (.integer type))) :
    ∃ l : IntegerLiteral, l.type = type ∧ l.bytes = lexeme := by
  have hpatterns : patternsOf TokenRule.rows (.word (.integer type)) = integerPatterns type := by
    cases type <;> rfl
  obtain ⟨q, hq, haccepts⟩ := exists_patternsOf h
  rw [hpatterns] at hq
  obtain ⟨p, hp, rfl⟩ := List.mem_map.mp hq
  obtain ⟨w, suffix, rfl, hw, hsuffix⟩ := Pattern.accepts_append haccepts
  obtain ⟨radix, mark, first, later, rfl, hmark, hfirst, hlater⟩ := exists_radix hp hw
  obtain rfl := Pattern.accepts_literal.mp hsuffix
  exact ⟨⟨type, radix, mark, first, later, hmark, hfirst, hlater⟩, rfl, rfl⟩

/-! ## Reading a literal -/

/-- Digits of any radix are hexadecimal ones. -/
theorem Radix.isHex_of_isDigit {radix : Radix} {b : UInt8} (h : radix.isDigit b = true) :
    Byte.isHex b = true := by
  have hb := Byte.forall_of_range (p := fun b => !radix.isDigit b || Byte.isHex b)
    (by cases radix <;> decide +kernel) b
  simpa [h] using hb

/-- What the lexer sums up is the number that the digits denote. -/
theorem value_eq_ofDigits_hexValue {digits : List UInt8}
    (h : ∀ b ∈ digits, Byte.isHex b = true ∨ b = '_'.toUInt8) (radix : Nat) :
    Numeral.value radix digits = Nat.ofDigits radix
      (((digits.filter (· != '_'.toUInt8)).map Reader.hexValue).reverse) := by
  have hdigit : ∀ b ∈ (Numeral.stripUnderscores digits).reverse,
      Numeral.digitValue b = Reader.hexValue b := by
    intro b hb
    obtain ⟨hmem, hne⟩ := List.mem_filter.mp (List.mem_reverse.mp hb)
    rcases h b hmem with hhex | rfl
    · exact (digitValue_hex hhex).1
    · simp at hne
  rw [Numeral.value, List.foldl_eq_foldr_reverse, ← List.map_reverse]
  show _ = Nat.ofDigits radix ((Numeral.stripUnderscores digits).reverse.map Reader.hexValue)
  -- from here on the least digit comes first, as in `Nat.ofDigits`
  generalize (Numeral.stripUnderscores digits).reverse = digits at hdigit
  induction digits with
  | nil => rfl
  | cons b digits ih =>
    rw [List.foldr_cons, List.map_cons, Nat.ofDigits_cons, hdigit b List.mem_cons_self,
      ih fun c hc => hdigit c (List.mem_cons_of_mem b hc)]
    rw [Nat.mul_comm, Nat.add_comm]

namespace IntegerLiteral

variable (l : IntegerLiteral)

theorem isDigit_digits : ∀ b ∈ l.digits, l.radix.isDigit b = true ∨ b = '_'.toUInt8 := by
  intro b hb
  rcases List.mem_cons.mp hb with rfl | hb
  · exact .inl l.isDigit_first
  · exact l.isDigit_later b hb

theorem value_eq : Numeral.value l.radix.base l.digits = l.magnitude := by
  refine value_eq_ofDigits_hexValue (fun b hb => ?_) _
  exact (l.isDigit_digits b hb).imp_left Radix.isHex_of_isDigit

/-- The lexer takes the literal apart as it is put together. -/
theorem splitRadix_eq : Numeral.splitRadix (l.mark ++ l.digits) = (l.radix.base, l.digits) := by
  obtain ⟨type, radix, mark, first, later, hmark, hfirst, hlater⟩ := l
  cases radix with
  | decimal =>
    obtain rfl := List.mem_singleton.mp hmark
    cases later with
    | nil => rfl
    | cons letter later =>
      -- the byte behind the first digit is no mark
      have hcheck := Byte.forall_of_range (p := fun b => !(Byte.isDecimal b || b == '_'.toUInt8) ||
        !Byte.isAny ['x', 'X'] b && !Byte.isAny ['o', 'O'] b && !Byte.isAny ['b', 'B'] b)
        (by decide +kernel) letter
      have hnext : (Byte.isDecimal letter || letter == '_'.toUInt8) = true :=
        (Bool.or_eq_true_iff).mpr ((hlater letter List.mem_cons_self).imp_right beq_iff_eq.mpr)
      rw [hnext, Bool.not_true, Bool.false_or] at hcheck
      simp only [Bool.and_eq_true, Bool.not_eq_true'] at hcheck
      obtain ⟨⟨hhex, hoctal⟩, hbinary⟩ := hcheck
      simp [Numeral.splitRadix, digits, Radix.base, hhex, hoctal, hbinary]
  | hexadecimal =>
    rcases List.mem_pair.mp hmark with rfl | rfl <;> rfl
  | octal =>
    rcases List.mem_pair.mp hmark with rfl | rfl <;> rfl
  | binary =>
    rcases List.mem_pair.mp hmark with rfl | rfl <;> rfl

/-- A number that the bits hold, read as two's complement. -/
theorem bmod_eq (type : IntType) {n : Nat} (h : n < 2 ^ type.bits) :
    Int.bmod n (2 ^ type.bits) =
      if n < 2 ^ (type.bits - 1) then (n : Int) else n - 2 ^ type.bits := by
  rw [two_pow_bits] at h ⊢
  split
  · apply Int.bmod_eq_of_le <;> omega
  · have hcast : (2 : Int) ^ type.bits = ((2 * 2 ^ (type.bits - 1) : Nat) : Int) := by
      rw [← two_pow_bits]
      norm_cast
    rw [← Int.sub_bmod_right, hcast]
    apply Int.bmod_eq_of_le <;> omega

theorem limit_eq (type : IntType) (radix : Radix) : Numeral.limit type radix.base =
    if radix = .decimal then 2 ^ (type.bits - 1) else 2 ^ type.bits - 1 := by
  cases radix <;> rfl

/-- The lexer reads what the literal denotes. -/
theorem integer?_eq : Numeral.integer? l.type (l.mark ++ l.digits) = l.denotes := by
  have hhalf := two_pow_bits l.type
  have hpos : 0 < 2 ^ (l.type.bits - 1) := Nat.two_pow_pos _
  simp only [Numeral.integer?, l.splitRadix_eq, l.value_eq, Nat.pow_eq, denotes, limit_eq]
  generalize l.magnitude = n
  by_cases hlow : n < 2 ^ (l.type.bits - 1)
  · -- below half of the values a number is itself in every radix
    have hfits : n ≤ if l.radix = .decimal then 2 ^ (l.type.bits - 1) else 2 ^ l.type.bits - 1 := by
      split <;> omega
    rw [if_pos hfits, if_pos hlow, bmod_eq l.type (by omega), if_pos hlow]
  · by_cases hdecimal : l.radix = .decimal
    · simp only [hdecimal, if_true, if_neg hlow]
      by_cases hleast : n = 2 ^ (l.type.bits - 1)
      · have hvalue : ((2 ^ (l.type.bits - 1) : Nat) : Int) - 2 ^ l.type.bits =
            -(2 ^ (l.type.bits - 1)) := by
          have hcast : (2 : Int) ^ l.type.bits = 2 * 2 ^ (l.type.bits - 1) := by
            exact_mod_cast hhalf
          rw [hcast]
          push_cast
          omega
        rw [if_pos (Nat.le_of_eq hleast), if_pos hleast, bmod_eq l.type (by omega), if_neg hlow,
          hleast, hvalue]
      · rw [if_neg (by omega), if_neg hleast]
    · simp only [hdecimal, if_false, if_neg hlow]
      by_cases hhigh : n < 2 ^ l.type.bits
      · rw [if_pos (by omega), if_pos hhigh, bmod_eq l.type hhigh, if_neg hlow]
      · rw [if_neg (by omega), if_neg hhigh]

/-- The suffix is taken off before the digits are read. -/
theorem read_eq (keywords : KeywordTable) :
    WordRule.read keywords (.integer l.type) l.bytes =
      match l.denotes with
      | some value => .ok (.integer l.type value)
      | none => .error (.literalOverflow l.type) := by
  have hdigits : (if l.type.suffix?.isSome then l.bytes.dropLast else l.bytes) =
      l.mark ++ l.digits := by
    rw [bytes]
    cases l.type with
    | int => exact List.append_nil _
    | _ => exact List.dropLast_concat
  cases hvalue : l.denotes with
  | some value => simp [WordRule.read, hdigits, l.integer?_eq, hvalue]
  | none => simp [WordRule.read, hdigits, l.integer?_eq, hvalue]

end IntegerLiteral

/-! ## Machine words -/

namespace Numeral.Word64

/-- The product, unless it leaves the word. -/
def mul? (a b : UInt64) : Option UInt64 :=
  if a.toNat * b.toNat < UInt64.size then some (a * b) else none

/-- The sum, unless it leaves the word. -/
def add? (a b : UInt64) : Option UInt64 :=
  if a.toNat + b.toNat < UInt64.size then some (a + b) else none

/-- The value of a digit or letter, if it is one of the radix. -/
def digit? (radix : Nat) (b : UInt8) : Option UInt64 :=
  let value? :=
    if Byte.isDecimal b then some (b.toNat - '0'.toNat)
    else if Byte.inRange 'a' 'z' b then some (b.toNat - 'a'.toNat + 10)
    else if Byte.inRange 'A' 'Z' b then some (b.toNat - 'A'.toNat + 10)
    else none
  (value?.filter (· < radix)).map UInt64.ofNat

/-- One more digit behind those of a number. -/
def push? (radix : Nat) (n : UInt64) (b : UInt8) : Option UInt64 :=
  if b == '_'.toUInt8 then some n
  else do
    let digit ← digit? radix b
    let n ← mul? n (UInt64.ofNat radix)
    add? n digit

/-- The number that digits denote, unless it leaves the word on the way. -/
def value? (radix : Nat) (digits : List UInt8) : Option UInt64 :=
  digits.foldlM (push? radix) 0

/-- The largest magnitude of a literal. -/
def limit (type : IntType) (radix : Nat) : UInt64 :=
  if radix == 10 then 1 <<< UInt64.ofNat (type.bits - 1)
  else UInt64.ofNat (UInt64.size - 1) >>> UInt64.ofNat (64 - type.bits)

/-- The low bits as two's complement: shifted to the top of the word and back with their sign. -/
def signExtend (n : UInt64) (bits : Nat) : Int :=
  ((n.toBitVec <<< (64 - bits)).sshiftRight (64 - bits)).toInt

/-- A value of the type is also one of the word in which the type is kept. -/
def narrow? (type : IntType) (value : Int) : Option Int :=
  if type = .int32 ∧ ¬ (-2 ^ 31 ≤ value ∧ value < 2 ^ 31) then none else some value

/-- The value of an integer literal without its suffix, computed in words of 64 bits. -/
def integer? (type : IntType) (lexeme : List UInt8) : Option Int :=
  let (radix, digits) := splitRadix lexeme
  (value? radix digits).bind fun n =>
    if n ≤ limit type radix then narrow? type (signExtend n type.bits) else none

theorem mul?_ofNat {a b : Nat} (ha : a < UInt64.size) (hb : b < UInt64.size) :
    mul? (UInt64.ofNat a) (UInt64.ofNat b) =
      if a * b < UInt64.size then some (UInt64.ofNat (a * b)) else none := by
  rw [mul?, UInt64.toNat_ofNat_of_lt' ha, UInt64.toNat_ofNat_of_lt' hb, UInt64.ofNat_mul]

theorem add?_ofNat {a b : Nat} (ha : a < UInt64.size) (hb : b < UInt64.size) :
    add? (UInt64.ofNat a) (UInt64.ofNat b) =
      if a + b < UInt64.size then some (UInt64.ofNat (a + b)) else none := by
  rw [add?, UInt64.toNat_ofNat_of_lt' ha, UInt64.toNat_ofNat_of_lt' hb, UInt64.ofNat_add]

section Digits

variable {radix : Radix}

theorem digit?_eq {b : UInt8} (h : radix.isDigit b = true) :
    digit? radix.base b = some (UInt64.ofNat (digitValue b)) ∧ digitValue b < radix.base ∧
      b ≠ '_'.toUInt8 := by
  have hb := Byte.forall_of_range (p := fun b => !radix.isDigit b ||
    digit? radix.base b == some (UInt64.ofNat (digitValue b)) &&
      decide (digitValue b < radix.base) && b != '_'.toUInt8) (by cases radix <;> decide +kernel) b
  simpa [h, and_assoc] using hb

theorem base_bounds (radix : Radix) : 2 ≤ radix.base ∧ radix.base ≤ 16 := by
  cases radix <;> decide

/-- One more digit is pushed as long as the number stays in the word. -/
theorem push?_eq {n : Nat} (hn : n < UInt64.size) {b : UInt8} (h : radix.isDigit b = true) :
    push? radix.base (UInt64.ofNat n) b =
      if n * radix.base + digitValue b < UInt64.size then
        some (UInt64.ofNat (n * radix.base + digitValue b))
      else none := by
  obtain ⟨hdigit, hlt, hne⟩ := digit?_eq h
  obtain ⟨-, hbase⟩ := base_bounds radix
  have hword : 16 < UInt64.size := by decide
  have hunder : (b == '_'.toUInt8) = false := by simpa using hne
  simp only [push?, hunder, hdigit, Bool.false_eq_true, if_false, Option.bind_eq_bind,
    Option.bind_some, mul?_ofNat hn (Nat.lt_of_le_of_lt hbase hword)]
  by_cases hproduct : n * radix.base < UInt64.size
  · rw [if_pos hproduct, Option.bind_some, add?_ofNat hproduct (by omega)]
  · rw [if_neg hproduct, Option.bind_none, if_neg (by omega)]

/-- A number does not get smaller with further digits. -/
theorem le_value (n : Nat) (digits : List UInt8) :
    n ≤ digits.foldl (fun n b => n * radix.base + digitValue b) n := by
  induction digits generalizing n with
  | nil => exact Nat.le_refl n
  | cons b digits ih =>
    have hbase := (base_bounds radix).1
    have hle : n * 1 ≤ n * radix.base := Nat.mul_le_mul_left n (by omega)
    exact Nat.le_trans (by omega) (ih (n * radix.base + digitValue b))

/-- Leaving the word on the way and leaving it in the end are the same. -/
theorem value?_eq {digits : List UInt8}
    (h : ∀ b ∈ digits, radix.isDigit b = true ∨ b = '_'.toUInt8) :
    value? radix.base digits = if Numeral.value radix.base digits < UInt64.size then
      some (UInt64.ofNat (Numeral.value radix.base digits)) else none := by
  have hfrom : ∀ n, n < UInt64.size → digits.foldlM (push? radix.base) (UInt64.ofNat n) =
      (fun m => if m < UInt64.size then some (UInt64.ofNat m) else none)
        ((stripUnderscores digits).foldl (fun n b => n * radix.base + digitValue b) n) := by
    induction digits with
    | nil =>
      intro n hn
      simp [stripUnderscores, hn]
    | cons b digits ih =>
      intro n hn
      have hrest := ih fun c hc => h c (List.mem_cons_of_mem b hc)
      rcases h b List.mem_cons_self with hb | rfl
      · have hne := (digit?_eq hb).2.2
        have hstrip : stripUnderscores (b :: digits) = b :: stripUnderscores digits := by
          simp [stripUnderscores, hne]
        rw [List.foldlM_cons, push?_eq hn hb, hstrip, List.foldl_cons]
        by_cases hlt : n * radix.base + digitValue b < UInt64.size
        · rw [if_pos hlt]
          exact hrest _ hlt
        · have hle := @le_value radix (n * radix.base + digitValue b) (stripUnderscores digits)
          rw [if_neg hlt]
          exact (if_neg (by omega)).symm
      · have hstrip : stripUnderscores ('_'.toUInt8 :: digits) = stripUnderscores digits := rfl
        have hpush : push? radix.base (UInt64.ofNat n) '_'.toUInt8 = some (UInt64.ofNat n) := rfl
        rw [List.foldlM_cons, hpush, hstrip]
        exact hrest n hn
  exact hfrom 0 (by decide)

end Digits

theorem toNat_limit (type : IntType) (radix : Radix) :
    (limit type radix.base).toNat = Numeral.limit type radix.base := by
  cases type <;> cases radix <;> rfl

/-- Shifting to the top of the word and back takes the low bits as two's complement. -/
theorem signExtend_eq (type : IntType) {n : Nat} (h : n < 2 ^ type.bits) :
    signExtend (UInt64.ofNat n) type.bits = Int.bmod n (2 ^ type.bits) := by
  have hword : n < UInt64.size := by
    cases type <;> simp only [IntType.bits, UInt64.size] at h ⊢ <;> omega
  have hnat : (UInt64.ofNat n).toBitVec.toNat = n := UInt64.toNat_ofNat_of_lt' hword
  rw [signExtend, BitVec.toInt_sshiftRight, BitVec.toInt_shiftLeft, hnat, Int.shiftRight_eq_div_pow,
    Nat.shiftLeft_eq]
  -- the least value and the greatest one depend on the type only through two numbers
  cases type <;> simp only [IntType.bits, Int.bmod_def] at h ⊢ <;> omega

theorem narrow?_bmod (type : IntType) (n : Nat) :
    narrow? type (Int.bmod n (2 ^ type.bits)) = some (Int.bmod n (2 ^ type.bits)) := by
  rw [narrow?, if_neg]
  rintro ⟨rfl, hout⟩
  refine hout ?_
  simp only [IntType.bits, Int.bmod_def]
  omega

/-- Words of 64 bits give the same value as numbers without bound. -/
theorem integer?_eq (l : IntegerLiteral) :
    integer? l.type (l.mark ++ l.digits) = Numeral.integer? l.type (l.mark ++ l.digits) := by
  simp only [integer?, Numeral.integer?, l.splitRadix_eq, value?_eq l.isDigit_digits]
  generalize Numeral.value l.radix.base l.digits = n
  have hlimit : Numeral.limit l.type l.radix.base < 2 ^ l.type.bits := by
    cases l.type <;> cases l.radix <;> decide
  have hbits : 2 ^ l.type.bits ≤ UInt64.size := by
    cases l.type <;> decide
  by_cases hword : n < UInt64.size
  · rw [if_pos hword, Option.bind_some]
    simp only [UInt64.le_iff_toNat_le, UInt64.toNat_ofNat_of_lt' hword, toNat_limit]
    by_cases hle : n ≤ Numeral.limit l.type l.radix.base
    · rw [if_pos hle, if_pos hle, signExtend_eq l.type (by omega), narrow?_bmod]
      rfl
    · rw [if_neg hle, if_neg hle]
  · rw [if_neg hword, if_neg (by omega), Option.bind_none]

end Numeral.Word64

/-! ## Literals in a source -/

namespace Session

/-- What is scanned as an integer is a literal of its type, and the request for a token is answered
with what that denotes; where it does not fit, with an error that points at all of it. Words of 64
bits are enough to find that out. -/
theorem integer_literals_exact {s : Session} {type : IntType} {n : Nat} (hmode : s.mode = .code)
    (hdecided : s.headerPending = false)
    (hscan : TokenRule.scan s.lookahead = .found (.word (.integer type)) n) :
    (∃ l : IntegerLiteral, l.type = type ∧ l.bytes = s.lookahead.bytes.take n) ∧
      ∀ l : IntegerLiteral, l.type = type → l.bytes = s.lookahead.bytes.take n →
        Numeral.Word64.integer? type (l.mark ++ l.digits) = l.denotes ∧
        let span : Span := ⟨s.pos, s.pos.shifted n⟩
        s.next = match l.denotes with
          | some value => (s.moveTo span.stop, .done ⟨.integer type value, span⟩)
          | none => ((s.moveTo span.stop).halt (.literalOverflow span type),
              .failed (.literalOverflow span type)) := by
  refine ⟨exists_literal (TokenRule.scan_row hscan (by simp)), ?_⟩
  rintro l rfl hbytes
  refine ⟨(Numeral.Word64.integer?_eq l).trans l.integer?_eq, ?_⟩
  have hlength : (s.lookahead.bytes.take n).length = n :=
    List.length_take_of_le (TokenRule.settles.within _ _ _ hscan)
  have hstep : s.step = s.actCode (.word (.integer l.type)) l.bytes := by
    simp only [step, stepOn, hmode, hdecided, hscan, onFound, hbytes, Bool.false_eq_true, if_false]
  have hstop : wordStop (.integer l.type) (s.pos.shifted n) = s.pos.shifted n := rfl
  rw [← hbytes] at hlength
  simp only [actCode, hlength, hstop, l.read_eq] at hstep
  cases hvalue : l.denotes with
  | some value =>
    simp only [hvalue] at hstep
    simp only [next, run_of_emit hstep]
  | none =>
    simp only [hvalue] at hstep
    simp only [next, run_of_fail hstep]
    rfl

/-- The least value of a type in decimal with separators, and all bits of a word in another radix,
which are too many for a type of 63 bits. -/
theorem integer_literals_exact_bounds :
    let config : Config := { skipHeader := false }
    let least := Session.ofSource config ("2_147_483_648l;".toList.map Char.toUInt8)
    let all := Session.ofSource config ("0xffffffffffffffff ".toList.map Char.toUInt8)
    least.mode = .code ∧ least.headerPending = false ∧
      TokenRule.scan least.lookahead = .found (.word (.integer .int32)) 14 ∧
      least.next.2 = .done ⟨.integer .int32 (-2147483648), ⟨least.pos, least.pos.shifted 14⟩⟩ ∧
      all.mode = .code ∧ all.headerPending = false ∧
      TokenRule.scan all.lookahead = .found (.word (.integer .int)) 18 ∧
      all.next.2 = .failed (.literalOverflow ⟨all.pos, all.pos.shifted 18⟩ .int) := by
  intro config least all
  let decimal : IntegerLiteral :=
    { type := .int32, radix := .decimal, mark := [], first := '2'.toUInt8,
      later := "_147_483_648".toList.map Char.toUInt8, mark_mem := by decide,
      isDigit_first := rfl, isDigit_later := by decide +kernel }
  let hexadecimal : IntegerLiteral :=
    { type := .int, radix := .hexadecimal, mark := "0x".toList.map Char.toUInt8,
      first := 'f'.toUInt8, later := "fffffffffffffff".toList.map Char.toUInt8,
      mark_mem := by decide, isDigit_first := rfl, isDigit_later := by decide +kernel }
  have hleast : TokenRule.scan least.lookahead = .found (.word (.integer .int32)) 14 := by
    decide +kernel
  have hall : TokenRule.scan all.lookahead = .found (.word (.integer .int)) 18 := by
    decide +kernel
  have hdecimal : decimal.denotes = some (-2147483648) := by decide +kernel
  have hhexadecimal : hexadecimal.denotes = none := by decide +kernel
  obtain ⟨-, hfirst⟩ := integer_literals_exact (s := least) rfl rfl hleast
  obtain ⟨-, hsecond⟩ := integer_literals_exact (s := all) rfl rfl hall
  have hnext := (hfirst decimal rfl rfl).2
  have hnext' := (hsecond hexadecimal rfl rfl).2
  simp only [hdecimal] at hnext
  simp only [hhexadecimal] at hnext'
  exact ⟨rfl, rfl, hleast, by rw [hnext], rfl, rfl, hall, by rw [hnext']⟩

end Session

end StreamLexer
