import Mathlib.Data.List.Basic
import Mathlib.Data.Nat.Digits.Defs
import StreamLexer.Literal.Value
import StreamLexer.Proofs.Byte.Class

/-!
# Decimal digits

What the lexer makes of decimal digits, in the terms of `Nat.ofDigits` and `Nat.toDigits`: the
digits of a number are summed up to the number again, and an integer literal made of them denotes
it.
-/
namespace StreamLexer

variable {digits : List UInt8}

theorem stripUnderscores_decimal (h : ∀ b ∈ digits, Byte.isDecimal b = true) :
    Numeral.stripUnderscores digits = digits := by
  rw [Numeral.stripUnderscores, List.filter_eq_self]
  intro b hb
  have hne := Byte.forall_of_range (p := fun b => !Byte.isDecimal b || b != '_'.toUInt8)
    (by decide +kernel) b
  simpa [h b hb] using hne

/-- The digits that the lexer sums up are the digits of the number in base ten. -/
theorem value_eq_ofDigits (h : ∀ b ∈ digits, Byte.isDecimal b = true) :
    Numeral.value 10 digits =
      Nat.ofDigits 10 (digits.reverse.map fun b => b.toNat - '0'.toNat) := by
  have hdigit : ∀ b ∈ digits.reverse, Numeral.digitValue b = b.toNat - '0'.toNat := by
    intro b hb
    rw [Numeral.digitValue, if_pos (h b (List.mem_reverse.mp hb))]
  rw [Numeral.value, stripUnderscores_decimal h, List.foldl_eq_foldr_reverse]
  -- from here on the least digit comes first, as in `Nat.ofDigits`
  generalize digits.reverse = digits at hdigit
  induction digits with
  | nil => rfl
  | cons b digits ih =>
    rw [List.foldr_cons, List.map_cons, Nat.ofDigits_cons, hdigit b List.mem_cons_self,
      ih fun c hc => hdigit c (List.mem_cons_of_mem b hc)]
    show _ = b.toNat - '0'.toNat + _
    omega

/-! ## The digits of a number -/

/-- The decimal digits of a number, as bytes. -/
def decimalDigits (n : Nat) : List UInt8 :=
  (Nat.toDigits 10 n).map Char.toUInt8

theorem decimalDigits_ne_nil (n : Nat) : decimalDigits n ≠ [] := by
  rw [decimalDigits, ne_eq, List.map_eq_nil_iff]
  exact Nat.toDigits_ne_nil

/-- A digit character is a digit byte of the same value. -/
theorem digit_toUInt8 {c : Char} (h : c.isDigit = true) :
    Byte.isDecimal c.toUInt8 = true ∧ Numeral.digitValue c.toUInt8 = c.toNat - '0'.toNat := by
  have hcheck : ∀ k ∈ List.range ('9'.toNat + 1), '0'.toNat ≤ k →
      Byte.isDecimal (Char.ofNat k).toUInt8 = true ∧
        Numeral.digitValue (Char.ofNat k).toUInt8 = (Char.ofNat k).toNat - '0'.toNat := by
    decide +kernel
  obtain ⟨hlow, hhigh⟩ : '0'.toNat ≤ c.toNat ∧ c.toNat ≤ '9'.toNat := by
    simpa [Char.isDigit, UInt32.le_iff_toNat_le] using h
  have hdigit := hcheck c.toNat (List.mem_range.mpr (by omega)) hlow
  rwa [Char.ofNat_toNat] at hdigit

theorem toNat_lt_of_mem_toDigits {n : Nat} {c : Char} (h : c ∈ Nat.toDigits 10 n) :
    c.toNat < 256 := by
  have hdigit := Nat.isDigit_of_mem_toDigits (by decide) (by decide) h
  have hhigh : c.toNat ≤ '9'.toNat := by
    simp only [Char.isDigit, Bool.and_eq_true, decide_eq_true_eq] at hdigit
    exact hdigit.2
  exact Nat.lt_of_le_of_lt hhigh (by decide)

theorem isDecimal_decimalDigits (n : Nat) : ∀ b ∈ decimalDigits n, Byte.isDecimal b = true := by
  intro b hb
  obtain ⟨c, hc, rfl⟩ := List.mem_map.mp hb
  exact (digit_toUInt8 (Nat.isDigit_of_mem_toDigits (by decide) (by decide) hc)).1

theorem value_decimalDigits (n : Nat) : Numeral.value 10 (decimalDigits n) = n := by
  have hvalue : ∀ c ∈ Nat.toDigits 10 n,
      Numeral.digitValue c.toUInt8 = c.toNat - '0'.toNat := fun c hc =>
    (digit_toUInt8 (Nat.isDigit_of_mem_toDigits (by decide) (by decide) hc)).2
  rw [Numeral.value, stripUnderscores_decimal (isDecimal_decimalDigits n), decimalDigits,
    List.foldl_map]
  calc (Nat.toDigits 10 n).foldl (fun m c => m * 10 + Numeral.digitValue c.toUInt8) 0
      = (Nat.toDigits 10 n).foldl (fun m c => 10 * m + (c.toNat - '0'.toNat)) 0 := by
        apply List.foldl_ext
        intro m c hc
        rw [hvalue c hc, Nat.mul_comm]
    _ = Nat.ofDigitChars 10 (Nat.toDigits 10 n) 0 := Nat.ofDigitChars_eq_foldl.symm
    _ = n := Nat.ofDigitChars_ten_toDigits

/-- Digits without a letter among them are decimal. -/
theorem splitRadix_decimal (h : ∀ b ∈ digits, Byte.isDecimal b = true) :
    Numeral.splitRadix digits = (10, digits) := by
  match digits, h with
  | [], _ => rfl
  | [_], _ => rfl
  | zero :: letter :: rest, h =>
    have hletter := Byte.forall_of_range (p := fun b => !Byte.isDecimal b ||
      !Byte.isAny ['x', 'X'] b && !Byte.isAny ['o', 'O'] b && !Byte.isAny ['b', 'B'] b)
      (by decide +kernel) letter
    simp [h letter (by simp)] at hletter
    simp [Numeral.splitRadix, hletter]

/-- Half the values of a type are not negative. -/
theorem two_pow_bits (type : IntType) : 2 ^ type.bits = 2 * 2 ^ (type.bits - 1) := by
  cases type <;> rfl

/-- A number below the limit of a type is read from its digits. -/
theorem integer?_decimalDigits {type : IntType} {n : Nat} (h : n < 2 ^ (type.bits - 1)) :
    Numeral.integer? type (decimalDigits n) = some (n : Int) := by
  have hlimit : n ≤ Numeral.limit type 10 := Nat.le_of_lt h
  have hmod : Int.bmod n (2 ^ type.bits) = n := by
    rw [two_pow_bits]
    apply Int.bmod_eq_of_le <;> omega
  simp only [Numeral.integer?, Nat.pow_eq, splitRadix_decimal (isDecimal_decimalDigits n),
    value_decimalDigits, if_pos hlimit, hmod]

/-- A value that is read is below half the number of values of its type. -/
theorem lt_of_integer? {type : IntType} {lexeme : List UInt8} {n : Nat}
    (h : Numeral.integer? type lexeme = some (n : Int)) : n < 2 ^ (type.bits - 1) := by
  simp only [Numeral.integer?, Nat.pow_eq] at h
  split at h
  · have hlt := Int.bmod_lt (x := Numeral.value (Numeral.splitRadix lexeme).1
      (Numeral.splitRadix lexeme).2) (Nat.two_pow_pos type.bits)
    rw [Option.some.inj h, two_pow_bits] at hlt
    omega
  · cases h

end StreamLexer
