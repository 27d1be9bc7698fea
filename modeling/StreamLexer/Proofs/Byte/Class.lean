import StreamLexer.Byte.Class

/-!
# Facts about byte classes

There are 256 bytes, so a fact about every byte can be settled by evaluating it on each of them.
-/
namespace StreamLexer.Byte

/-- What holds of the bytes with numbers below 256 holds of every byte. -/
theorem forall_of_range {p : UInt8 → Bool}
    (h : (List.range 256).all (fun n => p (UInt8.ofNat n)) = true) (b : UInt8) : p b = true := by
  have hb := List.all_eq_true.mp h b.toNat (List.mem_range.mpr b.toNat_lt)
  rwa [UInt8.ofNat_toNat] at hb

/-- The byte of a character is told by its number. -/
theorem eq_toUInt8 {b : UInt8} {c : Char} (h : Char.ofUInt8 b = c) : b = c.toUInt8 := by
  subst h
  exact UInt8.ofNat_toNat.symm

theorem isLineEnd_iff {b : UInt8} : isLineEnd b = true ↔ b = '\r'.toUInt8 ∨ b = '\n'.toUInt8 := by
  simp [isLineEnd, isAny]

/-- Byte classes that start the three forms of escapes have no byte in common. -/
theorem escape_disjoint (b : UInt8) :
    (isNamedEscape b = true → isDecimal b = false ∧ (b == 'x'.toUInt8) = false) ∧
      (isDecimal b = true → (b == 'x'.toUInt8) = false) := by
  have h := forall_of_range (p := fun b =>
    (!isNamedEscape b || !isDecimal b && b != 'x'.toUInt8) &&
      (!isDecimal b || b != 'x'.toUInt8)) (by decide +kernel) b
  by_cases hnamed : isNamedEscape b = true <;>
    by_cases hdecimal : isDecimal b = true <;> simp_all

theorem isNamedEscape_of_isDecimal {b : UInt8} (h : isDecimal b = true) :
    isNamedEscape b = false := by
  cases hnamed : isNamedEscape b with
  | false => rfl
  | true =>
    rw [((escape_disjoint b).1 hnamed).1] at h
    cases h

theorem isLower_disjoint {b : UInt8} (h : isLower b = true) :
    (b == '|'.toUInt8) = false ∧ (b == '\x7d'.toUInt8) = false := by
  have hb := forall_of_range (p := fun b =>
    !isLower b || b != '|'.toUInt8 && b != '\x7d'.toUInt8) (by decide +kernel) b
  simpa [h] using hb

theorem isQuotedStop_of_isLower {b : UInt8} (h : isLower b = true) : isQuotedStop b = false := by
  have hb := forall_of_range (p := fun b => !isLower b || !isQuotedStop b) (by decide +kernel) b
  simpa [h] using hb

end StreamLexer.Byte
