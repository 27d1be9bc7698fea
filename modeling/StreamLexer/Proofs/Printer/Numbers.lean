import StreamLexer.Proofs.Literal.Digits
import StreamLexer.Proofs.Printer.Words
import StreamLexer.Proofs.Scan.WordBytes

/-!
# Printed numbers

A number that is not negative is displayed in decimal, with the suffix of its type, and a float as
its lexeme without underscores. Both texts are words of the rows that they come from, and no rows of
other numbers have a word like them: `roundTrips_integer`, `roundTrips_float`.
-/
namespace StreamLexer

open Pattern (avoids needs not_mem_of_avoids exists_mem_of_needs)

/-! ## The rows of numbers -/

/-- The decimal digits. -/
def decimals : List UInt8 :=
  (List.range 10).map fun n => UInt8.ofNat ('0'.toNat + n)

theorem mem_decimals {b : UInt8} (h : Byte.isDecimal b = true) : b ∈ decimals := by
  have hb := Byte.forall_of_range (p := fun b => !Byte.isDecimal b || decimals.contains b)
    (by decide +kernel) b
  simpa [h] using hb

/-- The letter after the digits of a type, as bytes. -/
def IntType.suffix (type : IntType) : List UInt8 :=
  type.suffix?.toList.map Char.toUInt8

/-- The patterns of integer literals of a type. -/
def integerPatterns (type : IntType) : List Pattern :=
  Pattern.integers.map (· ++ Pattern.literal type.suffix?.toList)

/-- The rules of texts that start with a digit. -/
def TokenRule.isNumber : TokenRule → Bool
  | .word (.integer _) | .word .float | .word .illegalByte => true
  | _ => false

/-- The rows of numbers. -/
def TokenRule.numberRows : List (TokenRule × Pattern) :=
  (integerPatterns .int).map (.word (.integer .int), ·) ++ Pattern.floats.map (.word .float, ·) ++
    IntType.all.tail.flatMap fun type =>
      (integerPatterns type).map (.word (.integer type), ·)

theorem TokenRule.rows_filter_isNumber :
    TokenRule.rows.filter (fun row => row.1.isNumber) =
      TokenRule.numberRows ++ [(.word .illegalByte, [.one fun _ => true])] := by
  simp [rows, WordRule.rows, WordRule.operatorRows, numberRows, IntType.all, List.filter_map,
    isNumber, Function.comp_def, integerPatterns, IntType.suffix?, Pattern.literal]

/-- Only these rows, and the one of any byte, count for a text that starts with a digit. -/
theorem firstAccepting?_decimal {d : UInt8} (hd : Byte.isDecimal d = true) (rest : List UInt8) :
    firstAccepting? TokenRule.rows (d :: rest) = firstAccepting?
      (TokenRule.numberRows ++ [(.word .illegalByte, [.one fun _ => true])]) (d :: rest) := by
  have hrows : (TokenRule.rows.all fun row =>
      row.1.isNumber || !row.2.canStart decimals) = true := by
    decide +kernel
  rw [firstAccepting?_of_canStart hrows (mem_decimals hd), TokenRule.rows_filter_isNumber]

theorem TokenRule.mem_numberRows {row : TokenRule × Pattern} :
    row ∈ numberRows ↔
      (∃ type, row.1 = .word (.integer type) ∧ row.2 ∈ integerPatterns type) ∨
        row.1 = .word .float ∧ row.2 ∈ Pattern.floats := by
  obtain ⟨rule, p⟩ := row
  simp only [numberRows, List.mem_append, List.mem_map, List.mem_flatMap, Prod.mk.injEq]
  constructor
  · rintro ((⟨q, hq, rfl, rfl⟩ | ⟨q, hq, rfl, rfl⟩) | ⟨type, -, q, hq, rfl, rfl⟩)
    · exact .inl ⟨.int, rfl, hq⟩
    · exact .inr ⟨rfl, hq⟩
    · exact .inl ⟨type, rfl, hq⟩
  · rintro (⟨type, rfl, hp⟩ | ⟨rfl, hp⟩)
    · cases type with
      | int => exact .inl (.inl ⟨p, hp, rfl, rfl⟩)
      | _ => exact .inr ⟨_, by decide, p, hp, rfl, rfl⟩
    · exact .inl (.inr ⟨p, hp, rfl, rfl⟩)

/-- If the rows that accept a word are all of one rule, their order does not matter. -/
theorem firstAccepting?_of_only {ρ : Type} {rows : List (ρ × Pattern)} {rule : ρ} {p : Pattern}
    {w : List UInt8} (hp : (rule, p) ∈ rows) (hw : p.Accepts w)
    (honly : ∀ row ∈ rows, row.2.Accepts w → row.1 = rule) (later : List (ρ × Pattern)) :
    firstAccepting? (rows ++ later) w = some rule := by
  rw [firstAccepting?_append]
  cases hfirst : firstAccepting? rows w with
  | none => exact absurd hw ((firstAccepting?_eq_none_iff rows w).mp hfirst _ hp)
  | some rule' =>
    obtain ⟨q, hq, haccepts⟩ := exists_of_firstAccepting? hfirst
    rw [Option.some_or, ← honly _ hq haccepts]

/-- No integer is a float: an integer has no point and no exponent, or is in base sixteen. -/
theorem not_accepts_integer_of_float {p q : Pattern} {type : IntType} {w : List UInt8}
    (hp : p ∈ integerPatterns type) (hq : q ∈ Pattern.floats) (hw : q.Accepts w) :
    ¬ p.Accepts w := by
  let marks := ['.'.toUInt8, 'e'.toUInt8, 'E'.toUInt8]
  let letters := ['x'.toUInt8, 'X'.toUInt8]
  have hinteger : ((integerPatterns type).all fun p =>
      p.avoids marks || p.needs letters) = true := by
    cases type <;> decide +kernel
  have hfloat : (Pattern.floats.all fun q => q.needs marks && q.avoids letters) = true := by
    decide +kernel
  obtain ⟨hmark, hletter⟩ : q.needs marks = true ∧ q.avoids letters = true := by
    simpa using List.all_eq_true.mp hfloat q hq
  intro haccepts
  rcases Bool.or_eq_true_iff.mp (List.all_eq_true.mp hinteger p hp) with havoids | hneeds
  · obtain ⟨b, hb, hmem⟩ := exists_mem_of_needs hmark hw
    exact not_mem_of_avoids havoids haccepts b hmem hb
  · obtain ⟨b, hb, hmem⟩ := exists_mem_of_needs hneeds haccepts
    exact not_mem_of_avoids hletter hw b hmem hb

/-! ## Integers -/

section Integers

variable {digits : List UInt8}

theorem accepts_integer (type : IntType) (hne : digits ≠ [])
    (hdigits : ∀ b ∈ digits, Byte.isDecimal b = true) :
    (Pattern.digits Byte.isDecimal ++ Pattern.literal type.suffix?.toList).Accepts
      (digits ++ type.suffix) := by
  apply Pattern.Accepts.append
  · cases digits with
    | nil => exact absurd rfl hne
    | cons d rest =>
      refine ⟨d, rest, rfl, hdigits d List.mem_cons_self, rest, [], by simp, ?_, rfl⟩
      intro b hb
      simp [hdigits b (List.mem_cons_of_mem d hb)]
  · exact Pattern.accepts_literal.mpr rfl

/-- The suffix of a type tells its literals from those of the others: either they lack a letter of
it, or they have one that no digit is. -/
theorem IntType.suffix_decides {type other : IntType} (h : other ≠ type) :
    (∃ b ∈ type.suffix, ((integerPatterns other).all (avoids [b])) = true) ∨
      type.suffix = [] ∧ (∀ b ∈ other.suffix, Byte.isDecimal b = false) ∧
        ((integerPatterns other).all (needs other.suffix)) = true := by
  cases type with
  | int =>
    cases other with
    | int => exact absurd rfl h
    | _ => exact .inr ⟨rfl, List.forall_mem_singleton.mpr rfl, by decide +kernel⟩
  | _ =>
    refine .inl ⟨_, List.mem_singleton_self _, ?_⟩
    cases other with
    | _ => first | exact absurd rfl h | decide +kernel

/-- Decimal digits with a suffix are a literal of one type only. -/
theorem eq_of_accepts_integer {type other : IntType} {p : Pattern}
    (hdigits : ∀ b ∈ digits, Byte.isDecimal b = true) (hp : p ∈ integerPatterns other)
    (hw : p.Accepts (digits ++ type.suffix)) : other = type := by
  by_contra hne
  rcases IntType.suffix_decides hne with ⟨b, hb, havoids⟩ | ⟨hnone, hletters, hneeds⟩
  · exact not_mem_of_avoids (List.all_eq_true.mp havoids p hp) hw b (List.mem_singleton_self b)
      (List.mem_append_right digits hb)
  · obtain ⟨b, hmem, hb⟩ := exists_mem_of_needs (List.all_eq_true.mp hneeds p hp) hw
    rw [hnone, List.append_nil] at hmem
    have hdecimal := hdigits b hmem
    rw [hletters b hb] at hdecimal
    cases hdecimal

/-- Decimal digits with the suffix of a type are an integer of that type. -/
theorem firstAccepting?_integer (type : IntType) (hne : digits ≠ [])
    (hdigits : ∀ b ∈ digits, Byte.isDecimal b = true) :
    firstAccepting? TokenRule.rows (digits ++ type.suffix) =
      some (.word (.integer type)) := by
  have haccepts := accepts_integer type hne hdigits
  have hpattern : Pattern.digits Byte.isDecimal ++ Pattern.literal type.suffix?.toList ∈
      integerPatterns type := List.mem_map.mpr ⟨_, List.mem_cons_self, rfl⟩
  have hnumber : firstAccepting? TokenRule.rows (digits ++ type.suffix) = firstAccepting?
      (TokenRule.numberRows ++ [(.word .illegalByte, [.one fun _ => true])])
        (digits ++ type.suffix) := by
    cases digits with
    | nil => exact absurd rfl hne
    | cons d rest => exact firstAccepting?_decimal (hdigits d List.mem_cons_self) _
  rw [hnumber]
  refine firstAccepting?_of_only (TokenRule.mem_numberRows.mpr (.inl ⟨type, rfl, hpattern⟩))
    haccepts ?_ _
  rintro ⟨rule, p⟩ hrow hw
  rcases TokenRule.mem_numberRows.mp hrow with ⟨other, rfl, hp⟩ | ⟨-, hp⟩
  · rw [eq_of_accepts_integer hdigits hp hw]
  · exact absurd haccepts (not_accepts_integer_of_float hpattern hp hw)

theorem display_integer (type : IntType) (n : Nat) :
    Latin1.encode? (TokenKind.integer type n).display =
      some (decimalDigits n ++ type.suffix) := by
  have hdigits : Latin1.decode (decimalDigits n) = toString n := by
    rw [decimalDigits, Latin1.decode_toUInt8 fun c => toNat_lt_of_mem_toDigits]
    exact Nat.toString_eq_ofList_toDigits.symm
  have hsuffix : Latin1.decode type.suffix = String.ofList type.suffix?.toList := by
    cases type <;> rfl
  rw [← Latin1.encode?_decode, Latin1.decode_append, hdigits, hsuffix]
  rfl

theorem read_integer {type : IntType} {n : Nat} (h : n < 2 ^ (type.bits - 1)) :
    WordRule.read {} (.integer type) (decimalDigits n ++ type.suffix) =
      .ok (.integer type n) := by
  have hdigits : (if type.suffix?.isSome then (decimalDigits n ++ type.suffix).dropLast
      else decimalDigits n ++ type.suffix) = decimalDigits n := by
    cases type with
    | int => exact List.append_nil _
    | _ => exact List.dropLast_concat
  simp only [WordRule.read, hdigits, integer?_decimalDigits h]

/-- A number in the range of its type is displayed as a literal of it. -/
theorem roundTrips_integer {type : IntType} {n : Nat} (h : n < 2 ^ (type.bits - 1)) :
    RoundTrips (.integer type n) :=
  roundTrips_of_word
    (firstAccepting?_integer type (decimalDigits_ne_nil n) (isDecimal_decimalDigits n))
    (read_integer h) (display_integer type n)

end Integers

/-! ## Floats -/

/-- A float starts with a digit. -/
theorem exists_digit_of_float {q : Pattern} {w : List UInt8} (hq : q ∈ Pattern.floats)
    (hw : q.Accepts w) : ∃ d rest, w = d :: rest ∧ Byte.isDecimal d = true := by
  obtain ⟨r, rfl⟩ : ∃ r, q = .one Byte.isDecimal :: r := by
    simp only [Pattern.floats, Pattern.exponents, Pattern.digits, List.map_cons, List.map_nil,
      List.mem_append, List.mem_cons, List.not_mem_nil, or_false, false_or,
      List.cons_append] at hq
    rcases hq with rfl | rfl | rfl | rfl | rfl <;> exact ⟨_, rfl⟩
  obtain ⟨d, rest, rfl, hd, -⟩ := hw
  exact ⟨d, rest, rfl, hd⟩

/-- A float without its underscores is a float. -/
theorem firstAccepting?_float {lexeme : List UInt8}
    (hfirst : firstAccepting? TokenRule.rows lexeme = some (.word .float)) :
    firstAccepting? TokenRule.rows (Numeral.stripUnderscores lexeme) = some (.word .float) := by
  have hpatterns : patternsOf TokenRule.rows (.word .float) = Pattern.floats := rfl
  obtain ⟨q, hq, haccepts⟩ := exists_patternsOf hfirst
  rw [hpatterns] at hq
  have hruns : (Pattern.floats.all (Pattern.inRunsOnly '_'.toUInt8)) = true := by decide +kernel
  have hstripped : q.Accepts (Numeral.stripUnderscores lexeme) :=
    Pattern.accepts_filter (List.all_eq_true.mp hruns q hq) haccepts
  obtain ⟨d, rest, hlexeme, hd⟩ := exists_digit_of_float hq hstripped
  rw [hlexeme] at hstripped ⊢
  rw [firstAccepting?_decimal hd]
  refine firstAccepting?_of_only (TokenRule.mem_numberRows.mpr (.inr ⟨rfl, hq⟩)) hstripped ?_ _
  rintro ⟨rule, p⟩ hrow hw
  rcases TokenRule.mem_numberRows.mp hrow with ⟨type, -, hp⟩ | ⟨rfl, -⟩
  · exact absurd hw (not_accepts_integer_of_float hp hq hstripped)
  · rfl

theorem roundTrips_float {lexeme : List UInt8}
    (hfirst : firstAccepting? TokenRule.rows lexeme = some (.word .float)) :
    RoundTrips (.float (Latin1.decode (Numeral.stripUnderscores lexeme))) := by
  refine roundTrips_of_word (firstAccepting?_float hfirst) ?_ (Latin1.encode?_decode _)
  have hidem : Numeral.stripUnderscores (Numeral.stripUnderscores lexeme) =
      Numeral.stripUnderscores lexeme := by
    simp [Numeral.stripUnderscores]
  rw [WordRule.read, hidem]

end StreamLexer
