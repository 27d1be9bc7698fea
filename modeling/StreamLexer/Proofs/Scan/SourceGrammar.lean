import Mathlib.Algebra.BigOperators.Ring.List
import Mathlib.Computability.Language
import Mathlib.Tactic.Abel
import StreamLexer.Proofs.Scan.LongestMatch
import StreamLexer.Proofs.Scan.SourceArms

/-!
# The lexical grammar of source code

The rules of source code written as languages: concatenation, union and repetition, one row a rule,
in order of precedence. Nothing here reads bytes one after the other; the table only says which
words each rule has.

The main statement is `sourceScan_longestMatch`: on a complete source the scan of source code gives
the longest match of this table. `TokenRule.scan_eq_munch` gives the scan as the maximal munch over
another table, whose rows are sequences of pieces and stand in another order, so most of the module
compares the two.
-/
namespace StreamLexer

open scoped Computability

variable {ρ : Type}

namespace Grammar

/-- One byte of a set. -/
def byteIn (set : UInt8 → Bool) : Language UInt8 :=
  {w : List UInt8 | ∃ b, set b = true ∧ w = [b]}

/-- One character. -/
def char (c : Char) : Language UInt8 :=
  byteIn (· == c.toUInt8)

/-- One of some characters. -/
def anyOf (cs : List Char) : Language UInt8 :=
  byteIn (Byte.isAny cs)

/-- One fixed text. -/
def text (cs : List Char) : Language UInt8 :=
  {cs.map Char.toUInt8}

/-- Once or more often. -/
def repeated (lang : Language UInt8) : Language UInt8 :=
  lang * lang∗

/-- Once or not at all. -/
def optional (lang : Language UInt8) : Language UInt8 :=
  1 + lang

/-- `\r*\n` -/
def lineEnd : Language UInt8 :=
  (char '\r')∗ * char '\n'

/-- Bytes that continue an identifier. -/
def identRest : Language UInt8 :=
  (byteIn Byte.isIdent)∗

/-- A digit, then digits and underscores. -/
def number (isDigit : UInt8 → Bool) : Language UInt8 :=
  byteIn isDigit * (byteIn fun b => isDigit b || b == '_'.toUInt8)∗

/-- An integer literal without a suffix, in one of the four radices. -/
def integer : Language UInt8 :=
  number Byte.isDecimal +
    char '0' * anyOf ['x', 'X'] * number Byte.isHex +
    char '0' * anyOf ['o', 'O'] * number Byte.isOctal +
    char '0' * anyOf ['b', 'B'] * number Byte.isBinary

/-- A point and the digits after it. -/
def fraction : Language UInt8 :=
  char '.' * (byteIn fun b => Byte.isDecimal b || b == '_'.toUInt8)∗

/-- An exponent, with or without a sign. -/
def exponent : Language UInt8 :=
  anyOf ['e', 'E'] * optional (anyOf ['+', '-']) * number Byte.isDecimal

/-- A decimal number with a fraction and an exponent, either of which may be missing. -/
def float : Language UInt8 :=
  number Byte.isDecimal * optional fraction * optional exponent

/-- Something between single quotes. -/
def inQuotes (lang : Language UInt8) : Language UInt8 :=
  char '\'' * lang * char '\''

/-- `#`, blanks, a line number, the rest of the line and its end. -/
def lineDirective : Language UInt8 :=
  char '#' * (anyOf [' ', '\t'])∗ * repeated (byteIn Byte.isDecimal) *
    (byteIn fun b => !Byte.isLineEnd b)∗ * lineEnd

/-- `<:id<`, `<:id@id<` or `<@id<`, where each `id` may be empty. -/
def quotationOpen : Language UInt8 :=
  char '<' * char ':' * identRest * char '<' +
    char '<' * char ':' * identRest * char '@' * identRest * char '<' +
    char '<' * char '@' * identRest * char '<'

/-- One of some characters, then operator characters. -/
def operatorLed (cs : List Char) : Language UInt8 :=
  anyOf cs * (byteIn Byte.isSymbol)∗

/-- Blanks and line ends. -/
def triviaRows : List (TokenRule × Language UInt8) :=
  [(.blank, repeated (byteIn Byte.isBlank)), (.newline, lineEnd)]

/-- The rows of the rules that have one lexeme each, given the rules. -/
def fixedRows (rules : List TokenRule) : List (TokenRule × Language UInt8) :=
  rules.filterMap fun rule => rule.lexeme?.map fun spelling => (rule, text spelling.toList)

/-- The rules of the marks. -/
def markRules : List TokenRule :=
  Punct.all.map (.word <| .punct ·)

/-- The rules of the openers that have one spelling, and of the stray closer. -/
def openerRules : List TokenRule :=
  [.stringOpen, .commentOpen, .commentOpenAmbiguous, .strayClose]

/-- The operator `!=`, labels and identifiers. -/
def nameRows : List (TokenRule × Language UInt8) :=
  [(.word (.operator .level0), text ['!', '=']),
   (.word .label, char '~' * byteIn Byte.isLower * identRest * char ':'),
   (.word .optLabel, char '?' * byteIn Byte.isLower * identRest * char ':'),
   (.word .lower, byteIn Byte.isLower * identRest),
   (.word .upper, byteIn Byte.isUpper * identRest)]

/-- Integer literals, with their suffixes, before the floats. -/
def numberRows : List (TokenRule × Language UInt8) :=
  [(.word (.integer .int), integer),
   (.word (.integer .int32), integer * char 'l'),
   (.word (.integer .int64), integer * char 'L'),
   (.word (.integer .native), integer * char 'n'),
   (.word .float, float)]

/-- Character literals, the illegal one last. -/
def charRows : List (TokenRule × Language UInt8) :=
  [(.word .charNewline, inQuotes lineEnd),
   (.word .char, inQuotes (byteIn fun b => !Byte.isAny ['\\', '\'', '\n', '\r'] b)),
   (.word .charEscape, inQuotes (char '\\' * byteIn Byte.isNamedEscape)),
   (.word .charDecimal, inQuotes
      (char '\\' * byteIn Byte.isDecimal * byteIn Byte.isDecimal * byteIn Byte.isDecimal)),
   (.word .charHex, inQuotes (char '\\' * char 'x' * byteIn Byte.isHex * byteIn Byte.isHex)),
   (.word .charIllegal, char '\'' * char '\\' * byteIn fun _ => true)]

/-- Openers and directives of more than one spelling. -/
def openerRows : List (TokenRule × Language UInt8) :=
  [(.quotedOpen, char '\x7b' * (byteIn Byte.isLower)∗ * char '|'),
   (.lineDirective, lineDirective),
   (.quotationOpen, quotationOpen)]

/-- The operator classes, then the byte that starts nothing. -/
def operatorRows : List (TokenRule × Language UInt8) :=
  [(.word (.operator .prefixOp), anyOf ['!', '~', '?'] * repeated (byteIn Byte.isSymbol)),
   (.word (.operator .level0), operatorLed ['=', '<', '>', '|', '&', '$']),
   (.word (.operator .level1), operatorLed ['@', '^']),
   (.word (.operator .level2), operatorLed ['+', '-']),
   (.word (.operator .level4), char '*' * char '*' * (byteIn Byte.isSymbol)∗),
   (.word (.operator .level3), operatorLed ['*', '/', '%']),
   (.word .illegalByte, byteIn fun _ => true)]

/-- The rules of source code in order of precedence. -/
def sourceTable : List (TokenRule × Language UInt8) :=
  triviaRows ++ fixedRows markRules ++ fixedRows openerRules ++ nameRows ++ numberRows ++
    charRows ++ openerRows ++ operatorRows

end Grammar

/-! ## Patterns as languages -/

namespace Pattern

open Grammar

theorem mem_byteIn_kstar (set : UInt8 → Bool) (w : List UInt8) :
    w ∈ (byteIn set)∗ ↔ ∀ b ∈ w, set b = true := by
  rw [Language.mem_kstar]
  constructor
  · rintro ⟨parts, rfl, hparts⟩ b hb
    obtain ⟨part, hpart, hb⟩ := List.mem_flatten.mp hb
    obtain ⟨c, hc, rfl⟩ := hparts part hpart
    obtain rfl : b = c := by simpa using hb
    exact hc
  · intro h
    refine ⟨w.map ([·]), (List.flatMap_singleton' w).symm, ?_⟩
    intro part hpart
    obtain ⟨b, hb, rfl⟩ := List.mem_map.mp hpart
    exact ⟨b, h b hb, rfl⟩

@[simp] theorem language_nil : language [] = 1 :=
  Language.ext fun _ => Iff.rfl

@[simp] theorem language_one (set : UInt8 → Bool) (p : Pattern) :
    language (.one set :: p) = byteIn set * language p := by
  ext w
  rw [Language.mem_mul, mem_language]
  constructor
  · rintro ⟨b, v, rfl, hb, hv⟩
    exact ⟨[b], ⟨b, hb, rfl⟩, v, hv, rfl⟩
  · rintro ⟨_, ⟨b, hb, rfl⟩, v, hv, rfl⟩
    exact ⟨b, v, rfl, hb, hv⟩

@[simp] theorem language_many (set : UInt8 → Bool) (p : Pattern) :
    language (.many set :: p) = (byteIn set)∗ * language p := by
  ext w
  rw [Language.mem_mul, mem_language]
  constructor
  · rintro ⟨u, v, rfl, hu, hv⟩
    exact ⟨u, (mem_byteIn_kstar set u).mpr hu, v, hv, rfl⟩
  · rintro ⟨u, hu, v, hv, rfl⟩
    exact ⟨u, v, rfl, (mem_byteIn_kstar set u).mp hu, hv⟩

@[simp] theorem language_char (c : Char) (p : Pattern) :
    language (.char c :: p) = char c * language p :=
  language_one _ p

@[simp] theorem language_anyOf (cs : List Char) (p : Pattern) :
    language (.anyOf cs :: p) = anyOf cs * language p :=
  language_one _ p

@[simp] theorem language_append (p q : Pattern) :
    language (p ++ q) = language p * language q := by
  induction p with
  | nil => simp
  | cons piece p ih => cases piece <;> simp [ih, mul_assoc]

@[simp] theorem language_literal (cs : List Char) : language (literal cs) = text cs := by
  induction cs with
  | nil => rfl
  | cons c cs ih =>
    have hcons : literal (c :: cs) = .char c :: literal cs := rfl
    rw [hcons, language_char, ih]
    ext w
    rw [Language.mem_mul]
    constructor
    · rintro ⟨_, ⟨b, hb, rfl⟩, _, rfl, rfl⟩
      rw [eq_of_beq hb]
      rfl
    · rintro rfl
      exact ⟨[c.toUInt8], ⟨_, beq_self_eq_true _, rfl⟩, _, rfl, rfl⟩

theorem language_lineEnd : lineEnd.language = Grammar.lineEnd := by
  rw [lineEnd, language_many, language_char, language_nil, mul_one]
  rfl

theorem any_accepts_iff (ps : List Pattern) (w : List UInt8) :
    ps.any (·.accepts w) = true ↔ w ∈ (ps.map language).sum := by
  induction ps with
  | nil => simp [Language.notMem_zero]
  | cons p ps ih =>
    rw [List.map_cons, List.sum_cons, Language.mem_add, ← ih, List.any_cons, Bool.or_eq_true,
      accepts_iff, mem_language]

end Pattern

/-! ## Rows in another shape -/

/-- Several patterns under one rule do what one row with the union of their languages does. -/
theorem firstRule?_group (rule : ρ) {lang : Language UInt8} (ps : List Pattern)
    (h : lang = (ps.map Pattern.language).sum) (w : List UInt8) :
    firstRule? [(rule, lang)] w = firstAccepting? (ps.map (rule, ·)) w := by
  rw [firstRule?_cons, firstAccepting?_map, h]
  by_cases hw : w ∈ (ps.map Pattern.language).sum
  · rw [if_pos hw, if_pos ((Pattern.any_accepts_iff ps w).mpr hw)]
  · rw [if_neg hw, if_neg fun hany => hw ((Pattern.any_accepts_iff ps w).mp hany)]
    rfl

namespace Grammar

open Pattern

theorem sum_integers : (integers.map language).sum = integer := by
  simp [integers, digits, integer, number, mul_assoc, sup_assoc]

theorem sum_quotationOpens : (quotationOpens.map language).sum = quotationOpen := by
  simp [quotationOpens, quotationOpen, identRest, mul_assoc, sup_assoc]

/-- The patterns of floats leave out the numbers without a fraction and an exponent. -/
theorem float_eq : float = number Byte.isDecimal + (floats.map language).sum := by
  simp only [float, exponent, optional, floats, exponents, digits, Pattern.fraction, fraction,
    number, List.map_cons, List.map_nil, List.cons_append, List.nil_append, List.sum_cons,
    List.sum_nil, language_one, language_many, language_char, language_anyOf, language_nil,
    mul_add, add_mul, mul_one, add_zero, mul_assoc]
  abel

/-- A run of one set, then a run of another: either the second run is empty, or it may be taken to
start outside the first set. -/
theorem run_mul_run (small large : UInt8 → Bool) :
    (byteIn small)∗ * (byteIn large)∗ =
      (byteIn small)∗ + (byteIn small)∗ * byteIn (fun b => large b && !small b) *
        (byteIn large)∗ := by
  ext w
  rw [Language.mem_mul, Language.mem_add, mul_assoc, Language.mem_mul]
  constructor
  · rintro ⟨u, hu, v, hv, rfl⟩
    rw [mem_byteIn_kstar] at hu hv
    have hrun : ∀ b ∈ u ++ v.takeWhile small, small b = true := by
      intro b hb
      rcases List.mem_append.mp hb with hb | hb
      · exact hu b hb
      · exact List.all_eq_true.mp List.all_takeWhile b hb
    have hsplit := @List.takeWhile_append_dropWhile _ small v
    cases hrest : v.dropWhile small with
    | nil =>
      rw [hrest, List.append_nil] at hsplit
      rw [hsplit] at hrun
      exact .inl ((mem_byteIn_kstar _ _).mpr hrun)
    | cons b r =>
      rw [hrest] at hsplit
      have hlarge : ∀ c ∈ b :: r, large c = true := by
        intro c hc
        refine hv c ?_
        rw [← hsplit]
        exact List.mem_append_right _ hc
      have hb : small b = false := by
        have hne : v.dropWhile small ≠ [] := by simp [hrest]
        simpa [hrest] using List.head_dropWhile_not small hne
      refine .inr ⟨u ++ v.takeWhile small, (mem_byteIn_kstar _ _).mpr hrun, b :: r, ?_, ?_⟩
      · exact ⟨[b], ⟨b, by simp [hlarge b, hb], rfl⟩, r,
          (mem_byteIn_kstar _ _).mpr fun c hc => hlarge c (by simp [hc]), rfl⟩
      · rw [List.append_assoc, hsplit]
  · rintro (hw | ⟨u, hu, _, ⟨_, ⟨b, hb, rfl⟩, r, hr, rfl⟩, rfl⟩)
    · exact ⟨w, hw, [], Language.nil_mem_kstar _, List.append_nil w⟩
    · refine ⟨u, hu, b :: r, (mem_byteIn_kstar _ _).mpr ?_, rfl⟩
      intro c hc
      rcases List.mem_cons.mp hc with rfl | hc
      · exact (Bool.and_eq_true_iff.mp hb).1
      · exact (mem_byteIn_kstar _ _).mp hr c hc

theorem sum_lineDirectives : (lineDirectives.map language).sum = lineDirective := by
  have hdigits : repeated (byteIn Byte.isDecimal) * (byteIn fun b => !Byte.isLineEnd b)∗ =
      byteIn Byte.isDecimal * ((byteIn Byte.isDecimal)∗ * (byteIn fun b => !Byte.isLineEnd b)∗) :=
    mul_assoc _ _ _
  rw [lineDirective, mul_assoc _ (repeated _), hdigits, run_mul_run]
  simp only [lineDirectives, anyOf, List.map_cons, List.map_nil, List.sum_cons,
    List.sum_nil, language_append, language_lineEnd, language_one, language_many, language_char,
    language_nil, mul_add, add_mul, mul_one, add_zero, mul_assoc]

/-! ## Block by block -/

theorem firstRule?_triviaRows (w : List UInt8) :
    firstRule? triviaRows w = firstAccepting?
      [(.blank, [.one Byte.isBlank, .many Byte.isBlank]), (.newline, Pattern.lineEnd)] w := by
  rw [← firstRule?_languages]
  congr 1
  simp [triviaRows, languages, repeated, language_lineEnd]

theorem firstRule?_markRows (w : List UInt8) :
    firstRule? (fixedRows markRules) w =
      firstAccepting? (Punct.all.map fun mark => (.word (.punct mark), literal mark.chars)) w := by
  rw [← firstRule?_languages, fixedRows, markRules, List.filterMap_map, languages, List.map_map,
    ← List.filterMap_eq_map]
  congr 2
  funext mark
  have hlexeme : (TokenRule.word (.punct mark)).lexeme? = some (String.ofList mark.chars) :=
    mark.spelling_eq ▸ TokenRule.lexeme?_mark mark
  simp [hlexeme]

/-- A suffix is a letter that no float has. -/
theorem not_mem_floats {w : List UInt8} {c : Char} (hc : c ∈ ['l', 'L', 'n'])
    (hw : w ∈ integer * char c) : floats.any (·.accepts w) = false := by
  obtain ⟨u, -, _, ⟨b, hb, rfl⟩, rfl⟩ := hw
  obtain rfl : b = c.toUInt8 := eq_of_beq hb
  rw [List.any_eq_false]
  intro p hp haccepts
  have havoids : ∀ p ∈ floats, p.avoids (['l', 'L', 'n'].map Char.toUInt8) = true := by decide
  exact not_mem_of_avoids (havoids p hp) ((accepts_iff p _).mp haccepts) c.toUInt8
    (List.mem_map_of_mem hc) (List.mem_append_right u List.mem_cons_self)

/-- The floats stand behind the integers with a suffix in one table and before them in the other. -/
theorem firstRule?_numberRows (w : List UInt8) :
    firstRule? numberRows w =
      (firstAccepting? (integers.map (.word (.integer .int), ·)) w).or
        ((firstAccepting? (floats.map (.word .float, ·)) w).or
          ((firstAccepting?
              (integers.map fun p => (.word (.integer .int32), p ++ [.char 'l'])) w).or
            ((firstAccepting?
                (integers.map fun p => (.word (.integer .int64), p ++ [.char 'L'])) w).or
              (firstAccepting?
                (integers.map fun p => (.word (.integer .native), p ++ [.char 'n'])) w)))) := by
  have hsuffix : ∀ (rule : TokenRule) (c : Char), firstRule? [(rule, integer * char c)] w =
      firstAccepting? (integers.map fun p => (rule, p ++ [.char c])) w := by
    intro rule c
    rw [firstRule?_group rule (integers.map (· ++ [.char c])), List.map_map]
    · rfl
    · rw [← sum_integers, List.map_map, ← List.sum_map_mul_right]
      simp [Function.comp_def]
  have hsplit : numberRows = [(.word (.integer .int), integer)] ++
      ([(.word (.integer .int32), integer * char 'l')] ++
        ([(.word (.integer .int64), integer * char 'L')] ++
          ([(.word (.integer .native), integer * char 'n')] ++ [(.word .float, float)]))) := rfl
  rw [hsplit]
  simp only [firstRule?_append, ← hsuffix]
  rw [firstRule?_group _ _ sum_integers.symm]
  by_cases hw : w ∈ number Byte.isDecimal
  · -- a number without a fraction and an exponent is an integer already
    have hint : integers.any (·.accepts w) = true := by
      rw [any_accepts_iff, sum_integers]
      exact .inl (.inl (.inl hw))
    simp [firstAccepting?_map, hint]
  · have hfloat : firstRule? [(TokenRule.word .float, float)] w =
        firstAccepting? (floats.map (.word .float, ·)) w := by
      have hmem : w ∈ float ↔ floats.any (·.accepts w) = true := by
        rw [any_accepts_iff, float_eq, Language.mem_add]
        exact or_iff_right hw
      rw [firstRule?_cons, firstAccepting?_map]
      simp only [hmem]
      rfl
    rw [hfloat, firstAccepting?_map _ floats]
    congr 1
    cases hany : floats.any (·.accepts w) with
    | false => simp
    | true =>
      have hnone : ∀ (rule : TokenRule), ∀ c ∈ ['l', 'L', 'n'],
          firstRule? [(rule, integer * char c)] w = none := by
        intro rule c hc
        rw [firstRule?_cons, if_neg]
        · rfl
        · intro hmem
          rw [not_mem_floats hc hmem] at hany
          cases hany
      simp [hnone]

theorem firstRule?_openerRules (w : List UInt8) :
    firstRule? (fixedRows openerRules) w = firstAccepting?
      [(.stringOpen, literal ['"']), (.commentOpen, literal ['(', '*']),
       (.commentOpenAmbiguous, literal ['(', '*', ')']), (.strayClose, literal ['*', ')'])] w := by
  rw [← firstRule?_languages]
  congr 1
  simp [fixedRows, openerRules, TokenRule.lexeme?, languages]

/-- The words of the openers that have one spelling, and of the stray closer. -/
def openerWords : List (List UInt8) :=
  [['"'], ['(', '*'], ['(', '*', ')'], ['*', ')']].map (·.map Char.toUInt8)

theorem not_accepts_literal {w : List UInt8} (h : w ∉ openerWords) (cs : List Char)
    (hcs : cs.map Char.toUInt8 ∈ openerWords) : (literal cs).accepts w = false := by
  rw [← Bool.not_eq_true, accepts_iff, ← mem_language, language_literal]
  rintro rfl
  exact h hcs

theorem firstRule?_openerRows (w : List UInt8) :
    firstRule? openerRows w =
      (firstAccepting? [(.quotedOpen, quotedOpen)] w).or
        ((firstAccepting? (lineDirectives.map (.lineDirective, ·)) w).or
          (firstAccepting? (quotationOpens.map (.quotationOpen, ·)) w)) := by
  have hsplit : openerRows =
      [(.quotedOpen, char '\x7b' * (byteIn Byte.isLower)∗ * char '|')] ++
        ([(.lineDirective, lineDirective)] ++ [(.quotationOpen, quotationOpen)]) := rfl
  rw [hsplit, firstRule?_append, firstRule?_append, firstRule?_group _ _ sum_lineDirectives.symm,
    firstRule?_group _ _ sum_quotationOpens.symm, ← firstRule?_languages [(_, quotedOpen)]]
  simp [languages, quotedOpen, mul_assoc]

/-- The openers stand before the names in one table and after the character literals in the other.
That makes no difference, since their words are in no row between these two places. -/
theorem firstRule?_sourceTable (w : List UInt8) :
    firstRule? sourceTable w = firstAccepting? TokenRule.rows w := by
  simp only [sourceTable, TokenRule.rows, WordRule.rows, WordRule.operatorRows, List.map_append,
    List.map_map, Function.comp_def, List.map_cons, List.map_nil, firstRule?_append,
    firstAccepting?_append, Option.or_assoc, firstRule?_triviaRows, firstRule?_markRows,
    firstRule?_openerRules, firstRule?_numberRows, firstRule?_openerRows]
  congr 2
  by_cases hw : w ∈ openerWords
  · -- the words that may have moved are four, and can be tried
    simp only [openerWords, List.map_cons, List.map_nil, List.mem_cons, List.not_mem_nil,
      or_false] at hw
    rcases hw with rfl | rfl | rfl | rfl
    · rfl
    · rfl
    · rfl
    · rfl
  · have hopeners : firstAccepting? [(TokenRule.stringOpen, literal ['"']),
        (.commentOpen, literal ['(', '*']), (.commentOpenAmbiguous, literal ['(', '*', ')']),
        (.strayClose, literal ['*', ')'])] w = none := by
      simp [firstAccepting?, not_accepts_literal hw ['"'] (by decide),
        not_accepts_literal hw ['(', '*'] (by decide),
        not_accepts_literal hw ['(', '*', ')'] (by decide),
        not_accepts_literal hw ['*', ')'] (by decide)]
    have hquoted : firstAccepting? [(TokenRule.stringOpen, literal ['"']),
        (.quotedOpen, quotedOpen), (.commentOpen, literal ['(', '*']),
        (.commentOpenAmbiguous, literal ['(', '*', ')']), (.strayClose, literal ['*', ')'])] w =
          firstAccepting? [(.quotedOpen, quotedOpen)] w := by
      simp [firstAccepting?_cons, not_accepts_literal hw ['"'] (by decide),
        not_accepts_literal hw ['(', '*'] (by decide),
        not_accepts_literal hw ['(', '*', ')'] (by decide),
        not_accepts_literal hw ['*', ')'] (by decide)]
    rw [hopeners, hquoted, Option.none_or]
    -- what is left are the names, the character literals and the operators, row by row
    congr 1
    · rw [← firstRule?_languages]
      congr 1
      simp [nameRows, languages, identRest, mul_assoc]
    congr 5
    congr 1
    · rw [← firstRule?_languages]
      congr 1
      simp [charRows, languages, inQuotes, Pattern.charNewline, charPlain, Pattern.inQuotes,
        namedEscape, decimalEscape, hexEscape, language_lineEnd, mul_assoc]
    congr 3
    rw [← firstRule?_languages]
    congr 1
    simp [operatorRows, languages, repeated, operatorLed, Pattern.operatorLed, mul_assoc]

end Grammar

/-- Where bytes are left, the scan of source code gives the longest match of the lexical grammar. -/
theorem scan_found_iff {source : List UInt8} (hne : source ≠ []) (rule : TokenRule) (n : Nat) :
    TokenRule.scan ⟨source, true⟩ = .found rule n ↔
      LongestMatch Grammar.sourceTable source rule n := by
  obtain ⟨b, bytes, rfl⟩ := List.exists_cons_of_ne_nil hne
  have htable : LongestMatch (languages TokenRule.rows) (b :: bytes) rule n ↔
      LongestMatch Grammar.sourceTable (b :: bytes) rule n := by
    refine longestMatch_congr ?_ (b :: bytes) rule n
    intro w rule
    rw [← firstRule?_eq_some_iff, ← firstRule?_eq_some_iff, firstRule?_languages,
      Grammar.firstRule?_sourceTable]
  have hmem : (.word .illegalByte, [.one fun _ => true]) ∈ TokenRule.rows := by
    simp [TokenRule.rows, WordRule.operatorRows]
  have hsome : (firstAccepting? TokenRule.rows ((b :: bytes).take 1)).isSome := by
    rw [Option.isSome_iff_ne_none, Ne, firstAccepting?_eq_none_iff]
    intro hnone
    exact hnone _ hmem ⟨b, [], rfl, rfl, rfl⟩
  rw [← htable, ← munch_found_iff TokenRule.endOfInput rfl ⟨1, by simp, hsome⟩,
    TokenRule.scan_eq_munch]

/-- On a complete source the scan of source code gives the longest match of the lexical grammar, and
the end of input exactly where nothing is left. -/
theorem sourceScan_longestMatch (source : List UInt8) :
    (∃ rule n, TokenRule.scan ⟨source, true⟩ = .found rule n) ∧
      ∀ rule n, TokenRule.scan ⟨source, true⟩ = .found rule n ↔
        source = [] ∧ rule = .endOfInput ∧ n = 0 ∨
          source ≠ [] ∧ LongestMatch Grammar.sourceTable source rule n := by
  refine ⟨?_, ?_⟩
  · obtain ⟨rule, n, h, -⟩ := munch_closed TokenRule.endOfInput TokenRule.rows source
    exact ⟨rule, n, TokenRule.scan_eq_munch ▸ h⟩
  intro rule n
  cases source with
  | nil =>
    have hend : TokenRule.scan ⟨[], true⟩ = .found .endOfInput 0 := rfl
    simp [hend, eq_comm]
  | cons b bytes =>
    rw [scan_found_iff (List.cons_ne_nil b bytes)]
    simp

end StreamLexer
