import StreamLexer.Proofs.Literal.Strings
import StreamLexer.Proofs.Printer.Words
import StreamLexer.Proofs.Scan.WordBytes

/-!
# Printed characters and strings

Bytes are displayed with escapes, each on its own. The lexer reads every one of them back, between
single quotes as a word (`roundTrips_char`) and between double quotes as one item of the string,
whatever comes behind it (`roundTrips_string`).
-/
namespace StreamLexer

open Reader (Ending Item Head Literal Placed afterLineEnd? escape? head readItems)

/-! ## Escapes -/

/-- The escape of a byte, as bytes. -/
def escapeOf (b : UInt8) : List UInt8 :=
  (Escape.asciiByte b).map Char.toUInt8

theorem toNat_lt_of_mem_asciiByte {b : UInt8} : ∀ c ∈ Escape.asciiByte b, c.toNat < 256 := by
  have h := Byte.forall_of_range (p := fun b => (Escape.asciiByte b).all fun c => c.toNat < 256)
    (by decide +kernel) b
  intro c hc
  simpa using List.all_eq_true.mp h c hc

/-- An escape is the byte itself, a backslash with a letter, or a backslash with `x` and two
hexadecimal digits. -/
inductive EscapeForm (b : UInt8) : List UInt8 → Prop
  | plain (stop : Byte.isStringStop b = false) : EscapeForm b [b]
  | named {c : UInt8} (byte : Reader.namedByte? c = some b) (line : Byte.isLineEnd c = false) :
      EscapeForm b ['\\'.toUInt8, c]
  | hex {d e : UInt8} (first : Byte.isHex d = true) (second : Byte.isHex e = true)
      (byte : Reader.hexByte d e = b) : EscapeForm b ['\\'.toUInt8, 'x'.toUInt8, d, e]

theorem hexDigits_of_byte (b : UInt8) :
    Byte.isHex (Escape.hexDigit (b.toNat / 16)).toUInt8 = true ∧
      Byte.isHex (Escape.hexDigit (b.toNat % 16)).toUInt8 = true ∧
      Reader.hexByte (Escape.hexDigit (b.toNat / 16)).toUInt8
        (Escape.hexDigit (b.toNat % 16)).toUInt8 = b := by
  have h := Byte.forall_of_range (p := fun b =>
    Byte.isHex (Escape.hexDigit (b.toNat / 16)).toUInt8 &&
      (Byte.isHex (Escape.hexDigit (b.toNat % 16)).toUInt8 &&
        Reader.hexByte (Escape.hexDigit (b.toNat / 16)).toUInt8
          (Escape.hexDigit (b.toNat % 16)).toUInt8 == b)) (by decide +kernel) b
  simpa using h

theorem escapeOf_form (b : UInt8) : EscapeForm b (escapeOf b) := by
  unfold escapeOf Escape.asciiByte
  split_ifs with htab hreturn hnewline hquote hdouble hback hprintable
  · rw [eq_of_beq htab]
    exact .named rfl rfl
  · rw [eq_of_beq hreturn]
    exact .named rfl rfl
  · rw [eq_of_beq hnewline]
    exact .named rfl rfl
  · rw [eq_of_beq hquote]
    exact .named rfl rfl
  · rw [eq_of_beq hdouble]
    exact .named rfl rfl
  · rw [eq_of_beq hback]
    exact .named rfl rfl
  · have hstop : Byte.isStringStop b = false := by
      simp [Byte.isStringStop, Byte.isAny] at *
      tauto
    have hbyte : [Latin1.char b].map Char.toUInt8 = [b] := by
      rw [List.map_singleton, (Latin1.char_eq b).2]
    rw [hbyte]
    exact .plain hstop
  · obtain ⟨hfirst, hsecond, hbyte⟩ := hexDigits_of_byte b
    exact .hex hfirst hsecond hbyte

/-- A text between quotes, displayed and encoded again. -/
theorem encode?_between (quote : Char) (hquote : quote.toNat < 256) (text : List UInt8) :
    Latin1.encode? (String.ofList [quote] ++ Escape.ascii text ++ String.ofList [quote]) =
      some (quote.toUInt8 :: (text.flatMap escapeOf ++ [quote.toUInt8])) := by
  have hchars : ∀ c ∈ [quote] ++ text.flatMap Escape.asciiByte ++ [quote], c.toNat < 256 := by
    intro c hc
    simp only [List.mem_append, List.mem_singleton, List.mem_flatMap] at hc
    rcases hc with (rfl | ⟨b, -, hb⟩) | rfl
    · exact hquote
    · exact toNat_lt_of_mem_asciiByte c hb
    · exact hquote
  rw [Escape.ascii, ← String.ofList_append, ← String.ofList_append, Latin1.encode?_ofList hchars,
    List.map_append, List.map_append, List.map_flatMap]
  rfl

/-! ## Strings -/

/-- The reader reads an escape as one item, whatever comes behind it. -/
theorem head_escapeOf (b : UInt8) (rest : List UInt8) :
    ∃ item, head (escapeOf b ++ rest) = .item item rest ∧ item.denotes = [b] ∧
      item.warning? = none := by
  have hform := escapeOf_form b
  generalize escapeOf b = text at hform
  cases hform with
  | plain stop =>
    refine ⟨.plain b, ?_, rfl, rfl⟩
    simp only [Byte.isStringStop, Byte.isAny, List.any_cons, List.any_nil, Bool.or_false,
      Bool.or_eq_false_iff] at stop
    obtain ⟨hquote, hback, hnewline, hreturn⟩ := stop
    have hline : afterLineEnd? (b :: rest) = none :=
      afterLineEnd?_of_ne (beq_eq_false_iff_ne.mp hreturn) (beq_eq_false_iff_ne.mp hnewline) rest
    simp only [List.singleton_append, head, hquote, hback, hline, Bool.false_eq_true, if_false]
  | @named c byte line =>
    have hescape : escape? (c :: rest) = some (some b, rest) := by simp only [escape?, byte]
    exact ⟨.escape b,
      Reader.head_escape (afterLineEnd?_of_isLineEnd_eq_false line rest) hescape, rfl, rfl⟩
  | @hex d e first second byte =>
    have hletter : Reader.namedByte? 'x'.toUInt8 = none := rfl
    have hdecimal : Byte.isDecimal 'x'.toUInt8 = false := rfl
    have hescape : escape? ('x'.toUInt8 :: d :: e :: rest) = some (some b, rest) := by
      simp only [escape?, hletter, hdecimal, first, second, byte, beq_self_eq_true,
        Bool.false_and, Bool.and_self, Bool.false_eq_true, if_false, if_true]
    exact ⟨.escape b, Reader.head_escape (afterLineEnd?_of_isLineEnd_eq_false rfl _) hescape,
      rfl, rfl⟩

/-- So the reader reads the escapes of a text as the text, up to the closing quote. -/
theorem readItems_escapes (text : List UInt8) (offset : Nat) :
    (readItems offset (text.flatMap escapeOf ++ ['"'.toUInt8])).ending = .closed ∧
      (readItems offset (text.flatMap escapeOf ++ ['"'.toUInt8])).text = text ∧
      (readItems offset (text.flatMap escapeOf ++ ['"'.toUInt8])).notes = [] ∧
      (readItems offset (text.flatMap escapeOf ++ ['"'.toUInt8])).stop =
        offset + (text.flatMap escapeOf).length := by
  induction text generalizing offset with
  | nil =>
    have hhead : head ['"'.toUInt8] = .ending .closed := rfl
    rw [List.flatMap_nil, List.nil_append, Reader.readItems_of_ending hhead]
    exact ⟨rfl, rfl, rfl, rfl⟩
  | cons b text ih =>
    obtain ⟨item, hhead, hdenotes, hwarning⟩ :=
      head_escapeOf b (text.flatMap escapeOf ++ ['"'.toUInt8])
    rw [List.flatMap_cons, List.append_assoc, Reader.readItems_of_item hhead]
    obtain ⟨hending, htext, hnotes, hstop⟩ := ih (offset +
      ((escapeOf b ++ (text.flatMap escapeOf ++ ['"'.toUInt8])).length -
        (text.flatMap escapeOf ++ ['"'.toUInt8]).length))
    refine ⟨hending, ?_, ?_, ?_⟩
    · rw [Literal.text_prepend, htext, hdenotes, List.singleton_append]
    · rw [Literal.notes_prepend, hnotes, Placed.notes, hwarning]
      rfl
    · rw [Literal.stop_prepend, hstop]
      simp only [List.length_append]
      omega

/-- Lexing a displayed string gives the string. -/
theorem roundTrips_string (text : List UInt8) : RoundTrips (.string text none) := by
  let source := '"'.toUInt8 :: (text.flatMap escapeOf ++ ['"'.toUInt8])
  have hstands := Session.standsBefore_ofSource {} source
  obtain ⟨hending, htext, hnone, hstop⟩ := readItems_escapes text 1
  obtain ⟨r, hopen, hsame, u, new, hwarnings, hnotes, hanswer⟩ := hstands.reaches_string rfl
  have hliteral : (Session.ofSource {} source).pos.offset + 1 = 1 := rfl
  rw [hliteral] at hnotes hanswer
  rw [hnone, List.map_eq_nil_iff] at hnotes
  rw [hending] at hanswer
  obtain ⟨hrun, hoffset, hmode⟩ := hanswer
  have hreach := hopen.trans (.of_run hrun rfl)
  -- behind the closing quote nothing is left
  obtain ⟨later, hlater⟩ := hreach.standsBefore hstands
  obtain rfl : later = [] := by
    have hlength := hlater.offset_add
    rw [hoffset, hstop] at hlength
    apply List.eq_nil_of_length_eq_zero
    simp only [source, List.length_cons, List.length_append, List.length_nil] at hlength
    omega
  have hlex := hreach.output_eq
  rw [Session.output_ofSource, hlater.output_end hmode] at hlex
  refine ⟨source, encode?_between '"' (by decide) text, ?_⟩
  rw [hlex, htext, hwarnings, hsame, hnotes]
  exact ⟨rfl, rfl, rfl⟩

/-! ## Characters -/

/-- The rules of texts that start with a single quote. -/
def TokenRule.isQuoted : TokenRule → Bool
  | .word (.punct .quote) | .word .charNewline | .word .char | .word .charEscape
  | .word .charDecimal | .word .charHex | .word .charIllegal | .word .illegalByte => true
  | _ => false

/-- The rows of characters, between those of a quote and of any byte. -/
def TokenRule.charRows : List (TokenRule × Pattern) :=
  [(.word (.punct .quote), Pattern.literal Punct.quote.chars),
   (.word .charNewline, Pattern.charNewline),
   (.word .char, Pattern.charPlain),
   (.word .charEscape, Pattern.inQuotes Pattern.namedEscape),
   (.word .charDecimal, Pattern.inQuotes Pattern.decimalEscape),
   (.word .charHex, Pattern.inQuotes Pattern.hexEscape),
   (.word .charIllegal, [.char '\'', .char '\\', .one fun _ => true]),
   (.word .illegalByte, [.one fun _ => true])]

theorem TokenRule.rows_filter_isQuoted :
    TokenRule.rows.filter (fun row => row.1.isQuoted) = TokenRule.charRows := by
  simp [rows, WordRule.rows, WordRule.operatorRows, charRows, Punct.all, List.filter_map, isQuoted,
    Function.comp_def]

/-- Only these rows count for a text that starts with a quote. -/
theorem firstAccepting?_quote (rest : List UInt8) :
    firstAccepting? TokenRule.rows ('\''.toUInt8 :: rest) =
      firstAccepting? TokenRule.charRows ('\''.toUInt8 :: rest) := by
  have hrows : (TokenRule.rows.all fun row =>
      row.1.isQuoted || !row.2.canStart ['\''.toUInt8]) = true := by
    decide +kernel
  rw [firstAccepting?_of_canStart hrows List.mem_cons_self, TokenRule.rows_filter_isQuoted]

/-- By the rows of character literals the lexeme reads as the byte. -/
def readsAsChar (lexeme : List UInt8) (b : UInt8) : Bool :=
  match firstAccepting? TokenRule.charRows lexeme with
  | some (.word rule) =>
    match rule.read {} lexeme with
    | .ok kind => kind = .char b
    | .error _ => false
  | _ => false

/-- Between single quotes, an escape is a word that reads as the byte. -/
theorem exists_charRule (b : UInt8) :
    ∃ rule, firstAccepting? TokenRule.rows ('\''.toUInt8 :: (escapeOf b ++ ['\''.toUInt8])) =
        some (.word rule) ∧
      rule.read {} ('\''.toUInt8 :: (escapeOf b ++ ['\''.toUInt8])) = .ok (.char b) := by
  -- there are as many of these words as bytes
  have h := Byte.forall_of_range
    (p := fun b => readsAsChar ('\''.toUInt8 :: (escapeOf b ++ ['\''.toUInt8])) b)
    (by decide +kernel) b
  rw [firstAccepting?_quote]
  simp only [readsAsChar] at h
  split at h
  · rename_i rule hfirst
    refine ⟨rule, hfirst, ?_⟩
    split at h
    · rename_i kind hread
      rw [hread, of_decide_eq_true h]
    · cases h
  · cases h

theorem roundTrips_char (b : UInt8) : RoundTrips (.char b) := by
  obtain ⟨rule, hfirst, hread⟩ := exists_charRule b
  refine roundTrips_of_word hfirst hread ?_
  have hencode := encode?_between '\'' (by decide) [b]
  rwa [List.flatMap_singleton] at hencode

end StreamLexer
