import StreamLexer.Proofs.Keyword.Names
import StreamLexer.Proofs.Keyword.Table
import StreamLexer.Proofs.Printer.Words

/-!
# Which words are reserved

An identifier by itself is looked up among the entries of its table, the last one first, and then
among the fixed words; only where neither has it does it keep its name. A label asks the same
question, and its name must not be there. The main statement is `keywords_resolve`.
-/
namespace StreamLexer

open KeywordTable (Built FindsRows bucketed?)

/-- The kind of an identifier that is not reserved goes by its first byte. -/
def TokenKind.ofName (lexeme : List UInt8) : TokenKind :=
  if Byte.isLower (lexeme.headD 0) then .lident (Latin1.decode lexeme)
  else .uident (Latin1.decode lexeme)

/-- An identifier reads as what its table means by it, and as its name otherwise. -/
theorem WordRule.read_ofFirst (keywords : KeywordTable) (b : UInt8) (rest : List UInt8) :
    (ofFirst b).read keywords (b :: rest) =
      .ok ((keywords.lookup? (Latin1.decode (b :: rest))).getD (.ofName (b :: rest))) := by
  rw [ofFirst, TokenKind.ofName, List.headD_cons]
  cases Byte.isLower b <;> rfl

/-- The span of a text without line ends. -/
def Config.textSpan (config : Config) (text : List UInt8) : Span :=
  ⟨.startOf config.fileName, (Position.startOf config.fileName).shifted text.length⟩

/-! ## Resolution -/

/-- The word has an entry or is one of the fixed words. -/
def Reserves (entries : List (String × TokenKind)) (word : String) : Prop :=
  word ∈ entries.map (·.1) ∨ (bucketed? word).isSome = true

/-- What a table made of the entries means by the words of a source. -/
structure Resolves (entries : List (String × TokenKind)) (config : Config) : Prop where
  /-- An identifier by itself is the last entry for it, else the fixed word, else its name. -/
  identifier : ∀ lexeme, Lexeme.isIdentifier lexeme = true → lexeme ≠ ['_'.toUInt8] →
    let word := Latin1.decode lexeme
    lex lexeme config = .ofReading (config.textSpan lexeme)
      (.ok (((entries.reverse.lookup word).or (bucketed? word)).getD (.ofName lexeme)))
  /-- A label by itself is rejected where its name is reserved, and taken otherwise. -/
  label : ∀ mark rule make, LabelSort mark rule make → ∀ b rest,
    Byte.isLower b = true → (∀ c ∈ rest, Byte.isIdent c = true) →
    let word := Latin1.decode (b :: rest)
    let text := Lexeme.asLabel mark (b :: rest)
    (Reserves entries word →
        lex text config = ⟨[], [], some (.keywordAsLabel (config.textSpan text) word)⟩) ∧
      (¬ Reserves entries word →
        lex text config = .ofReading (config.textSpan text) (.ok (make word)))
  /-- Repeated entries count once. -/
  count : config.keywords.size = (entries.map (·.1)).toFinset.card

theorem KeywordTable.Built.reserves_iff {entries : List (String × TokenKind)} {t : KeywordTable}
    (h : Built entries t) (word : String) :
    Reserves entries word ↔ t.isReserved word = true := by
  rw [Reserves, KeywordTable.bucketed?_eq, h.isReserved_iff]

/-- An identifier by itself lexes to what the table means by it. -/
theorem lex_identifier {b : UInt8} {rest : List UInt8}
    (hidentifier : Lexeme.isIdentifier (b :: rest) = true) (hne : b :: rest ≠ ['_'.toUInt8])
    (config : Config) :
    lex (b :: rest) config = .ofReading (config.textSpan (b :: rest))
      (.ok ((config.keywords.lookup? (Latin1.decode (b :: rest))).getD (.ofName (b :: rest)))) := by
  have hstop : ∀ stop, Session.wordStop (.ofFirst b) stop = stop := by
    rw [WordRule.ofFirst]
    cases Byte.isLower b <;> exact fun _ => rfl
  rw [lex_single (firstAccepting?_identifier hidentifier hne), WordRule.read_ofFirst,
    Config.wordSpan, hstop]
  rfl

/-- A label by itself is rejected where its name is reserved. -/
theorem lex_label {mark : Char} {rule : WordRule} {make : String → TokenKind}
    (hsort : LabelSort mark rule make) {b : UInt8} {rest : List UInt8}
    (hb : Byte.isLower b = true) (hrest : ∀ c ∈ rest, Byte.isIdent c = true) (config : Config) :
    lex (Lexeme.asLabel mark (b :: rest)) config =
      .ofReading (config.textSpan (Lexeme.asLabel mark (b :: rest)))
        (if config.keywords.isReserved (Latin1.decode (b :: rest)) then
          .error (.keywordAsLabel (Latin1.decode (b :: rest)))
        else .ok (make (Latin1.decode (b :: rest)))) := by
  have hstop : ∀ stop, Session.wordStop rule stop = stop := by
    cases hsort <;> exact fun _ => rfl
  rw [lex_single (firstAccepting?_label hsort hb hrest), hsort.read_eq, Lexeme.inner_asLabel,
    Config.wordSpan, hstop]
  rfl

/-- A table, however its entries came into it, gives each word the meaning of its last entry, and
the fixed words theirs, and lets no reserved word be a label. The lookup by length finds exactly the
fixed words. -/
theorem keywords_resolve {entries : List (String × TokenKind)} {t : KeywordTable}
    (h : Built entries t) (config : Config) :
    Resolves entries { config with keywords := t } ∧ FindsRows := by
  refine ⟨⟨fun lexeme hlexeme hne => ?_, fun mark rule make hsort b rest hb hrest => ?_, h.size_eq⟩,
    KeywordTable.findsRows⟩
  · cases lexeme with
    | nil => cases hlexeme
    | cons b rest =>
      rw [lex_identifier hlexeme hne, h.lookup?_eq, ← KeywordTable.bucketed?_eq]
  · refine ⟨fun hreserved => ?_, fun hfree => ?_⟩
    · rw [lex_label hsort hb hrest, if_pos ((h.reserves_iff _).mp hreserved)]
      rfl
    · rw [lex_label hsort hb hrest, if_neg (mt (h.reserves_iff _).mpr hfree)]

/-- A fixed word made an identifier again, a word with two entries, and one from a list. -/
theorem keywords_resolve_repeated :
    let entries : List (String × TokenKind) := [("test", .keyword .kwLet),
      ("let", .lident "let"), ("test", .comment ""), ("end", .eof)]
    let t := ((KeywordTable.ofList (entries.take 2)).insert "test" (.comment "")).insert "end" .eof
    Built entries t ∧ Resolves entries { keywords := t } ∧ FindsRows := by
  intro entries t
  have hbuilt : Built entries t :=
    .insert (.insert (.collect (entries.take 2)) "test" (.comment "")) "end" .eof
  exact ⟨hbuilt, keywords_resolve hbuilt {}⟩

end StreamLexer
