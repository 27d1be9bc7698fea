import StreamLexer.Proofs.Session.Course
import StreamLexer.Proofs.Session.Keywords
import StreamLexer.Token.Printer

/-!
# Lexing a single word

A text that is one word of the table, and nothing else, lexes to what that word reads as, its token
and the end token or its error: `lex_single`. So a kind that is displayed as the bytes of a word is
what the word lexes to: `roundTrips_of_word`.
-/
namespace StreamLexer

/-! ## Latin-1 -/

namespace Latin1

theorem char_eq (b : UInt8) : (char b).toNat < 256 ∧ (char b).toUInt8 = b := by
  have h := Byte.forall_of_range (p := fun b => (char b).toNat < 256 && (char b).toUInt8 == b)
    (by decide +kernel) b
  simpa using h

/-- Characters below 256 are encoded one by one. -/
theorem encode?_ofList {cs : List Char} (h : ∀ c ∈ cs, c.toNat < 256) :
    encode? (String.ofList cs) = some (cs.map Char.toUInt8) := by
  rw [encode?, String.toList_ofList]
  induction cs with
  | nil => rfl
  | cons c cs ih =>
    have hrest := ih fun d hd => h d (List.mem_cons_of_mem c hd)
    rw [List.mapM_cons, if_pos (h c List.mem_cons_self), hrest]
    rfl

/-- Decoded bytes are encoded as they were. -/
theorem encode?_decode (bytes : List UInt8) : encode? (decode bytes) = some bytes := by
  rw [decode, encode?_ofList]
  · congr 1
    rw [List.map_map]
    conv => rhs; rw [← List.map_id bytes]
    exact List.map_congr_left fun b _ => (char_eq b).2
  · intro c hc
    obtain ⟨b, -, rfl⟩ := List.mem_map.mp hc
    exact (char_eq b).1

theorem char_toUInt8 {c : Char} (h : c.toNat < 256) : char c.toUInt8 = c := by
  have hnat : c.toUInt8.toNat = c.toNat := by
    show c.val.toUInt8.toNat = c.val.toNat
    rw [UInt32.toNat_toUInt8]
    exact Nat.mod_eq_of_lt h
  rw [char, hnat, Char.ofNat_toNat]

/-- Characters below 256 are decoded from their bytes. -/
theorem decode_toUInt8 {cs : List Char} (h : ∀ c ∈ cs, c.toNat < 256) :
    decode (cs.map Char.toUInt8) = String.ofList cs := by
  rw [decode, List.map_map]
  congr 1
  conv => rhs; rw [← List.map_id cs]
  exact List.map_congr_left fun c hc => char_toUInt8 (h c hc)

theorem decode_append (p q : List UInt8) : decode (p ++ q) = decode p ++ decode q := by
  simp [decode]

end Latin1

/-! ## Words by themselves -/

/-- A text that some row accepts is one lexeme. -/
theorem TokenRule.scan_whole {lexeme : List UInt8} {rule : TokenRule} (hne : lexeme ≠ [])
    (hfirst : firstAccepting? TokenRule.rows lexeme = some rule) :
    TokenRule.scan ⟨lexeme, true⟩ = .found rule lexeme.length := by
  rw [TokenRule.scan_eq_munch]
  refine munch_of_longest (List.length_pos_of_ne_nil hne) (Nat.le_refl _) ?_ ?_
  · rw [List.take_length]
    exact hfirst
  · intro m hlt hle
    omega

theorem WordRule.ne_nil {lexeme : List UInt8} {rule : WordRule}
    (hfirst : firstAccepting? TokenRule.rows lexeme = some (.word rule)) : lexeme ≠ [] := by
  rintro rfl
  have hnone : firstAccepting? TokenRule.rows [] = none := by decide +kernel
  rw [hnone] at hfirst
  cases hfirst

/-- The only word that starts with `#` is that mark. -/
theorem eq_sharp_of_first {rest : List UInt8} {rule : WordRule}
    (hfirst : firstAccepting? TokenRule.rows ('#'.toUInt8 :: rest) = some (.word rule)) :
    rest = [] := by
  have hrows : rowsAfter '#'.toUInt8 TokenRule.rows =
      (.word (.punct .sharp), []) ::
        Pattern.lineDirectives.map (fun p => (.lineDirective, p.drop 1)) ++
        [(.word .illegalByte, [])] := rfl
  rw [firstAccepting?_rowsAfter, hrows] at hfirst
  obtain ⟨p, hp, haccepts⟩ := exists_of_firstAccepting? hfirst
  simp only [List.mem_cons, List.mem_append, List.mem_map, List.not_mem_nil, or_false,
    Prod.mk.injEq] at hp
  rcases hp with (⟨-, rfl⟩ | ⟨-, -, hrule, -⟩) | ⟨-, rfl⟩
  · exact haccepts
  · cases hrule
  · exact haccepts

namespace Session

variable {s : Session} {source : List UInt8}

/-- A word that reads as a kind is taken with its token. -/
theorem StandsBefore.step_word (lexeme : List UInt8) {rest : List UInt8} {rule : WordRule}
    {kind : TokenKind} (h : s.StandsBefore source (lexeme ++ rest)) (hmode : s.mode = .code)
    (hheader : s.headerPending = false)
    (hscan : TokenRule.scan ⟨lexeme ++ rest, true⟩ = .found (.word rule) lexeme.length)
    (hread : rule.read s.keywords lexeme = .ok kind) :
    ∃ t, s.step = (t, .emit ⟨kind, ⟨s.pos, t.pos⟩⟩) ∧ t.StandsBefore source rest ∧
      t.mode = .code ∧ t.warnings = s.warnings := by
  have hstep := h.step_code lexeme hmode hheader hscan
  simp only [actCode, hread] at hstep
  exact ⟨_, hstep, h.advance lexeme rfl (wordStop_offset rule _), hmode, rfl⟩

/-- Behind the last byte there is only the end token. -/
theorem StandsBefore.output_end (h : s.StandsBefore source []) (hmode : s.mode = .code) :
    s.output = ⟨[⟨.eof, ⟨s.pos, s.pos⟩⟩], s.warnings.toList, none⟩ := by
  have hstep := h.decided.step_code [] hmode rfl rfl
  rw [(h.reaches_absent hmode rfl).output_eq, output_of_end hstep rfl]
  rfl

end Session

/-- What lexing gives for a text of this span that is one word, from what the word reads as. Behind
a token that stands for the end nothing else is given. -/
def LexOutput.ofReading (span : Span) : Except WordFault TokenKind → LexOutput
  | .ok kind =>
    let last : List Token := if kind.isEof then [] else [⟨.eof, ⟨span.stop, span.stop⟩⟩]
    ⟨⟨kind, span⟩ :: last, [], none⟩
  | .error fault => ⟨[], [], some (fault.toError span)⟩

/-- The span of a text that is one word. -/
def Config.wordSpan (config : Config) (rule : WordRule) (lexeme : List UInt8) : Span :=
  let start := Position.startOf config.fileName
  ⟨start, Session.wordStop rule (start.shifted lexeme.length)⟩

/-- A word with nothing behind it is the last token before the end token. -/
theorem Session.StandsBefore.output_single {s : Session} {source : List UInt8} {rule : WordRule}
    (lexeme : List UInt8) (h : s.StandsBefore source (lexeme ++ [])) (hmode : s.mode = .code)
    (hheader : s.headerPending = false) (hquiet : s.warnings = #[])
    (hscan : TokenRule.scan ⟨lexeme ++ [], true⟩ = .found (.word rule) lexeme.length) :
    s.output = .ofReading ⟨s.pos, wordStop rule (s.pos.shifted lexeme.length)⟩
      (rule.read s.keywords lexeme) := by
  have hstep := h.step_code lexeme hmode hheader hscan
  have hnone : s.warnings.toList = [] := by rw [hquiet]
  cases hread : rule.read s.keywords lexeme with
  | error fault =>
    rw [actCode_of_fault hread] at hstep
    rw [output_of_fail hstep, moveTo, hnone]
    rfl
  | ok kind =>
    rw [actCode_of_read hread] at hstep
    cases heof : kind.isEof with
    | true =>
      rw [output_of_end hstep heof, LexOutput.ofReading, heof, moveTo, hnone]
      rfl
    | false =>
      have hend : (s.moveTo (wordStop rule (s.pos.shifted lexeme.length))).StandsBefore source [] :=
        h.advance lexeme rfl (wordStop_offset rule _)
      rw [output_of_emit hstep heof, hend.output_end hmode, LexOutput.ofReading, heof, moveTo,
        hnone]
      rfl

/-- No word is, or starts like, a header. -/
theorem HeaderRule.scan_absent_of_word {lexeme : List UInt8} {rule : WordRule}
    (hfirst : firstAccepting? TokenRule.rows lexeme = some (.word rule)) :
    HeaderRule.scan ⟨lexeme, true⟩ = .found .absent 0 := by
  cases lexeme with
  | nil => rfl
  | cons b rest =>
    by_cases hb : b = '#'.toUInt8
    · subst hb
      rw [eq_sharp_of_first hfirst]
      rfl
    · exact HeaderRule.scan_absent_of_ne hb rest

/-- A text that is one word lexes to what that word reads as. -/
theorem lex_single {lexeme : List UInt8} {rule : WordRule}
    (hfirst : firstAccepting? TokenRule.rows lexeme = some (.word rule)) (config : Config) :
    lex lexeme config =
      .ofReading (config.wordSpan rule lexeme) (rule.read config.keywords lexeme) := by
  have hstands : (Session.ofSource config lexeme).StandsBefore lexeme (lexeme ++ []) := by
    rw [List.append_nil]
    exact Session.standsBefore_ofSource config lexeme
  have habsent : HeaderRule.scan ⟨lexeme ++ [], true⟩ = .found .absent 0 := by
    rw [List.append_nil]
    exact HeaderRule.scan_absent_of_word hfirst
  have hscan : TokenRule.scan ⟨lexeme ++ [], true⟩ = .found (.word rule) lexeme.length := by
    rw [List.append_nil]
    exact TokenRule.scan_whole (WordRule.ne_nil hfirst) hfirst
  have hlex := (hstands.reaches_absent rfl habsent).output_eq
  rw [Session.output_ofSource, hstands.decided.output_single lexeme rfl rfl rfl hscan] at hlex
  exact hlex

/-- With the fixed words alone it lexes to the token of the word and the end token. -/
theorem lex_word {lexeme : List UInt8} {rule : WordRule} {kind : TokenKind}
    (hfirst : firstAccepting? TokenRule.rows lexeme = some (.word rule))
    (hread : rule.read {} lexeme = .ok kind) :
    (lex lexeme {}).tokens.map (·.kind) = [kind, .eof] ∧ (lex lexeme {}).warnings = [] ∧
      (lex lexeme {}).error = none := by
  have heof := WordRule.read_isEof KeywordTable.noEof_fixed hread
  rw [lex_single hfirst, hread, LexOutput.ofReading, heof]
  exact ⟨rfl, rfl, rfl⟩

/-! ## Round trips -/

/-- The display of the kind is the text of one token, of this kind. -/
def RoundTrips (kind : TokenKind) : Prop :=
  ∃ text, Latin1.encode? kind.display = some text ∧
    (lex text {}).tokens.map (·.kind) = [kind, .eof] ∧ (lex text {}).warnings = [] ∧
      (lex text {}).error = none

/-- A kind that is displayed as a word that reads as it. -/
theorem roundTrips_of_word {lexeme : List UInt8} {rule : WordRule} {kind : TokenKind}
    (hfirst : firstAccepting? TokenRule.rows lexeme = some (.word rule))
    (hread : rule.read {} lexeme = .ok kind)
    (hdisplay : Latin1.encode? kind.display = some lexeme) : RoundTrips kind :=
  ⟨lexeme, hdisplay, lex_word hfirst hread⟩

end StreamLexer
