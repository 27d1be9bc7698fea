import StreamLexer.Proofs.Printer.Numbers
import StreamLexer.Proofs.Printer.Spellings
import StreamLexer.Proofs.Printer.Texts

/-!
# Lexing undoes displaying

A token is a word of the table, unless it ends a construct or the input, or is the star of a stray
closer: `Session.StandsBefore.gives`. Rule by rule, what a word reads as is displayed as a text that
lexes to it again: `roundTrips_of_read`. Together they say so of all tokens of a source that have
such a display: `display_undone`.
-/
namespace StreamLexer

/-- The kinds with a display that reads as them, and without a warning. Quotations and the end of
input have a placeholder. A comment may be read with a warning, a delimited string does not read its
escapes, and a negative number is read as a sign and a number. -/
def TokenKind.isReadable : TokenKind → Bool
  | .eof | .quotation | .comment _ | .string _ (some _) => false
  | .integer _ value => 0 ≤ value
  | _ => true

/-! ## Words -/

/-- What a word reads as is displayed as a text that lexes to it. -/
theorem roundTrips_of_read {lexeme : List UInt8} {rule : WordRule} {kind : TokenKind}
    (hfirst : firstAccepting? TokenRule.rows lexeme = some (.word rule))
    (hread : rule.read {} lexeme = .ok kind) (hreadable : kind.isReadable = true) :
    RoundTrips kind := by
  cases rule with
  | punct mark =>
    cases hread
    exact roundTrips_punct mark
  | lower | upper =>
    refine roundTrips_of_decode hfirst hread ?_
    cases hread
    exact display_identifier (fun _ => rfl) _
  | label | optLabel =>
    obtain ⟨p, hp, haccepts⟩ := exists_patternsOf hfirst
    obtain rfl := List.mem_singleton.mp hp
    refine roundTrips_of_decode hfirst hread ?_
    simp only [WordRule.read, WordRule.readLabel] at hread
    split at hread
    · cases hread
    · cases hread
      exact display_label (by decide) haccepts
  | integer type =>
    simp only [WordRule.read] at hread
    split at hread
    · rename_i value hvalue
      cases hread
      obtain ⟨n, rfl⟩ := Int.eq_ofNat_of_zero_le (of_decide_eq_true hreadable)
      exact roundTrips_integer (lt_of_integer? hvalue)
    · cases hread
  | float =>
    cases hread
    exact roundTrips_float hfirst
  | charNewline | char | charEscape | charHex =>
    cases hread
    exact roundTrips_char _
  | charDecimal =>
    simp only [WordRule.read] at hread
    split at hread
    · cases hread
      exact roundTrips_char _
    · cases hread
  | operator cls =>
    refine roundTrips_of_decode hfirst hread ?_
    cases hread
    rfl
  | charIllegal | illegalByte => cases hread

/-! ## Tokens -/

/-- The kinds of tokens that a session with these keywords gives. -/
inductive Gives (keywords : KeywordTable) : TokenKind → Prop
  | word {rule : WordRule} {lexeme : List UInt8} {kind : TokenKind}
      (first : firstAccepting? TokenRule.rows lexeme = some (.word rule))
      (read : rule.read keywords lexeme = .ok kind) : Gives keywords kind
  | star : Gives keywords (.punct .star)
  | construct {kind : TokenKind} (isConstruct : kind.isConstruct = true) : Gives keywords kind
  | eof : Gives keywords .eof

namespace Session

variable {s t : Session} {source rest : List UInt8} {token : Token}

theorem StandsBefore.gives (h : s.StandsBefore source rest) (hstep : s.step = (t, .emit token)) :
    Gives s.keywords token.kind := by
  cases h.acts with
  | header _ _ rule lexeme later _ _ hact =>
    rw [hstep] at hact
    cases rule <;> cases hact
  | code _ _ rule lexeme later _ hscan hact =>
    rw [hstep] at hact
    cases rule with
    | word rule =>
      have hfirst : firstAccepting? TokenRule.rows lexeme = some (.word rule) := by
        rcases TokenRule.scan_first hscan with ⟨hrule, -⟩ | ⟨-, hfirst⟩
        · cases hrule
        · exact hfirst
      simp only [actCode] at hact
      split at hact
      · rename_i kind hread
        cases hact
        exact .word hfirst hread
      · cases hact
    | strayClose =>
      cases hact
      exact .star
    | endOfInput =>
      cases hact
      exact .eof
    | _ => cases hact
  | comment c text _ rule lexeme later _ _ hact =>
    exact .construct (actComment_isConstruct (hact.symm.trans hstep))
  | string o text _ _ rule lexeme later _ _ hact =>
    exact .construct (actString_isConstruct (hact.symm.trans hstep))
  | quoted o id text _ _ rule lexeme later _ _ hact =>
    exact .construct (actQuoted_isConstruct (hact.symm.trans hstep))
  | quotation q _ rule lexeme later _ _ hact =>
    exact .construct (actQuotation_isConstruct (hact.symm.trans hstep))

/-- So does every session that it comes to stand at, on to the last token. -/
theorem StandsBefore.gives_of_mem_output (h : s.StandsBefore source rest)
    (htoken : token ∈ s.output.tokens) : Gives s.keywords token.kind := by
  obtain ⟨before, t, u, hreach, hemit⟩ := exists_emit_of_mem_output s token htoken
  obtain ⟨later, ht⟩ := hreach.standsBefore h
  have hkeywords : t.keywords = s.keywords :=
    hreach.invariant (P := fun t => t.keywords = s.keywords)
      (fun t ht => (stepOn_keywords t _).trans ht) rfl
  rw [← hkeywords]
  exact ht.gives hemit

end Session

/-- With the fixed words only, a kind that is given and can be read again is read again. -/
theorem Gives.roundTrips {kind : TokenKind} (h : Gives {} kind)
    (hreadable : kind.isReadable = true) : RoundTrips kind := by
  cases h with
  | word first read => exact roundTrips_of_read first read hreadable
  | star => exact roundTrips_punct .star
  | construct isConstruct =>
    cases kind with
    | string bytes delimiter =>
      cases delimiter with
      | none => exact roundTrips_string bytes
      | some id => cases hreadable
    | comment | quotation => cases hreadable
    | _ => cases isConstruct
  | eof => cases hreadable

/-! ## The round trip -/

/-- What is displayed as a text that lexes to it: the tokens of every source under the fixed words,
and of some sorts of kinds all there are. -/
structure DisplayUndone : Prop where
  tokens : ∀ (source : List UInt8) (config : Config), config.keywords = {} →
    ∀ token ∈ (lex source config).tokens, token.kind.isReadable = true → RoundTrips token.kind
  string : ∀ text : List UInt8, RoundTrips (.string text none)
  char : ∀ b : UInt8, RoundTrips (.char b)
  integer : ∀ (type : IntType) (n : Nat), n < 2 ^ (type.bits - 1) → RoundTrips (.integer type n)
  keyword : ∀ word : Keyword, RoundTrips (.keyword word)
  punct : ∀ mark : Punct, RoundTrips (.punct mark)

/-- Lexing undoes displaying. -/
theorem display_undone : DisplayUndone := by
  refine ⟨?_, roundTrips_string, roundTrips_char, fun _ _ => roundTrips_integer,
    roundTrips_keyword, roundTrips_punct⟩
  intro source config hfixed token htoken hreadable
  have hgives := (Session.standsBefore_ofSource config source).gives_of_mem_output htoken
  have hkeywords : (Session.ofSource config source).keywords = {} := hfixed
  rw [hkeywords] at hgives
  exact hgives.roundTrips hreadable

/-- A float with an underscore, which its display leaves out. -/
theorem display_undone_float :
    ∃ token ∈ (lex (['1', '_', '0', '.', '5'].map Char.toUInt8) {}).tokens,
      token.kind = .float "10.5" ∧ RoundTrips token.kind := by
  have hfirst : firstAccepting? TokenRule.rows (['1', '_', '0', '.', '5'].map Char.toUInt8) =
      some (.word .float) := by decide +kernel
  have hread : WordRule.read {} .float (['1', '_', '0', '.', '5'].map Char.toUInt8) =
      .ok (.float "10.5") := rfl
  obtain ⟨hkinds, -, -⟩ := lex_word hfirst hread
  obtain ⟨token, htoken, hkind⟩ := List.mem_map.mp (hkinds ▸ List.mem_cons_self)
  refine ⟨token, htoken, hkind, ?_⟩
  exact display_undone.tokens _ {} rfl token htoken (by rw [hkind]; rfl)

end StreamLexer
