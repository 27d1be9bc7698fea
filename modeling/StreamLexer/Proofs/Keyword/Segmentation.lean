import StreamLexer.Proofs.Keyword.Names
import StreamLexer.Proofs.Session.Keywords
import StreamLexer.Proofs.Span.Gap

/-!
# Keyword tables do not move tokens

Two sessions over the same source with different keyword tables take the same steps, but for two
things: an identifier may get another kind, and a label whose name only one of the tables reserves
ends the lexing with that table. `StandsBefore.step_withKeywords` says so of one step, and
`overrides_keep_segmentation` of whole outputs.

Quotations may nest to any depth here. A session that counts them in 32 bits does the same until one
`NestsTooDeep`, which takes `2 ^ 32` bytes at least: `FlatSession.lexes_iff`.
-/
namespace StreamLexer

/-! ## Outputs that differ in the kinds of identifiers -/

/-- Tokens over the same bytes, and of the same kind unless these spell an identifier. -/
structure Token.SameButName (source : List UInt8) (a b : Token) : Prop where
  span : a.span = b.span
  kind : a.kind ≠ b.kind →
    Lexeme.isIdentifier (between source a.span.start.offset a.span.stop.offset) = true

namespace Token.SameButName

variable {source : List UInt8} {a b : Token}

theorem refl (source : List UInt8) (a : Token) : a.SameButName source a :=
  ⟨rfl, fun hne => absurd rfl hne⟩

theorem symm (h : a.SameButName source b) : b.SameButName source a :=
  ⟨h.span.symm, fun hne => h.span ▸ h.kind hne.symm⟩

end Token.SameButName

/-- Outputs with the same warnings and the same error, whose tokens differ in the kinds of
identifiers only. -/
structure LexOutput.SameButNames (source : List UInt8) (o o' : LexOutput) : Prop where
  tokens : List.Forall₂ (Token.SameButName source) o.tokens o'.tokens
  warnings : o.warnings = o'.warnings
  error : o.error = o'.error

namespace Session

variable {source rest : List UInt8} {s t s' t' u : Session} {a b : Token} {span : Span}
  {name : String} {before : List Token}

/-! ## Labels that one table rejects -/

/-- The one session ends with an error at a label that only its own table reserves. The other comes
to stand before that label, with the same warnings and, names apart, the same tokens until then, and
takes it. -/
structure StopsAt (source : List UInt8) (s t : Session) (span : Span) (name : String)
    (before : List Token) (u : Session) : Prop where
  reserved : s.keywords.isReserved name = true
  free : t.keywords.isReserved name = false
  error : s.output.error = some (.keywordAsLabel span name)
  reaches : t.Reaches before u
  place : u.pos = span.start
  passes : ∃ v kind, u.step = (v, .emit ⟨kind, span⟩) ∧
    (kind = .label name ∨ kind = .optLabel name)
  tokens : List.Forall₂ (Token.SameButName source) s.output.tokens before
  warnings : s.output.warnings = u.warnings.toList

/-- The one session ends at a label that the other takes. -/
def StopsAtLabel (source : List UInt8) (s t : Session) : Prop :=
  ∃ span name before u, s.StopsAt source t span name before u

theorem step_keywords {outcome : Step} (h : s.step = (t, outcome)) : t.keywords = s.keywords := by
  have hkeywords := stepOn_keywords s s.lookahead
  rwa [← step, h] at hkeywords

theorem StopsAt.of_proceed (hs : s.step = (s', .proceed)) (ht : t.step = (t', .proceed))
    (h : s'.StopsAt source t' span name before u) : s.StopsAt source t span name before u := by
  have houtput := output_of_proceed hs
  exact ⟨step_keywords hs ▸ h.reserved, step_keywords ht ▸ h.free, houtput ▸ h.error,
    .proceed ht h.reaches, h.place, h.passes, houtput ▸ h.tokens, houtput ▸ h.warnings⟩

theorem StopsAt.of_emit (hs : s.step = (s', .emit a)) (ht : t.step = (t', .emit b))
    (ha : a.kind.isEof = false) (hb : b.kind.isEof = false) (hab : a.SameButName source b)
    (h : s'.StopsAt source t' span name before u) :
    s.StopsAt source t span name (b :: before) u := by
  have houtput := output_of_emit hs ha
  refine ⟨step_keywords hs ▸ h.reserved, step_keywords ht ▸ h.free, ?_, .emit ht hb h.reaches,
    h.place, h.passes, ?_, ?_⟩
  · rw [houtput]
    exact h.error
  · rw [houtput]
    exact .cons hab h.tokens
  · rw [houtput]
    exact h.warnings

/-! ## Courses together -/

/-- Both sessions give the same, names apart, unless one of them ends at a label that the other
takes. -/
def Together (source : List UInt8) (s t : Session) : Prop :=
  LexOutput.SameButNames source s.output t.output ∨ s.StopsAtLabel source t ∨
    t.StopsAtLabel source s

theorem Together.of_proceed (hs : s.step = (s', .proceed)) (ht : t.step = (t', .proceed))
    (h : s'.Together source t') : s.Together source t := by
  rcases h with hsame | ⟨span, name, before, u, hstop⟩ | ⟨span, name, before, u, hstop⟩
  · refine .inl ?_
    rw [output_of_proceed hs, output_of_proceed ht]
    exact hsame
  · exact .inr (.inl ⟨span, name, before, u, hstop.of_proceed hs ht⟩)
  · exact .inr (.inr ⟨span, name, before, u, hstop.of_proceed ht hs⟩)

theorem Together.of_emit (hs : s.step = (s', .emit a)) (ht : t.step = (t', .emit b))
    (ha : a.kind.isEof = false) (hb : b.kind.isEof = false) (hab : a.SameButName source b)
    (h : s'.Together source t') : s.Together source t := by
  rcases h with hsame | ⟨span, name, before, u, hstop⟩ | ⟨span, name, before, u, hstop⟩
  · refine .inl ?_
    rw [output_of_emit hs ha, output_of_emit ht hb]
    exact ⟨.cons hab hsame.tokens, hsame.warnings, hsame.error⟩
  · exact .inr (.inl ⟨span, name, b :: before, u, hstop.of_emit hs ht ha hb hab⟩)
  · exact .inr (.inr ⟨span, name, a :: before, u, hstop.of_emit ht hs hb ha hab.symm⟩)

/-- A last step that both sessions take. -/
theorem Together.of_final {keywords : KeywordTable} (hfinal : s.step.2.isFinal = true)
    (ht : t.step = (s.step.1.withKeywords keywords, s.step.2)) : s.Together source t := by
  refine .inl ?_
  cases hstep : s.step with
  | mk r outcome =>
    rw [hstep] at hfinal ht
    cases outcome with
    | proceed => cases hfinal
    | emit token =>
      rw [output_of_end hstep hfinal, output_of_end ht hfinal]
      exact ⟨.cons (.refl source token) .nil, rfl, rfl⟩
    | fail error =>
      rw [output_of_fail hstep, output_of_fail ht]
      exact ⟨.nil, rfl, rfl⟩
    | starved =>
      rw [output_of_starved hstep, output_of_starved ht]
      exact ⟨.nil, rfl, rfl⟩

/-! ## One step -/

/-- A label that the first table rejects and the second lets pass. -/
theorem stopsAtLabel_of_rejects {rule : WordRule} {lexeme : List UInt8} {kind : TokenKind}
    (hrejects : rule.Rejects s.keywords t.keywords lexeme name kind)
    (hpos : t.pos = s.pos) (hwarnings : t.warnings = s.warnings)
    (hs : s.step = s.actCode (.word rule) lexeme) (ht : t.step = t.actCode (.word rule) lexeme) :
    s.StopsAtLabel source t := by
  rw [actCode_of_fault hrejects.fails] at hs
  rw [actCode_of_read hrejects.passes, hpos] at ht
  have houtput := output_of_fail hs
  refine ⟨⟨s.pos, wordStop rule (s.pos.shifted lexeme.length)⟩, name, [], t, hrejects.reserved,
    hrejects.free, ?_, .here t, hpos, ⟨_, kind, ht, hrejects.names⟩, ?_, ?_⟩
  · rw [houtput]
    rfl
  · rw [houtput]
    exact .nil
  · rw [houtput, hwarnings]
    rfl

/-- With another table the session takes the same step, but for the kind of an identifier or a label
that one of the tables rejects. -/
theorem StandsBefore.step_withKeywords (h : s.StandsBefore source rest) {keywords : KeywordTable}
    (hfirst : s.keywords.NoEof) (hsecond : keywords.NoEof) :
    (s.withKeywords keywords).step = (s.step.1.withKeywords keywords, s.step.2) ∨
      (∃ r a b, s.step = (r, .emit a) ∧
        (s.withKeywords keywords).step = (r.withKeywords keywords, .emit b) ∧
        a.kind.isEof = false ∧ b.kind.isEof = false ∧ a.SameButName source b) ∨
      s.StopsAtLabel source (s.withKeywords keywords) ∨
        (s.withKeywords keywords).StopsAtLabel source s := by
  by_cases hread : s.mode = .code → s.headerPending = false → ∀ word n,
      TokenRule.scan s.lookahead = .found (.word word) n →
        word.read keywords (s.lookahead.bytes.take n) =
          word.read s.keywords (s.lookahead.bytes.take n)
  · exact .inl (stepOn_withKeywords s keywords hread)
  -- the tables read the next word differently
  push Not at hread
  obtain ⟨hmode, hpending, word, n, hscan, hdiffer⟩ := hread
  have hfirstRow := TokenRule.scan_row hscan (by simp)
  have hlexeme : s.lookahead.bytes.take n = rest.take n := by rw [h.lookahead_eq]
  rw [hlexeme] at hdiffer hfirstRow
  have hs : s.step = s.actCode (.word word) (rest.take n) := by
    rw [← hlexeme]
    simp only [step, stepOn, hmode, hpending, hscan, onFound, Bool.false_eq_true, if_false]
  have ht : (s.withKeywords keywords).step =
      (s.withKeywords keywords).actCode (.word word) (rest.take n) := by
    rw [← hlexeme]
    simp only [step, stepOn, withKeywords_mode, withKeywords_headerPending, withKeywords_lookahead,
      hmode, hpending, hscan, onFound, Bool.false_eq_true, if_false]
  refine .inr ?_
  cases WordRule.compares hfirstRow s.keywords keywords with
  | same hsame => exact absurd hsame hdiffer
  | left hrejects => exact .inr (.inl (stopsAtLabel_of_rejects hrejects rfl rfl hs ht))
  | right hrejects => exact .inr (.inr (stopsAtLabel_of_rejects hrejects rfl rfl ht hs))
  | named hidentifier hreads hreads' =>
    have ha := WordRule.read_isEof hfirst hreads
    have hb := WordRule.read_isEof hsecond hreads'
    rw [actCode_of_read hreads] at hs
    rw [actCode_of_read (s := s.withKeywords keywords) hreads'] at ht
    refine .inl ⟨_, _, _, hs, ht, ha, hb, rfl, fun _ => ?_⟩
    have hdrop : source.drop s.pos.offset = rest.take n ++ rest.drop n := by
      rw [List.take_append_drop, h.drop_eq]
    show Lexeme.isIdentifier (between source s.pos.offset (wordStop word _).offset) = true
    rw [wordStop_offset]
    show Lexeme.isIdentifier (between source s.pos.offset
      (s.pos.offset + (rest.take n).length)) = true
    rw [between_of_drop hdrop]
    exact hidentifier

/-! ## Whole courses -/

/-- What one step keeps together, the whole course does. -/
theorem StandsBefore.together (h : s.StandsBefore source rest) {keywords : KeywordTable}
    (hfirst : s.keywords.NoEof) (hsecond : keywords.NoEof) :
    s.Together source (s.withKeywords keywords) := by
  induction s using stepInduction generalizing rest with
  | proceed s s' hstep ih =>
    obtain ⟨-, later, -, hs', -⟩ := h.step_forward
    rw [hstep] at hs'
    have hrest := ih hs' (step_keywords hstep ▸ hfirst)
    rcases h.step_withKeywords hfirst hsecond with hsame | ⟨_, _, _, hemit, -⟩ | hstops
    · rw [hstep] at hsame
      exact .of_proceed hstep hsame hrest
    · rw [hstep] at hemit
      cases hemit
    · exact .inr hstops
  | emit s s' token hstep heof ih =>
    obtain ⟨-, later, -, hs', -⟩ := h.step_forward
    rw [hstep] at hs'
    have hrest := ih hs' (step_keywords hstep ▸ hfirst)
    rcases h.step_withKeywords hfirst hsecond with
      hsame | ⟨_, a, b, hemit, hemit', ha, hb, hab⟩ | hstops
    · rw [hstep] at hsame
      exact .of_emit hstep hsame heof heof (.refl source token) hrest
    · rw [hstep] at hemit
      cases hemit
      exact .of_emit hstep hemit' ha hb hab hrest
    · exact .inr hstops
  | final s hfinal =>
    rcases h.step_withKeywords hfirst hsecond with hsame | ⟨_, a, b, hemit, -, ha, -⟩ | hstops
    · exact .of_final hfinal hsame
    · rw [hemit] at hfinal
      rw [show Step.isFinal (.emit a) = a.kind.isEof from rfl, ha] at hfinal
      cases hfinal
    · exact .inr hstops

/-! ## Tokens of the same index -/

theorem sameButName_of_getElem? {tokens tokens' : List Token} {i : Nat}
    (h : List.Forall₂ (Token.SameButName source) tokens tokens') (ha : tokens[i]? = some a)
    (hb : tokens'[i]? = some b) : a.SameButName source b := by
  obtain ⟨hi, rfl⟩ := List.getElem?_eq_some_iff.mp ha
  obtain ⟨hi', rfl⟩ := List.getElem?_eq_some_iff.mp hb
  exact h.get hi hi'

theorem StopsAt.sameButName {i : Nat} (h : s.StopsAt source t span name before u)
    (ha : s.output.tokens[i]? = some a) (hb : t.output.tokens[i]? = some b) :
    a.SameButName source b := by
  have hlength := h.tokens.length_eq
  obtain ⟨hi, -⟩ := List.getElem?_eq_some_iff.mp ha
  rw [h.reaches.output_eq, List.getElem?_append_left (hlength ▸ hi)] at hb
  exact sameButName_of_getElem? h.tokens ha hb

theorem Together.sameButName {i : Nat} (h : s.Together source t)
    (ha : s.output.tokens[i]? = some a) (hb : t.output.tokens[i]? = some b) :
    a.SameButName source b := by
  rcases h with hsame | ⟨_, _, _, _, hstop⟩ | ⟨_, _, _, _, hstop⟩
  · exact sameButName_of_getElem? hsame.tokens ha hb
  · exact hstop.sameButName ha hb
  · exact (hstop.sameButName hb ha).symm

end Session

/-! ## Whole sources -/

/-- The lexing has ended with an error at a label whose name is reserved. -/
def LexOutput.RejectsLabel (o : LexOutput) : Prop :=
  ∃ span name, o.error = some (.keywordAsLabel span name)

/-- What lexing a source gives with two tables: the same, names apart, up to a label that only one
of them reserves, and altogether the same where neither lexing ends at a reserved label. -/
structure KeepsSegmentation (source : List UInt8) (config : Config)
    (first second : KeywordTable) : Prop where
  course : Session.Together source (.ofSource { config with keywords := first } source)
    (.ofSource { config with keywords := second } source)
  /-- Tokens of the same index. -/
  tokens : ∀ (i : Nat) (a b : Token),
    (lex source { config with keywords := first }).tokens[i]? = some a →
      (lex source { config with keywords := second }).tokens[i]? = some b →
        a.SameButName source b
  accepted : ¬ (lex source { config with keywords := first }).RejectsLabel →
    ¬ (lex source { config with keywords := second }).RejectsLabel →
      LexOutput.SameButNames source (lex source { config with keywords := first })
        (lex source { config with keywords := second })

/-- Whatever kinds two tables give to words, short of the end token, the tokens lie at the same
places. -/
theorem overrides_keep_segmentation (source : List UInt8) (config : Config)
    {first second : KeywordTable} (hfirst : first.NoEof) (hsecond : second.NoEof) :
    KeepsSegmentation source config first second := by
  have htogether := Session.StandsBefore.together
    (Session.standsBefore_ofSource { config with keywords := first } source) hfirst hsecond
  refine ⟨htogether, fun i a b => htogether.sameButName, fun hleft hright => ?_⟩
  rcases htogether with hsame | ⟨span, name, _, _, hstop⟩ | ⟨span, name, _, _, hstop⟩
  · exact hsame
  · exact absurd ⟨span, name, hstop.error⟩ hleft
  · exact absurd ⟨span, name, hstop.error⟩ hright

/-- Words that mean a comment, a string and a mark to one table, and a label that it rejects. -/
theorem overrides_keep_segmentation_mixed :
    let first := KeywordTable.ofList [("a", .comment ""), ("b", .string [] none),
      ("c", .punct .lParen), ("d", .lident "e")]
    let source := "a b(*c*)C'c *) ~d:a ~let:".toList.map Char.toUInt8
    first.NoEof ∧ KeywordTable.NoEof {} ∧ KeepsSegmentation source {} first {} := by
  intro first source
  have hfirst : first.NoEof := by
    intro entry hentry
    simp [first, KeywordTable.ofList, KeywordTable.insert] at hentry
    rcases hentry with rfl | rfl | rfl | rfl <;> rfl
  exact ⟨hfirst, KeywordTable.noEof_fixed,
    overrides_keep_segmentation source {} hfirst KeywordTable.noEof_fixed⟩

end StreamLexer
