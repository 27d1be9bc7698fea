import StreamLexer.Proofs.Span.TokenStart

/-!
# Spans partition the source

The tokens of a source lie one behind the other with nothing but gaps between them: `Tiles`. That is
proved along the steps of lexing, from the start of the token that a session is in:
`Underway.tiles`. The main statement is `spans_partition`, which collects what follows for the spans
of a whole source.

Quotations may nest to any depth here. A session that counts them in 32 bits does the same until one
`NestsTooDeep`, which takes `2 ^ 32` bytes at least: `FlatSession.lexes_iff`.
-/
namespace StreamLexer

open scoped Computability

/-! ## Tilings -/

/-- The range of a token: only the end token is empty, and that lies at the end. -/
structure Extends (source : List UInt8) (token : Token) : Prop where
  nonempty : token.kind.isEof = false → token.span.start.offset < token.span.stop.offset
  eof : token.kind.isEof = true →
    token.span.start.offset = source.length ∧ token.span.stop.offset = source.length
  within : token.span.stop.offset ≤ source.length

/-- The tokens lie one behind the other from the offset on, a gap before each of them. -/
inductive Tiles (source : List UInt8) : Nat → List Token → Prop
  | nil (offset : Nat) : Tiles source offset []
  | cons {offset : Nat} {token : Token} {tokens : List Token}
      (behind : offset ≤ token.span.start.offset)
      (gap : between source offset token.span.start.offset ∈ Grammar.gap)
      (range : Extends source token) (rest : Tiles source token.span.stop.offset tokens) :
      Tiles source offset (token :: tokens)

/-- The ranges of the tokens and of the gaps before them, from an offset on. -/
def pieces : Nat → List Token → List (Nat × Nat)
  | _, [] => []
  | offset, token :: tokens =>
    (offset, token.span.start.offset) :: (token.span.start.offset, token.span.stop.offset) ::
      pieces token.span.stop.offset tokens

/-- Where the last token ends. -/
def reach : Nat → List Token → Nat
  | offset, [] => offset
  | _, token :: tokens => reach token.span.stop.offset tokens

theorem reach_append (offset : Nat) (tokens : List Token) (last : Token) :
    reach offset (tokens ++ [last]) = last.span.stop.offset := by
  induction tokens generalizing offset with
  | nil => rfl
  | cons token tokens ih => exact ih _

/-- The byte at an offset lies in the range. -/
def liesIn (i : Nat) (piece : Nat × Nat) : Bool :=
  piece.1 ≤ i && i < piece.2

theorem Extends.le {source : List UInt8} {token : Token} (h : Extends source token) :
    token.span.start.offset ≤ token.span.stop.offset := by
  cases heof : token.kind.isEof with
  | false => exact Nat.le_of_lt (h.nonempty heof)
  | true =>
    obtain ⟨hstart, hstop⟩ := h.eof heof
    omega

namespace Tiles

variable {source : List UInt8} {offset : Nat} {tokens : List Token}

/-- A separator before the first gap makes it longer. -/
theorem prepend (h : Tiles source offset tokens) {start : Nat} (hle : start ≤ offset)
    (hseparator : between source start offset ∈ Grammar.separator) : Tiles source start tokens := by
  cases h with
  | nil => exact .nil start
  | cons behind gap range rest =>
    refine .cons (Nat.le_trans hle behind) ?_ range rest
    rw [between_append source hle behind]
    exact Grammar.append_mem_gap hseparator gap

theorem range (h : Tiles source offset tokens) : ∀ token ∈ tokens, Extends source token := by
  induction h with
  | nil => simp
  | cons behind gap range rest ih =>
    intro token htoken
    rcases List.mem_cons.mp htoken with rfl | htoken
    · exact range
    · exact ih token htoken

theorem head (h : Tiles source offset tokens) : ∀ token ∈ tokens.head?,
    offset ≤ token.span.start.offset ∧
      between source offset token.span.start.offset ∈ Grammar.gap := by
  cases h with
  | nil => simp
  | cons behind gap range rest => simpa using ⟨behind, gap⟩

/-- Each token lies behind the one before it, and a gap between the two. -/
theorem chain (h : Tiles source offset tokens) : tokens.IsChain fun first second =>
    first.span.stop.offset ≤ second.span.start.offset ∧
      between source first.span.stop.offset second.span.start.offset ∈ Grammar.gap := by
  induction h with
  | nil => exact .nil
  | cons behind gap range rest ih =>
    have hhead := rest.head
    cases rest with
    | nil => exact .singleton _
    | cons behind' gap' range' rest' => exact .cons_cons (hhead _ rfl) ih

/-- The end of the last token lies nowhere before the offset. -/
theorem le_reach (h : Tiles source offset tokens) : offset ≤ reach offset tokens := by
  induction h with
  | nil => exact Nat.le_refl _
  | cons behind gap range rest ih => exact Nat.le_trans behind (Nat.le_trans range.le ih)

/-- Each byte up to the end of the last token lies in one token or one gap. -/
theorem countP_pieces (h : Tiles source offset tokens) {start : Nat} (hstart : start ≤ offset)
    (i : Nat) : (pieces start tokens).countP (liesIn i) =
      if start ≤ i ∧ i < reach start tokens then 1 else 0 := by
  induction h generalizing start with
  | nil =>
    have hempty : ¬ (start ≤ i ∧ i < start) := by omega
    simp [pieces, reach, hempty]
  | @cons offset token tokens behind gap range rest ih =>
    have hle := range.le
    have hreach := rest.le_reach
    rw [pieces, List.countP_cons, List.countP_cons, ih (Nat.le_refl _), reach]
    simp only [liesIn, Bool.and_eq_true, decide_eq_true_eq]
    split_ifs <;> omega

end Tiles

/-! ## Tokens tile -/

namespace Session

/-- The session reads the source, its header decided about, and the token that it is in starts
nowhere behind it. -/
structure Underway (source : List UInt8) (s : Session) : Prop where
  stands : ∃ rest, s.StandsBefore source rest
  reserved : s.keywords.NoEof
  decided : s.headerPending = false
  start_le : s.tokenStart.offset ≤ s.pos.offset

namespace Underway

variable {source : List UInt8} {s t : Session} {token : Token}

theorem of_code {rest : List UInt8} (hstands : s.StandsBefore source rest)
    (hreserved : s.keywords.NoEof) (hdecided : s.headerPending = false) (hmode : s.mode = .code) :
    s.Underway source :=
  ⟨⟨rest, hstands⟩, hreserved, hdecided, by rw [tokenStart_of_code hmode]⟩

/-- What a step leaves as it is. -/
theorem step_stands (h : s.Underway source) :
    ∃ rest, s.step.1.StandsBefore source rest ∧ s.step.1.keywords.NoEof ∧
      s.step.1.headerPending = false ∧ s.pos.offset ≤ s.step.1.pos.offset := by
  obtain ⟨rest, hstands⟩ := h.stands
  obtain ⟨taken, later, -, hnext, hoffset⟩ := hstands.step_forward
  have hkeywords : s.step.1.keywords = s.keywords := stepOn_keywords s _
  refine ⟨later, hnext, ?_, hstands.step_decided h.decided, by omega⟩
  rw [hkeywords]
  exact h.reserved

theorem of_proceed (h : s.Underway source) (hstep : s.step = (t, .proceed)) :
    t.Underway source := by
  obtain ⟨rest, hstands⟩ := h.stands
  obtain ⟨later, hnext, hreserved, hdecided, hle⟩ := h.step_stands
  have hcases := hstands.step_proceed h.decided hstep
  rw [hstep] at hnext hreserved hdecided hle
  rcases hcases with hopened | ⟨-, hmode, -⟩
  · refine ⟨⟨later, hnext⟩, hreserved, hdecided, ?_⟩
    rw [tokenStart_of_opened hopened]
    exact Nat.le_trans h.start_le hle
  · exact of_code hnext hreserved hdecided hmode

theorem of_emit (h : s.Underway source) (hstep : s.step = (t, .emit token)) :
    t.Underway source := by
  obtain ⟨later, hnext, hreserved, hdecided, -⟩ := h.step_stands
  have hmode := (stepOn_emit_span hstep).2
  rw [hstep] at hnext hreserved hdecided
  exact of_code hnext hreserved hdecided hmode

/-- A token takes a range of the source that starts where the session was about to start it. -/
theorem extends_of_emit (h : s.Underway source) (hstep : s.step = (t, .emit token)) :
    Extends source token := by
  obtain ⟨rest, hstands⟩ := h.stands
  obtain ⟨later, hnext, -⟩ := h.step_stands
  have hstart := h.start_le
  have hspan := (stepOn_emit_span hstep).1
  have hlength : t.pos.offset + later.length = source.length := by
    rw [hstep] at hnext
    exact hnext.offset_add
  refine ⟨?_, ?_, ?_⟩
  · intro heof
    have hlt := hstands.step_lt h.decided (by rw [hstep]; exact heof)
    rw [hstep] at hlt
    rw [hspan]
    exact Nat.lt_of_le_of_lt hstart hlt
  · intro heof
    obtain ⟨hmode, -, hview, rfl⟩ := stepOn_emit_eof h.reserved hstep heof
    rw [hstands.lookahead_eq] at hview
    obtain rfl : rest = [] := congrArg Lookahead.bytes hview
    have hend : t.pos.offset = source.length := hstands.offset_add
    rw [hspan, tokenStart_of_code hmode]
    exact ⟨hend, hend⟩
  · rw [hspan]
    show t.pos.offset ≤ source.length
    omega

/-- A token that starts where the tokens are to start, before others that tile the source. -/
theorem cons_tiles (h : s.Underway source) (hstep : s.step = (t, .emit token))
    {tokens : List Token} (hrest : Tiles source t.pos.offset tokens) :
    Tiles source s.tokenStart.offset (token :: tokens) := by
  have hspan := (stepOn_emit_span hstep).1
  refine .cons ?_ ?_ (h.extends_of_emit hstep) ?_
  · rw [hspan]
  · rw [hspan, between_self]
    exact Grammar.nil_mem_gap
  · rw [hspan]
    exact hrest

/-- The tokens from here on tile the source from the start of the one that the session is in. -/
theorem tiles (h : s.Underway source) : Tiles source s.tokenStart.offset s.output.tokens := by
  induction s using stepInduction with
  | proceed s t hstep ih =>
    have htiles := ih (h.of_proceed hstep)
    obtain ⟨rest, hstands⟩ := h.stands
    rw [output_of_proceed hstep]
    rcases hstands.step_proceed h.decided hstep with hopened | ⟨hmode, hmode', hseparator⟩
    · rwa [tokenStart_of_opened hopened] at htiles
    · -- the separator joins the gap before the next token
      obtain ⟨lexeme, later, rfl, hlexeme, hoffset⟩ := hseparator
      rw [tokenStart_of_code hmode'] at htiles
      rw [tokenStart_of_code hmode]
      refine htiles.prepend (by omega) ?_
      rw [hoffset, between, Nat.add_sub_cancel_left, hstands.drop_eq, List.take_left]
      exact hlexeme
  | emit s t token hstep heof ih =>
    have htiles := ih (h.of_emit hstep)
    rw [tokenStart_of_code (stepOn_emit_span hstep).2] at htiles
    rw [output_of_emit hstep heof]
    exact h.cons_tiles hstep htiles
  | final s hfinal =>
    cases hstep : s.step with
    | mk t outcome =>
      rw [hstep] at hfinal
      cases outcome with
      | proceed => cases hfinal
      | emit last =>
        rw [output_of_end hstep hfinal]
        exact h.cons_tiles hstep (.nil _)
      | fail error =>
        rw [output_of_fail hstep]
        exact .nil _
      | starved =>
        rw [output_of_starved hstep]
        exact .nil _

/-- Without an error the tokens end with the end token. -/
theorem output_ends (h : s.Underway source) (herror : s.output.error = none) :
    ∃ before last, s.output.tokens = before ++ [last] ∧ last.kind.isEof = true := by
  induction s using stepInduction with
  | proceed s t hstep ih =>
    rw [output_of_proceed hstep] at herror ⊢
    exact ih (h.of_proceed hstep) herror
  | emit s t token hstep heof ih =>
    rw [output_of_emit hstep heof] at herror ⊢
    obtain ⟨before, last, htokens, hlast⟩ := ih (h.of_emit hstep) herror
    refine ⟨token :: before, last, ?_, hlast⟩
    simp only [htokens, List.cons_append]
  | final s hfinal =>
    obtain ⟨rest, hstands⟩ := h.stands
    cases hstep : s.step with
    | mk t outcome =>
      rw [hstep] at hfinal
      cases outcome with
      | proceed => cases hfinal
      | emit last =>
        refine ⟨[], last, ?_, hfinal⟩
        rw [output_of_end hstep hfinal]
        rfl
      | fail error =>
        rw [output_of_fail hstep] at herror
        cases herror
      | starved => exact absurd (by rw [hstep]) hstands.step_ne_starved

end Underway

/-! ## Stray closers -/

theorem scan_strayClose (rest : List UInt8) :
    TokenRule.scan ⟨['*'.toUInt8, ')'.toUInt8] ++ rest, true⟩ = .found .strayClose 2 := by
  rw [TokenRule.scan_eq_munch]
  show munchFrom true (TokenRule.strayClose, 2) 2 [(TokenRule.strayClose, [])] rest = _
  exact munchFrom_exhausted rfl _ _ _

theorem scan_rParen (rest : List UInt8) :
    TokenRule.scan ⟨[')'.toUInt8] ++ rest, true⟩ = .found (.word (.punct .rParen)) 1 := by
  rw [TokenRule.scan_eq_munch]
  show munchFrom true (TokenRule.word (.punct .rParen), 1) 1
    [(.word (.punct .rParen), []), (.word .illegalByte, [])] rest = _
  exact munchFrom_exhausted rfl _ _ _

/-- Where source code meets `*)`, a `*` and a `)` are given, one byte each. -/
theorem StandsBefore.reaches_strayClose {s : Session} {source rest : List UInt8}
    (h : s.StandsBefore source ('*'.toUInt8 :: ')'.toUInt8 :: rest)) (hmode : s.mode = .code) :
    ∃ t, s.Reaches [⟨.punct .star, ⟨s.pos, s.pos.shifted 1⟩⟩,
      ⟨.punct .rParen, ⟨s.pos.shifted 1, s.pos.shifted 2⟩⟩] t := by
  have hdecided := h.reaches_decided hmode (by decide)
  have hstar := h.decided.step_code ['*'.toUInt8, ')'.toUInt8] hmode rfl (scan_strayClose rest)
  -- only the `*` has been taken
  have hnext : (actCode { s with headerPending := false } .strayClose
      ['*'.toUInt8, ')'.toUInt8]).1.StandsBefore source ([')'.toUInt8] ++ rest) :=
    h.decided.advance ['*'.toUInt8] rfl rfl
  have hparen := hnext.step_code [')'.toUInt8] hmode rfl (scan_rParen rest)
  exact ⟨_, hdecided.trans (.emit hstar rfl (.emit hparen rfl (.here _)))⟩

end Session

/-! ## The partition -/

/-- How the spans of the tokens lie in the source, and what lies between them. -/
structure SpansPartition (source : List UInt8) (config : Config) : Prop where
  /-- Only the end token is empty, and it lies at the end. -/
  ranges : ∀ token ∈ (lex source config).tokens, Extends source token
  /-- Each token starts nowhere before the end of the one before it. -/
  ordered : (lex source config).tokens.IsChain fun first second =>
    first.span.stop.offset ≤ second.span.start.offset
  /-- Between two tokens there are only separators. -/
  gaps : (lex source config).tokens.IsChain fun first second =>
    between source first.span.stop.offset second.span.start.offset ∈ Grammar.gap
  /-- So it is before the first token, but for a header that is passed over. -/
  leading : ∀ token ∈ (lex source config).tokens.head?, ∃ header gap,
    between source 0 token.span.start.offset = header ++ gap ∧ gap ∈ Grammar.gap ∧
      if config.skipHeader then IsHeader source header else header = []
  /-- After a token a session stands at its end. -/
  position : ∀ (s t : Session) (token : Token), s.next = (t, .done token) →
    t.pos = token.span.stop
  /-- Without an error the last token is the end token. -/
  closed : (lex source config).error = none → ∃ before last,
    (lex source config).tokens = before ++ [last] ∧ last.kind = .eof ∧
      last.span.start.offset = source.length ∧ last.span.stop.offset = source.length
  /-- Then each byte lies in one token or one gap. -/
  covered : (lex source config).error = none → ∀ i < source.length,
    (pieces 0 (lex source config).tokens).countP (liesIn i) = 1
  /-- A stray closer of comments is a `*` of one byte and a `)` behind it. -/
  stray : ∀ (before : List Token) (s : Session) (rest : List UInt8),
    (Session.ofSource config source).Reaches before s → s.mode = .code →
      source.drop s.pos.offset = '*'.toUInt8 :: ')'.toUInt8 :: rest →
      before ++ [⟨.punct .star, ⟨s.pos, s.pos.shifted 1⟩⟩,
        ⟨.punct .rParen, ⟨s.pos.shifted 1, s.pos.shifted 2⟩⟩] <+: (lex source config).tokens

/-- Behind the header the tokens tile the source. -/
theorem exists_tiles_lex (source : List UInt8) {config : Config} (h : config.keywords.NoEof) :
    ∃ (header : List UInt8) (s : Session),
      (if config.skipHeader then IsHeader source header else header = []) ∧ header <+: source ∧
        s.Underway source ∧ s.mode = .code ∧ s.pos.offset = header.length ∧
        lex source config = s.output := by
  obtain ⟨header, later, s, hheader, hprefix, hstands, hs, hlex⟩ :=
    Session.exists_isPast source config
  refine ⟨header, s, hheader, hprefix, ?_, hs.mode_eq, hs.offset_eq, hlex⟩
  exact .of_code hstands (by rw [hs.keywords_eq]; exact h) hs.decided hs.mode_eq

/-- The spans of the tokens partition the source, but for the gaps between them, if no keyword
stands for the end token. -/
theorem spans_partition (source : List UInt8) (config : Config) (h : config.keywords.NoEof) :
    SpansPartition source config := by
  obtain ⟨header, s, hheader, hprefix, hs, hmode, hpos, hlex⟩ := exists_tiles_lex source h
  have htiles := hs.tiles
  rw [Session.tokenStart_of_code hmode, hpos, ← hlex] at htiles
  have hends : (lex source config).error = none → ∃ before last,
      (lex source config).tokens = before ++ [last] ∧ last.kind.isEof = true := by
    rw [hlex]
    exact hs.output_ends
  refine ⟨htiles.range, htiles.chain.imp fun _ _ h => h.1, htiles.chain.imp fun _ _ h => h.2,
    ?_, fun s t token => Session.pos_of_next_done, ?_, ?_, ?_⟩
  · intro token htoken
    obtain ⟨hle, hgap⟩ := htiles.head token htoken
    refine ⟨header, _, ?_, hgap, hheader⟩
    rw [between_append source (Nat.zero_le _) hle, between, List.drop_zero, Nat.sub_zero,
      ← List.prefix_iff_eq_take.mp hprefix]
  · intro herror
    obtain ⟨before, last, htokens, hlast⟩ := hends herror
    have hrange := (htiles.range last (by simp [htokens])).eof hlast
    exact ⟨before, last, htokens, TokenKind.eq_eof_of_isEof hlast, hrange⟩
  · intro herror i hi
    obtain ⟨before, last, htokens, hlast⟩ := hends herror
    have hrange := (htiles.range last (by simp [htokens])).eof hlast
    have hreach : reach 0 (lex source config).tokens = source.length := by
      rw [htokens, reach_append, hrange.2]
    rw [htiles.countP_pieces (Nat.zero_le _), hreach, if_pos ⟨Nat.zero_le i, hi⟩]
  · intro before t rest hreach hmode hrest
    obtain ⟨later, hstands⟩ := hreach.standsBefore (Session.standsBefore_ofSource config source)
    rw [← hstands.drop_eq, hrest] at hstands
    obtain ⟨u, hstray⟩ := hstands.reaches_strayClose hmode
    rw [← Session.output_ofSource, (hreach.trans hstray).output_eq]
    exact List.prefix_append _ _

/-- A header, a comment and a stray closer, with a word reserved beside the fixed ones. -/
theorem spans_partition_header :
    let config : Config := { keywords := { overrides := [("unless", .keyword .kwIf)] } }
    let source := "#!run\n unless (*c*) *)\r\n# 7 \"f\"\nx".toList.map Char.toUInt8
    config.keywords.NoEof ∧ SpansPartition source config := by
  intro config source
  have hreserved : config.keywords.NoEof := by
    intro entry hentry
    obtain rfl := List.mem_singleton.mp hentry
    rfl
  exact ⟨hreserved, spans_partition source config hreserved⟩

end StreamLexer
