import StreamLexer.Proofs.Printer.Words
import StreamLexer.Proofs.Scan.Shortening
import StreamLexer.Proofs.Scan.WordBytes
import StreamLexer.Proofs.Session.Parallel
import StreamLexer.Proofs.Span.TokenStart

/-!
# A token by itself

The bytes that a span covers, lexed as a source of their own, give the token again and nothing else:
`lex_token_alone`. A session reads on behind a token to know where it ends, but what it sees there
does not matter, since each lexeme stays what it is where the source is cut behind it. Only a stray
`*)` is cut in two: its `*` is a token, and a `*` by itself is that token too.

Quotations may nest to any depth here. A session that counts them in 32 bits does the same until one
`NestsTooDeep`, which takes `2 ^ 32` bytes at least: `FlatSession.lexes_iff`.
-/
namespace StreamLexer

namespace Session

/-! ## Actions take their lexeme -/

section Offsets

variable (s : Session)

/-- A rule of source code other than that of a stray closer takes the whole lexeme. -/
theorem actCode_offset {rule : TokenRule} (hrule : rule ≠ .strayClose) (lexeme : List UInt8) :
    (s.actCode rule lexeme).1.pos.offset = s.pos.offset + lexeme.length := by
  cases rule with
  | strayClose => exact absurd rfl hrule
  | word rule =>
    simp only [actCode]
    split <;> exact wordStop_offset rule _
  | _ => rfl

theorem actComment_offset (c : OpenComment) (text : List UInt8) (rule : CommentRule)
    (lexeme : List UInt8) :
    (s.actComment c text rule lexeme).1.pos.offset = s.pos.offset + lexeme.length := by
  cases rule with
  | close =>
    simp only [actComment]
    split <;> rfl
  | _ => rfl

theorem actString_offset (o : OpenString) (text : List UInt8) (rule : StringRule)
    (lexeme : List UInt8) :
    (s.actString o text rule lexeme).1.pos.offset = s.pos.offset + lexeme.length := by
  cases rule with
  | close => exact congrArg Position.offset (closeString_pos _ o text lexeme)
  | decimalEscape =>
    simp only [actString]
    split
    · rfl
    · split <;> rfl
  | newline =>
    simp only [actString]
    split <;> rfl
  | _ => rfl

theorem actQuoted_offset (o : OpenString) (id text : List UInt8) (rule : QuotedRule)
    (lexeme : List UInt8) :
    (s.actQuoted o id text rule lexeme).1.pos.offset = s.pos.offset + lexeme.length := by
  cases rule with
  | terminator =>
    simp only [actQuoted]
    split
    · exact congrArg Position.offset (closeString_pos _ o text lexeme)
    · rfl
  | _ => rfl

theorem actQuotation_offset (q : OpenQuotation) (rule : QuotationRule) (n : Nat) :
    (s.actQuotation q rule n).1.pos.offset = s.pos.offset + n := by
  cases rule with
  | close =>
    simp only [actQuotation]
    split <;> rfl
  | _ => rfl

end Offsets

/-! ## Steps before a cut -/

section Cut

variable {s t : Session} {source bytes cut : List UInt8}

/-- A step that goes nowhere behind a cut is the step on what stands before the cut, but for a stray
closer that is cut in two. -/
theorem StandsBefore.step_cut (h : s.StandsBefore source (bytes ++ cut))
    (hdecided : s.headerPending = false)
    (hle : s.step.1.pos.offset ≤ s.pos.offset + bytes.length) :
    s.step = s.stepOn ⟨bytes, true⟩ ∨
      s.mode = .code ∧ bytes = ['*'.toUInt8] ∧
        s.step.2 = .emit ⟨.punct .star, ⟨s.pos, s.pos.shifted 1⟩⟩ := by
  cases h.acts with
  | header _ hpending =>
    rw [hdecided] at hpending
    cases hpending
  | code hmode _ rule lexeme later hsplit hscan hact =>
    by_cases hfits : lexeme.length ≤ bytes.length
    · obtain ⟨hfound, htake⟩ :=
        TokenRule.shortens.found TokenRule.findsBytes hsplit hscan hfits
      left
      simp only [stepOn, hmode, hdecided, hfound, onFound, htake, Bool.false_eq_true, if_false]
      exact hact
    · have hrule : rule = .strayClose := by
        by_contra hrule
        rw [hact, s.actCode_offset hrule] at hle
        omega
      subst hrule
      have hfirst := (TokenRule.scan_first hscan).resolve_left (by simp)
      obtain rfl : lexeme = ['*'.toUInt8, ')'.toUInt8] := eq_of_literal ['*', ')'] rfl hfirst.2
      -- the star is all that the step takes, so it is all that stands before the cut
      have hstar : s.step.1.pos.offset = s.pos.offset + 1 := by
        rw [hact]
        rfl
      have hone : bytes.length = 1 := by
        simp only [List.length_cons, List.length_nil] at hfits
        omega
      obtain ⟨b, rfl⟩ := List.length_eq_one_iff.mp hone
      obtain ⟨rfl, -⟩ := List.cons.inj hsplit
      exact .inr ⟨hmode, rfl, by rw [hact]; rfl⟩
  | comment c text hmode rule lexeme later hsplit hscan hact =>
    rw [hact, actComment_offset] at hle
    obtain ⟨hfound, htake⟩ :=
      CommentRule.shortens.found CommentRule.findsBytes hsplit hscan (by omega)
    left
    simp only [stepOn, hmode, hfound, onFound, htake]
    exact hact
  | string o text hmode hdelimiter rule lexeme later hsplit hscan hact =>
    rw [hact, actString_offset] at hle
    obtain ⟨hfound, htake⟩ :=
      StringRule.shortens.found StringRule.findsBytes hsplit hscan (by omega)
    left
    simp only [stepOn, hmode, hdelimiter, hfound, onFound, htake]
    exact hact
  | quoted o id text hmode hdelimiter rule lexeme later hsplit hscan hact =>
    rw [hact, actQuoted_offset] at hle
    obtain ⟨hfound, htake⟩ :=
      QuotedRule.shortens.found QuotedRule.findsBytes hsplit hscan (by omega)
    left
    simp only [stepOn, hmode, hdelimiter, hfound, onFound, htake]
    exact hact
  | quotation q hmode rule lexeme later hsplit hscan hact =>
    rw [hact, actQuotation_offset] at hle
    obtain ⟨hfound, -⟩ :=
      QuotationRule.shortens.found QuotationRule.findsBytes hsplit hscan (by omega)
    left
    simp only [stepOn, hmode, hfound, onFound]
    exact hact

end Cut

/-! ## A session over a slice -/

/-- The session without the warnings that it has recorded. -/
def bare (s : Session) : Session :=
  { s with warnings := #[] }

/-- A session over the slice that starts at offset `n` mirrors one over the whole source: its places
lie `n` bytes before, and what is left to it comes first in what is left to the other. Warnings are
left out. -/
structure Mirrors (n : Nat) (source slice bytes cut : List UInt8) (t s : Session) : Prop where
  parallel : s.bare.Parallel n t.bare
  whole : s.StandsBefore source (bytes ++ cut)
  part : t.StandsBefore slice bytes

section Mirrors

variable {n : Nat} {s s' t : Session} {source slice bytes cut : List UInt8} {token : Token}

/-- Warnings make no difference to a step. -/
theorem Parallel.stepOn_of_bare (h : s.bare.Parallel n t.bare) (view : Lookahead) :
    (s.stepOn view).1.bare.Parallel n (t.stepOn view).1.bare ∧
      (s.stepOn view).2.moved 0 = (t.stepOn view).2.moved n := by
  obtain ⟨hparallel, houtcome⟩ := h.stepOn view
  rw [stepOn_eq s, stepOn_eq t]
  refine ⟨?_, houtcome⟩
  exact parallel_of hparallel.pos hparallel.mode hparallel.keywords hparallel.headerPending
    (by simp [bare])

/-- On what is left of the slice the two take the same step, and go as far by it. -/
theorem Mirrors.stepOn (h : Mirrors n source slice bytes cut t s)
    (hview : s.step = s.stepOn ⟨bytes, true⟩) :
    s.step.2.moved 0 = t.step.2.moved n ∧
      ∃ left, Mirrors n source slice left cut t.step.1 s.step.1 ∧
        s.step.1.pos.offset + left.length = s.pos.offset + bytes.length := by
  obtain ⟨hparallel, houtcome⟩ := h.parallel.stepOn_of_bare ⟨bytes, true⟩
  have hpart : t.step = t.stepOn ⟨bytes, true⟩ := by rw [step, h.part.lookahead_eq]
  rw [← hview, ← hpart] at hparallel houtcome
  -- what the session over the slice takes, the other one takes too
  obtain ⟨taken, left, rfl, hpart', hoffset'⟩ := h.part.step_forward
  have hoffset : s.step.1.pos.offset = s.pos.offset + taken.length := by
    have hbefore : s.pos.offset = t.pos.offset + n := Position.offset_of_moved h.parallel.pos
    have hafter : s.step.1.pos.offset = t.step.1.pos.offset + n :=
      Position.offset_of_moved hparallel.pos
    omega
  have hwhole : s.StandsBefore source (taken ++ (left ++ cut)) := by
    rw [← List.append_assoc]
    exact h.whole
  refine ⟨houtcome, left, ⟨hparallel, ?_, hpart'⟩, ?_⟩
  · exact hwhole.advance taken (stepOn_window s _) hoffset
  · rw [hoffset, List.length_append]
    omega

/-- A lexeme that makes no token yet and does not reach behind the slice. -/
theorem Mirrors.proceed (h : Mirrors n source slice bytes cut t s)
    (hdecided : s.headerPending = false) (hstep : s.step = (s', .proceed))
    (hle : s'.pos.offset ≤ s.pos.offset + bytes.length) :
    ∃ t' left, t.step = (t', .proceed) ∧ Mirrors n source slice left cut t' s' ∧
      s'.pos.offset + left.length = s.pos.offset + bytes.length := by
  have hcut := h.whole.step_cut hdecided (by rw [hstep]; exact hle)
  rcases hcut with hview | ⟨-, -, hemit⟩
  · obtain ⟨houtcome, left, hmirrors, hlength⟩ := h.stepOn hview
    rw [hstep] at houtcome hmirrors hlength
    refine ⟨t.step.1, left, ?_, hmirrors, hlength⟩
    cases hstep' : t.step with
    | mk t' outcome =>
      rw [hstep'] at houtcome
      cases outcome with
      | proceed => rfl
      | _ => cases houtcome
  · rw [hstep] at hemit
    cases hemit

/-- The lexeme that ends the slice and makes the token. -/
theorem Mirrors.emit (h : Mirrors n source slice bytes cut t s)
    (hdecided : s.headerPending = false) (hstep : s.step = (s', .emit token))
    (hstop : s'.pos.offset = s.pos.offset + bytes.length) :
    ∃ t' token', t.step = (t', .emit token') ∧ token.moved 0 = token'.moved n ∧
      t'.StandsBefore slice [] := by
  have hcut := h.whole.step_cut hdecided (by rw [hstep]; exact Nat.le_of_eq hstop)
  rcases hcut with hview | ⟨hmode, rfl, hemit⟩
  · obtain ⟨houtcome, left, hmirrors, hlength⟩ := h.stepOn hview
    rw [hstep] at houtcome hlength
    have hleft : left = [] := by
      rw [← List.length_eq_zero_iff]
      dsimp only at hlength
      omega
    cases hstep' : t.step with
    | mk t' outcome =>
      rw [hstep'] at houtcome hmirrors
      cases outcome with
      | emit token' =>
        have htoken : token.moved 0 = token'.moved n := by injection houtcome
        exact ⟨t', token', rfl, htoken, hleft ▸ hmirrors.part⟩
      | _ => cases houtcome
  · -- by itself the star of a stray closer is a mark
    have hmode' : t.mode = .code := by
      have hsame : s.mode.moved 0 = t.mode.moved n := h.parallel.mode
      rw [hmode] at hsame
      cases ht : t.mode <;> simp_all [Mode.moved]
    have hdecided' : t.headerPending = false := h.parallel.headerPending.symm.trans hdecided
    have hscan : TokenRule.scan ⟨['*'.toUInt8] ++ [], true⟩ = .found (.word (.punct .star)) 1 := by
      decide
    obtain ⟨t', hstep', hpart', -, -⟩ :=
      StandsBefore.step_word ['*'.toUInt8] h.part hmode' hdecided' hscan rfl
    refine ⟨t', _, hstep', ?_, hpart'⟩
    have hstart : s.pos.moved 0 = t.pos.moved n := h.parallel.pos
    have hbefore := Position.offset_of_moved hstart
    have hafter : t'.pos.offset = t.pos.offset + 1 := by
      have hlength := h.part.offset_add
      have hlength' := hpart'.offset_add
      simp only [List.length_cons, List.length_nil] at hlength hlength'
      omega
    have htoken : token = ⟨.punct .star, ⟨s.pos, s.pos.shifted 1⟩⟩ := by
      rw [hstep] at hemit
      injection hemit
    rw [htoken]
    refine congrArg (Token.mk (.punct .star)) (Span.moved_mk hstart ?_)
    apply Position.moved_of_offset
    simp only [Position.shifted]
    omega

/-- Steps never go back, nor does the one that makes a token. -/
theorem Reaches.le_emit {tokens : List Token} {u : Session} (hreach : s.Reaches tokens s')
    (h : s.StandsBefore source bytes) (hemit : s'.step = (u, .emit token)) :
    s.pos.offset ≤ u.pos.offset := by
  obtain ⟨later, hstands, hle⟩ : ∃ later, s'.StandsBefore source later ∧
      s.pos.offset ≤ s'.pos.offset := by
    refine hreach.invariant (P := fun r => ∃ later, r.StandsBefore source later ∧
      s.pos.offset ≤ r.pos.offset) ?_ ⟨bytes, h, Nat.le_refl _⟩
    rintro r ⟨later, hr, hle⟩
    obtain ⟨taken, later', -, hnext, hoffset⟩ := hr.step_forward
    exact ⟨later', hnext, by omega⟩
  obtain ⟨taken, -, -, -, hoffset⟩ := hstands.step_forward
  rw [hemit] at hoffset
  dsimp only at hoffset
  omega

/-- The steps before the token, and the one that makes it. -/
theorem Mirrors.reaches {u : Session} (h : Mirrors n source slice bytes cut t s)
    (hdecided : s.headerPending = false) (hreach : s.Reaches [] s')
    (hemit : s'.step = (u, .emit token)) (hstop : u.pos.offset = s.pos.offset + bytes.length) :
    ∃ t' v token', t.Reaches [] t' ∧ t'.step = (v, .emit token') ∧
      token.moved 0 = token'.moved n ∧ v.StandsBefore slice [] := by
  generalize hnone : ([] : List Token) = tokens at hreach
  induction hreach generalizing t bytes with
  | here s =>
    obtain ⟨v, token', hstep', htoken, hpart⟩ := h.emit hdecided hemit hstop
    exact ⟨t, v, token', .here t, hstep', htoken, hpart⟩
  | @proceed s r s' tokens hstep hrest ih =>
    subst hnone
    have hle : r.pos.offset ≤ u.pos.offset := by
      obtain ⟨-, later, -, hnext, -⟩ := h.whole.step_forward
      rw [hstep] at hnext
      exact hrest.le_emit hnext hemit
    obtain ⟨t', left, hstep', hmirrors, hlength⟩ := h.proceed hdecided hstep (by omega)
    have hdecided' : r.headerPending = false := by
      have hnext := h.whole.step_decided hdecided
      rwa [hstep] at hnext
    obtain ⟨t'', v, token', hreach', hgives⟩ :=
      ih hmirrors hdecided' hemit (by omega) rfl
    exact ⟨t'', v, token', .proceed hstep' hreach', hgives⟩
  | emit => cases hnone

/-- So the session over the slice gives that token and nothing else. -/
theorem Mirrors.gives {u : Session} (h : Mirrors n source slice bytes cut t s)
    (hdecided : s.headerPending = false) (hreach : s.Reaches [] s')
    (hemit : s'.step = (u, .emit token)) (heof : token.kind.isEof = false)
    (hstop : u.pos.offset = s.pos.offset + bytes.length) :
    ∃ span : Span, t.output.tokens = [⟨token.kind, span⟩, ⟨.eof, .point span.stop⟩] ∧
      t.output.error = none ∧ token.span.moved 0 = span.moved n := by
  obtain ⟨t', v, token', hreach', hemit', hsame, hend⟩ := h.reaches hdecided hreach hemit hstop
  have hkind : token.kind = token'.kind := (congrArg Token.kind hsame :)
  obtain ⟨hspan, hmode⟩ := stepOn_emit_span hemit'
  have hpoint : v.pos = token'.span.stop := by rw [hspan]
  have houtput := (hreach'.trans (.emit hemit' (hkind ▸ heof) (.here v))).output_eq
  rw [hend.output_end hmode, hpoint] at houtput
  refine ⟨token'.span, ?_, ?_, congrArg Token.span hsame⟩
  · rw [houtput, hkind]
    rfl
  · rw [houtput]

end Mirrors

/-! ## Where a token starts -/

/-- The token that a session is in starts where it has stood outside of all constructs, and it has
given nothing since. -/
structure Begun (source : List UInt8) (keywords : KeywordTable) (start s : Session) : Prop where
  stands : ∃ rest, start.StandsBefore source rest
  mode_eq : start.mode = .code
  decided : start.headerPending = false
  keywords_eq : start.keywords = keywords
  reaches : start.Reaches [] s
  pos_eq : start.pos = s.tokenStart

section Begun

variable {start s t : Session} {source rest : List UInt8} {keywords : KeywordTable}
  {tokens : List Token}

/-- Outside of all constructs a token starts. -/
theorem StandsBefore.begun (h : s.StandsBefore source rest) (hmode : s.mode = .code)
    (hdecided : s.headerPending = false) : Begun source s.keywords s s :=
  ⟨⟨rest, h⟩, hmode, hdecided, rfl, .here s, (tokenStart_of_code hmode).symm⟩

/-- With each step the session goes on with the token that it is in, or starts another one. -/
theorem Begun.step (h : Begun source keywords start s)
    (hfinal : s.step.2 = .proceed ∨ ∃ token, s.step.2 = .emit token) :
    ∃ start', Begun source keywords start' s.step.1 := by
  obtain ⟨rest, hstart⟩ := h.stands
  obtain ⟨later, hstands⟩ := h.reaches.standsBefore hstart
  have hdecided := h.reaches.decided hstart h.decided
  obtain ⟨-, later', -, hnext, -⟩ := hstands.step_forward
  have hnext' := hstands.step_decided hdecided
  have hkeywords : s.step.1.keywords = keywords :=
    (stepOn_keywords s _).trans (h.reaches.keywords.trans h.keywords_eq)
  have hfresh : s.step.1.mode = .code → ∃ start', Begun source keywords start' s.step.1 := by
    intro hmode
    rw [← hkeywords]
    exact ⟨_, hnext.begun hmode hnext'⟩
  cases hstep : s.step with
  | mk t outcome =>
    rw [hstep] at hfinal hfresh
    rcases hfinal with rfl | ⟨token, rfl⟩
    · rcases hstands.step_proceed hdecided hstep with hopened | ⟨-, hmode, -⟩
      · refine ⟨start, h.stands, h.mode_eq, h.decided, h.keywords_eq, ?_, ?_⟩
        · exact h.reaches.trans (.proceed hstep (.here t))
        · rw [h.pos_eq, tokenStart_of_opened hopened]
      · exact hfresh hmode
    · exact hfresh (stepOn_emit_span hstep).2

theorem Begun.of_reaches (h : Begun source keywords start s) (hreach : s.Reaches tokens t) :
    ∃ start', Begun source keywords start' t := by
  induction hreach generalizing start with
  | here => exact ⟨start, h⟩
  | proceed hstep _ ih =>
    obtain ⟨start', hnext⟩ := h.step (.inl (by rw [hstep]))
    rw [hstep] at hnext
    exact ih hnext
  | @emit _ _ _ token _ hstep _ _ ih =>
    obtain ⟨start', hnext⟩ := h.step (.inr ⟨token, by rw [hstep]⟩)
    rw [hstep] at hnext
    exact ih hnext

/-- The session over the bytes of the token starts out as one that mirrors the session where the
token starts. -/
theorem Begun.mirrors {u : Session} {token : Token} (h : Begun source keywords start s)
    (hemit : s.step = (u, .emit token)) (fileName : String) :
    let slice := between source token.span.start.offset token.span.stop.offset
    let alone : Config := { fileName, keywords, skipHeader := false }
    token.span.start.offset = start.pos.offset ∧ token.span.stop = u.pos ∧
      u.pos.offset = start.pos.offset + slice.length ∧
      ∃ cut,
        Mirrors start.pos.offset source slice slice cut (Session.ofSource alone slice) start := by
  intro slice alone
  obtain ⟨rest, hstart⟩ := h.stands
  obtain ⟨hspan, -⟩ := stepOn_emit_span hemit
  have hfrom : token.span.start.offset = start.pos.offset := by rw [hspan, h.pos_eq]
  have hto : token.span.stop = u.pos := by rw [hspan]
  -- what is left where the token starts is the slice, and what lies behind it
  let size := u.pos.offset - start.pos.offset
  have hslice : slice = rest.take size := by
    show between source token.span.start.offset token.span.stop.offset = _
    rw [between, hfrom, hto, hstart.drop_eq]
  have hlength : u.pos.offset = start.pos.offset + slice.length := by
    obtain ⟨later, hs⟩ := h.reaches.standsBefore hstart
    obtain ⟨-, cut, -, hu, -⟩ := hs.step_forward
    rw [hemit] at hu
    have hend : u.pos.offset + cut.length = source.length := hu.offset_add
    have hbegin := hstart.offset_add
    have hle := h.reaches.le_emit hstart hemit
    rw [hslice, List.length_take]
    omega
  refine ⟨hfrom, hto, hlength, rest.drop size, ?_, ?_, standsBefore_ofSource alone slice⟩
  · apply parallel_of
    · exact Position.moved_of_offset (Nat.zero_add _).symm
    · show start.mode.moved 0 = Mode.code
      rw [h.mode_eq]
      rfl
    · exact h.keywords_eq
    · exact h.decided
    · simp [bare]
  · rw [hslice, List.take_append_drop]
    exact hstart

end Begun

end Session

/-- The bytes that the span of a token covers, lexed as a source of their own with the same
keywords, give this token alone: one of the same kind, over all of the bytes, and the end token. -/
theorem lex_token_alone (source : List UInt8) (config : Config) (fileName : String) {token : Token}
    (htoken : token ∈ (lex source config).tokens) (hkind : token.kind ≠ .eof) :
    let slice := between source token.span.start.offset token.span.stop.offset
    let alone : Config := { fileName, keywords := config.keywords, skipHeader := false }
    ∃ span : Span,
      (lex slice alone).tokens = [⟨token.kind, span⟩, ⟨.eof, .point span.stop⟩] ∧
        (lex slice alone).error = none ∧ span.start.offset = 0 ∧
          span.stop.offset = slice.length := by
  intro slice alone
  obtain ⟨header, later, s, -, -, hstands, hpast, hlex⟩ := Session.exists_isPast source config
  rw [hlex] at htoken
  obtain ⟨before, t, u, hreach, hemit⟩ := Session.exists_emit_of_mem_output s token htoken
  obtain ⟨start, hbegun⟩ := (hstands.begun hpast.mode_eq hpast.decided).of_reaches hreach
  rw [hpast.keywords_eq] at hbegun
  obtain ⟨hfrom, hto, hlength, cut, hmirrors⟩ := hbegun.mirrors hemit fileName
  have heof : token.kind.isEof = false :=
    Bool.eq_false_iff.mpr (mt TokenKind.eq_eof_of_isEof hkind)
  obtain ⟨span, htokens, herror, hsame⟩ :=
    hmirrors.gives hbegun.decided hbegun.reaches hemit heof hlength
  have hfirst : token.span.start.offset = span.start.offset + start.pos.offset :=
    Position.offset_of_moved (congrArg Span.start hsame)
  have hlast : token.span.stop.offset = span.stop.offset + start.pos.offset :=
    Position.offset_of_moved (congrArg Span.stop hsame)
  have hlength' : u.pos.offset = start.pos.offset + slice.length := hlength
  rw [hto] at hlast
  exact ⟨span, htokens, herror, by omega, by omega⟩

/-- A directive, a comment with a string in it, a stray closer and a name before an error. -/
theorem lex_token_alone_comment :
    let source := "# 7 \"f\"\n(*\"*)\"*)*)x\"".toList.map Char.toUInt8
    let comment : Token := ⟨.comment "\"*)\"", ⟨⟨"f", 7, 8, 8⟩, ⟨"f", 7, 8, 16⟩⟩⟩
    let star : Token := ⟨.punct .star, ⟨⟨"f", 7, 8, 16⟩, ⟨"f", 7, 8, 17⟩⟩⟩
    comment ∈ (lex source {}).tokens ∧ comment.kind ≠ .eof ∧
      star ∈ (lex source {}).tokens ∧ star.kind ≠ .eof ∧
      (∃ span : Span,
        (lex (between source 8 16) { fileName := "slice", skipHeader := false }).tokens =
          [⟨comment.kind, span⟩, ⟨.eof, .point span.stop⟩] ∧
        (lex (between source 8 16) { fileName := "slice", skipHeader := false }).error = none ∧
        span.start.offset = 0 ∧ span.stop.offset = (between source 8 16).length) ∧
      ∃ span : Span,
        (lex (between source 16 17) { fileName := "slice", skipHeader := false }).tokens =
          [⟨star.kind, span⟩, ⟨.eof, .point span.stop⟩] ∧
        (lex (between source 16 17) { fileName := "slice", skipHeader := false }).error = none ∧
        span.start.offset = 0 ∧ span.stop.offset = (between source 16 17).length := by
  intro source comment star
  have hcomment : comment ∈ (lex source {}).tokens := by decide +kernel
  have hstar : star ∈ (lex source {}).tokens := by decide +kernel
  have hcomment' : comment.kind ≠ .eof := by decide
  have hstar' : star.kind ≠ .eof := by decide
  exact ⟨hcomment, hcomment', hstar, hstar', lex_token_alone source {} "slice" hcomment hcomment',
    lex_token_alone source {} "slice" hstar hstar'⟩

end StreamLexer
