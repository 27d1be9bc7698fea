import StreamLexer.Proofs.Session.Parallel
import StreamLexer.Proofs.Span.TokenStart

/-!
# What lies behind a token

Between two tokens a session is in the middle of nothing. So lexing what lies behind a token, as a
source of its own, gives the tokens, the warnings and the error that were still to come:
`lex_behind_token`. The places differ, since the source of its own starts again at offset zero and
knows no directive; the offsets differ by where the token ends.

Quotations may nest to any depth here. A session that counts them in 32 bits does the same until one
`NestsTooDeep`, which takes `2 ^ 32` bytes at least: `FlatSession.lexes_iff`.
-/
namespace StreamLexer

namespace Session

/-! ## Warnings recorded before -/

section Earlier

variable {s : Session} {a : Surroundings}

/-- The step of a session in other surroundings that hold the same input. -/
theorem step_within (ha : a.window = s.window) :
    (s.within a).step = (s.step.1.within a, s.step.2) := by
  have hview : (s.within a).lookahead = s.lookahead := by
    simp only [lookahead, within_window, within_pos, ha]
  rw [step, hview, stepOn_within]
  rfl

/-- Warnings recorded before stand before the others, and make no other difference. -/
theorem output_within (s : Session) (a : Surroundings) (ha : a.window = s.window) :
    (s.within a).output =
      { s.output with warnings := a.earlier.toList ++ s.output.warnings } := by
  have hwindow : a.window = s.step.1.window := ha.trans (stepOn_window s _).symm
  induction s using stepInduction with
  | proceed s t hstep ih =>
    have hwithin := step_within ha
    rw [hstep] at hwithin hwindow
    rw [output_of_proceed hwithin, output_of_proceed hstep]
    exact ih hwindow (hwindow.trans (stepOn_window t _).symm)
  | emit s t token hstep heof ih =>
    have hwithin := step_within ha
    rw [hstep] at hwithin hwindow
    rw [output_of_emit hwithin heof, output_of_emit hstep heof,
      ih hwindow (hwindow.trans (stepOn_window t _).symm)]
  | final s hfinal =>
    have hwithin := step_within ha
    cases hstep : s.step with
    | mk t outcome =>
      rw [hstep] at hwithin hfinal
      cases outcome with
      | proceed => cases hfinal
      | emit token =>
        rw [output_of_end hwithin hfinal, output_of_end hstep hfinal]
        simp
      | fail error =>
        rw [output_of_fail hwithin, output_of_fail hstep]
        simp
      | starved =>
        rw [output_of_starved hwithin, output_of_starved hstep]
        simp

end Earlier

/-! ## Parallel sessions -/

section Parallel

variable {n : Nat} {s t : Session} {source source' rest : List UInt8}

/-- Parallel sessions before the same bytes take parallel steps, and then stand before the same
bytes again. -/
theorem Parallel.step (h : s.Parallel n t) (hs : s.StandsBefore source rest)
    (ht : t.StandsBefore source' rest) :
    StepsParallel n s.step t.step ∧
      ∃ later, s.step.1.StandsBefore source later ∧ t.step.1.StandsBefore source' later := by
  have hview : s.lookahead = t.lookahead := hs.lookahead_eq.trans ht.lookahead_eq.symm
  have hsteps : StepsParallel n s.step t.step := by
    show StepsParallel n (s.stepOn s.lookahead) (t.stepOn t.lookahead)
    rw [hview]
    exact h.stepOn t.lookahead
  obtain ⟨taken, later, hsplit, hnext, hoffset⟩ := hs.step_forward
  obtain ⟨taken', later', hsplit', hnext', hoffset'⟩ := ht.step_forward
  have hbefore := Position.offset_of_moved h.pos
  have hafter := Position.offset_of_moved hsteps.1.pos
  have hlength : taken.length = taken'.length := by omega
  obtain ⟨-, rfl⟩ := List.append_inj (hsplit.symm.trans hsplit') hlength
  exact ⟨hsteps, later, hnext, hnext'⟩

/-- They give the same output, as far as offsets go. -/
theorem Parallel.output (h : s.Parallel n t) (hs : s.StandsBefore source rest)
    (ht : t.StandsBefore source' rest) : s.output.moved 0 = t.output.moved n := by
  have hwarnings : ∀ {s t : Session}, s.Parallel n t →
      s.warnings.toList.map (Warning.moved 0) = t.warnings.toList.map (Warning.moved n) := by
    intro s t h
    simpa using congrArg Array.toList h.warnings
  -- along the steps of the first session; the second takes them with it
  induction s using stepInduction generalizing t rest with
  | proceed s u hstep ih =>
    obtain ⟨⟨hparallel, houtcome⟩, later, hs', ht'⟩ := h.step hs ht
    cases hstep' : t.step with
    | mk v outcome =>
      rw [hstep, hstep'] at hparallel houtcome
      rw [hstep] at hs'
      rw [hstep'] at ht'
      cases outcome with
      | proceed =>
        rw [output_of_proceed hstep, output_of_proceed hstep']
        exact ih hparallel hs' ht'
      | _ => cases houtcome
  | emit s u token hstep heof ih =>
    obtain ⟨⟨hparallel, houtcome⟩, later, hs', ht'⟩ := h.step hs ht
    cases hstep' : t.step with
    | mk v outcome =>
      rw [hstep, hstep'] at hparallel houtcome
      rw [hstep] at hs'
      rw [hstep'] at ht'
      cases outcome with
      | emit token' =>
        have htoken : token.moved 0 = token'.moved n := by injection houtcome
        have hkind : token.kind = token'.kind := (congrArg Token.kind htoken :)
        have htokens := ih hparallel hs' ht'
        rw [output_of_emit hstep heof, output_of_emit hstep' (by rw [← hkind, heof])]
        simp only [LexOutput.moved, LexOutput.mk.injEq, List.map_cons] at htokens ⊢
        rw [htoken, htokens.1]
        exact ⟨rfl, htokens.2⟩
      | _ => cases houtcome
  | final s hfinal =>
    obtain ⟨⟨hparallel, houtcome⟩, -⟩ := h.step hs ht
    cases hstep : s.step with
    | mk u outcome =>
      cases hstep' : t.step with
      | mk v outcome' =>
        rw [hstep, hstep'] at hparallel houtcome
        rw [hstep] at hfinal
        cases outcome with
        | proceed => cases hfinal
        | emit token =>
          cases outcome' with
          | emit token' =>
            have htoken : token.moved 0 = token'.moved n := by injection houtcome
            have hkind : token.kind = token'.kind := (congrArg Token.kind htoken :)
            have heof : token.kind.isEof = true := hfinal
            rw [output_of_end hstep hfinal, output_of_end hstep' (by rw [← hkind, heof])]
            simp only [LexOutput.moved, List.map_cons, List.map_nil, htoken, hwarnings hparallel,
              Option.map_none]
          | _ => cases houtcome
        | fail error =>
          cases outcome' with
          | fail error' =>
            have herror : error.moved 0 = error'.moved n := by injection houtcome
            rw [output_of_fail hstep, output_of_fail hstep']
            simp only [LexOutput.moved, List.map_nil, hwarnings hparallel, Option.map_some, herror]
          | _ => cases houtcome
        | starved => exact absurd (by rw [hstep]) hs.step_ne_starved

end Parallel

/-! ## Requests -/

/-- The session after some requests for tokens. -/
def asked (s : Session) : Nat → Session
  | 0 => s
  | n + 1 => s.next.1.asked n

/-- The first token of the output is the answer to the next request. -/
theorem next_of_tokens {s : Session} {token : Token} {rest : List Token}
    (h : s.output.tokens = token :: rest) :
    ∃ t, s.next = (t, .done token) ∧
      (token.kind.isEof = true ∧ rest = [] ∨
        token.kind.isEof = false ∧ t.output.tokens = rest) := by
  cases hnext : s.next with
  | mk t answer =>
    cases answer with
    | done first =>
      cases heof : first.kind.isEof with
      | true =>
        have htokens : s.output.tokens = [first] := by simp [output, tokens_of_eof hnext heof]
        rw [htokens] at h
        obtain ⟨rfl, hrest⟩ := List.cons.inj h
        exact ⟨t, rfl, .inl ⟨heof, hrest.symm⟩⟩
      | false =>
        have htokens : s.output.tokens = first :: t.output.tokens := by
          simp [output, tokens_of_done hnext heof]
        rw [htokens] at h
        obtain ⟨rfl, hrest⟩ := List.cons.inj h
        exact ⟨t, rfl, .inr ⟨heof, hrest⟩⟩
    | failed error =>
      have htokens : s.output.tokens = [] := by simp [output, tokens_of_failed hnext]
      rw [htokens] at h
      cases h
    | pending =>
      have htokens : s.output.tokens = [] := by simp [output, tokens_of_pending hnext]
      rw [htokens] at h
      cases h

/-- Each token of the output is the answer to a request; the session that answers it has come there
by steps. -/
theorem exists_asked {s : Session} {before after : List Token} {token : Token}
    (htokens : s.output.tokens = before ++ token :: after) :
    ∃ u t, (s.asked before.length).next = (t, .done token) ∧ s.Reaches before u ∧
      u.step = (t, .emit token) := by
  induction before generalizing s with
  | nil =>
    obtain ⟨t, hnext, -⟩ := next_of_tokens htokens
    obtain ⟨u, hreach, hemit⟩ := exists_emit_of_next hnext
    exact ⟨u, t, hnext, hreach, hemit⟩
  | cons first before ih =>
    obtain ⟨v, hnext, ⟨-, hrest⟩ | ⟨heof, hrest⟩⟩ := next_of_tokens htokens
    · simp at hrest
    · obtain ⟨u, t, hasked, hreach, hemit⟩ := ih hrest
      obtain ⟨w, hsilent, hfirst⟩ := exists_emit_of_next hnext
      refine ⟨u, t, ?_, hsilent.trans (.emit hfirst heof hreach), hemit⟩
      show ((s.next.1).asked before.length).next = (t, .done token)
      rw [hnext]
      exact hasked

/-! ## After the header -/

/-- The first step decides about the header. -/
theorem StandsBefore.step_decides {s : Session} {source rest : List UInt8}
    (h : s.StandsBefore source rest) (hs : s.mode = .code ∨ s.headerPending = false) :
    s.step.1.headerPending = false := by
  by_cases hdecided : s.headerPending = false
  · exact h.step_decided hdecided
  · have hmode : s.mode = .code := hs.resolve_right hdecided
    have hpending : s.headerPending = true := by simpa using hdecided
    obtain ⟨rule, header, later, -, -, hstep⟩ := h.step_header hmode hpending
    rw [hstep]
    cases rule <;> rfl

/-- So a session that has given a token has decided about it. -/
theorem StandsBefore.decided_of_emit {s u t : Session} {source rest : List UInt8}
    {tokens : List Token} {token : Token} (h : s.StandsBefore source rest) (hmode : s.mode = .code)
    (hreach : s.Reaches tokens u) (hemit : u.step = (t, .emit token)) :
    t.headerPending = false := by
  have hu : ∃ later, u.StandsBefore source later ∧ (u.mode = .code ∨ u.headerPending = false) := by
    refine hreach.invariant (P := fun s => ∃ later, s.StandsBefore source later ∧
      (s.mode = .code ∨ s.headerPending = false)) ?_ ⟨rest, h, .inl hmode⟩
    rintro s ⟨later, hs, hcases⟩
    obtain ⟨-, later', -, hs', -⟩ := hs.step_forward
    exact ⟨later', hs', .inr (hs.step_decides hcases)⟩
  obtain ⟨later, hstands, hcases⟩ := hu
  have hdecided := hstands.step_decides hcases
  rwa [hemit] at hdecided

/-! ## Between two tokens -/

/-- Outside of all constructs a session goes on like a new one over what is left. -/
theorem StandsBefore.output_afresh {s : Session} {source rest : List UInt8}
    (h : s.StandsBefore source rest) (hmode : s.mode = .code) (hdecided : s.headerPending = false)
    (fileName : String) :
    let config : Config := { fileName, keywords := s.keywords, skipHeader := false }
    ∃ later, s.output.warnings = s.warnings.toList ++ later ∧
      (lex rest config).moved s.pos.offset =
        LexOutput.moved 0 ⟨s.output.tokens, later, s.output.error⟩ := by
  intro config
  -- without the warnings recorded so far the session is parallel to the new one
  let bare : Session := { s with warnings := #[] }
  have hbare : bare.StandsBefore source rest := h.advance [] rfl rfl
  have hparallel : bare.Parallel s.pos.offset (Session.ofSource config rest) := by
    apply parallel_of
    · exact Position.moved_of_offset (Nat.zero_add s.pos.offset).symm
    · show s.mode.moved 0 = Mode.code
      rw [hmode]
      rfl
    · rfl
    · exact hdecided
    · simp [bare, Session.ofSource, ofWindow]
  have hsame := hparallel.output hbare (standsBefore_ofSource config rest)
  have houtput : s.output =
      { bare.output with warnings := s.warnings.toList ++ bare.output.warnings } := by
    have hs : bare.within s.surroundings = s := within_surroundings s
    have hwithin := output_within bare s.surroundings rfl
    rw [hs] at hwithin
    exact hwithin
  refine ⟨bare.output.warnings, ?_, ?_⟩
  · rw [houtput]
  · rw [← output_ofSource, ← hsame, houtput]

end Session

/-- Lexing what lies behind a token, under any file name, gives what the whole source gives behind
it: the tokens that follow, the warnings that are recorded after the token has been given, and the
error. -/
theorem lex_behind_token (source : List UInt8) (config : Config) (fileName : String)
    {before after : List Token} {token : Token}
    (htokens : (lex source config).tokens = before ++ token :: after) (heof : token.kind ≠ .eof) :
    let stop := token.span.stop.offset
    let behind : Config := { fileName, keywords := config.keywords, skipHeader := false }
    ∃ (s : Session) (later : List Warning),
      ((Session.ofSource config source).asked before.length).next = (s, .done token) ∧
      (lex source config).warnings = s.warnings.toList ++ later ∧
      (lex (source.drop stop) behind).moved stop =
        LexOutput.moved 0 ⟨after, later, (lex source config).error⟩ := by
  intro stop behind
  have hstart := Session.standsBefore_ofSource config source
  rw [← Session.output_ofSource] at htokens ⊢
  obtain ⟨u, s, hasked, hreach, hemit⟩ := Session.exists_asked htokens
  have hnotEof : token.kind.isEof = false := by
    cases hkind : token.kind with
    | eof => exact absurd hkind heof
    | _ => rfl
  have hwhole := hreach.trans (.emit hemit hnotEof (.here s))
  -- the session after the token stands at its end, in the middle of nothing
  obtain ⟨hspan, hmode⟩ := Session.stepOn_emit_span hemit
  have hstop : s.pos.offset = stop := by
    show s.pos.offset = token.span.stop.offset
    rw [hspan]
  have hkeywords : s.keywords = config.keywords := by
    refine hwhole.invariant (P := fun s => s.keywords = config.keywords) ?_ rfl
    intro r hr
    exact (Session.stepOn_keywords r _).trans hr
  have hdecided := hstart.decided_of_emit rfl hreach hemit
  obtain ⟨rest, hstands⟩ := hwhole.standsBefore hstart
  have hrest : source.drop stop = rest := by
    rw [← hstop, hstands.drop_eq]
  obtain ⟨later, hwarnings, hsame⟩ := hstands.output_afresh hmode hdecided fileName
  have hlex := hwhole.output_eq
  have hafter : s.output.tokens = after := by
    rw [hlex] at htokens
    simpa using htokens
  refine ⟨s, later, hasked, ?_, ?_⟩
  · rw [hlex, hwarnings]
  · rw [hkeywords, hstop, hafter] at hsame
    rw [hrest, hsame, hlex]

/-- A header and a comment with a string in it, before a stray closer and a string that lacks its
end. -/
theorem lex_behind_token_comment :
    let source := "#!h\n(*)\"*)\"*)*)\"\\q".toList.map Char.toUInt8
    let output := lex source {}
    let comment : Token :=
      ⟨.comment "\"*)\"", ⟨⟨"_none_", 2, 4, 4⟩, ⟨"_none_", 2, 4, 13⟩⟩⟩
    output.tokens = [] ++ comment :: output.tokens.tail ∧ comment.kind ≠ .eof ∧
      ∃ (s : Session) (later : List Warning),
        ((Session.ofSource {} source).asked 0).next = (s, .done comment) ∧
        output.warnings = s.warnings.toList ++ later ∧
        (lex (source.drop 13) { fileName := "rest", skipHeader := false }).moved 13 =
          LexOutput.moved 0 ⟨output.tokens.tail, later, output.error⟩ := by
  intro source output comment
  have htokens : output.tokens = [] ++ comment :: output.tokens.tail := by decide +kernel
  have heof : comment.kind ≠ .eof := by decide
  exact ⟨htokens, heof, lex_behind_token source {} "rest" htokens heof⟩

end StreamLexer
