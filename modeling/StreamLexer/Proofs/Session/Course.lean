import StreamLexer.Proofs.Comment.Nesting
import StreamLexer.Proofs.Scan.Rows
import StreamLexer.Proofs.Session.Growth
import StreamLexer.Proofs.Session.Output

/-!
# The course of a lexing

Lexing is a sequence of steps, whatever requests they are made for. `Session.Reaches` says that a
session comes to stand somewhere, with the tokens that it gives on the way, and
`Reaches.output_eq` that these tokens come before those that it still gives there. What is said of
all tokens of a source is proved by `stepInduction`, along the steps that are left.

Over a complete source a step always acts on a lexeme at the start of what is left:
`StandsBefore.acts`.
-/
namespace StreamLexer

namespace Session

/-! ## Output, step by step -/

section Equations

variable {s t : Session}

theorem output_of_proceed (h : s.step = (t, .proceed)) : s.output = t.output := by
  apply output_congr
  rw [next, next, run_of_proceed h]

/-- A token before the end comes before those that are given after it. -/
theorem output_of_emit {token : Token} (h : s.step = (t, .emit token))
    (heof : token.kind.isEof = false) :
    s.output = { t.output with tokens := token :: t.output.tokens } := by
  have hnext : s.next = (t, .done token) := by rw [next, run_of_emit h]
  simp [output, tokens_of_done hnext heof]

theorem output_of_end {token : Token} (h : s.step = (t, .emit token))
    (heof : token.kind.isEof = true) : s.output = ⟨[token], t.warnings.toList, none⟩ := by
  have hnext : s.next = (t, .done token) := by rw [next, run_of_emit h]
  simp [output, tokens_of_eof hnext heof]

theorem output_of_run_failed {error : LexError} (h : s.run = (t, .failed error)) :
    s.output = ⟨[], t.warnings.toList, some error⟩ := by
  have hnext : s.next = (t.halt error, .failed error) := by rw [next, h]
  simp [output, tokens_of_failed hnext, halt]

theorem output_of_fail {error : LexError} (h : s.step = (t, .fail error)) :
    s.output = ⟨[], t.warnings.toList, some error⟩ :=
  output_of_run_failed (run_of_fail h)

theorem output_of_starved (h : s.step = (t, .starved)) :
    s.output = ⟨[], t.warnings.toList, none⟩ := by
  have hnext : s.next = (t, .pending) := by rw [next, run_of_starved h]
  simp [output, tokens_of_pending hnext]

theorem output_ofSource (config : Config) (source : List UInt8) :
    (Session.ofSource config source).output = lex source config := rfl

end Equations

/-- A fact about sessions that a step hands back, from the session after it to the one before, and
that holds where lexing ends, holds of every session. -/
theorem stepInduction {P : Session → Prop}
    (proceed : ∀ s t, s.step = (t, .proceed) → P t → P s)
    (emit : ∀ s t token, s.step = (t, .emit token) → token.kind.isEof = false → P t → P s)
    (final : ∀ s, s.step.2.isFinal = true → P s) (s : Session) : P s := by
  induction hweight : s.weight using Nat.strongRecOn generalizing s with
  | ind n ih =>
    subst hweight
    -- a step that is not final leaves less to take
    have hless : s.step.2.isFinal = false → s.step.1.weight < s.weight := by
      intro hfinal
      rcases step_spends s with hlt | ⟨htrue, -⟩
      · exact hlt
      · rw [hfinal] at htrue
        cases htrue
    cases hstep : s.step with
    | mk t outcome =>
      rw [hstep] at hless
      cases outcome with
      | proceed => exact proceed s t hstep (ih t.weight (hless rfl) t rfl)
      | emit token =>
        cases heof : token.kind.isEof with
        | false => exact emit s t token hstep heof (ih t.weight (hless heof) t rfl)
        | true => exact final s (by rw [hstep]; exact heof)
      | fail error => exact final s (by rw [hstep]; rfl)
      | starved => exact final s (by rw [hstep]; rfl)

/-! ## Sessions on the way -/

/-- The session comes to stand there by steps, and gives these tokens on the way, none of them an
end token. -/
inductive Reaches : Session → List Token → Session → Prop
  | here (s : Session) : Reaches s [] s
  | proceed {s t u : Session} {tokens : List Token} (step : s.step = (t, .proceed))
      (rest : Reaches t tokens u) : Reaches s tokens u
  | emit {s t u : Session} {token : Token} {tokens : List Token} (step : s.step = (t, .emit token))
      (isEof : token.kind.isEof = false) (rest : Reaches t tokens u) : Reaches s (token :: tokens) u

namespace Reaches

variable {s t u : Session} {tokens later : List Token}

theorem trans (first : s.Reaches tokens t) (second : t.Reaches later u) :
    s.Reaches (tokens ++ later) u := by
  induction first with
  | here => exact second
  | proceed hstep _ ih => exact .proceed hstep (ih second)
  | emit hstep heof _ ih => exact .emit hstep heof (ih second)

/-- What every step keeps, the session still has where it comes to stand. -/
theorem invariant {P : Session → Prop} (hreach : s.Reaches tokens t)
    (hstep : ∀ s, P s → P s.step.1) (hs : P s) : P t := by
  induction hreach with
  | here => exact hs
  | proceed step _ ih =>
    have hnext := hstep _ hs
    rw [step] at hnext
    exact ih hnext
  | emit step _ _ ih =>
    have hnext := hstep _ hs
    rw [step] at hnext
    exact ih hnext

theorem keywords (hreach : s.Reaches tokens t) : t.keywords = s.keywords :=
  hreach.invariant (P := fun u => u.keywords = s.keywords)
    (fun u hu => (stepOn_keywords u _).trans hu) rfl

/-- The tokens given on the way come before those that are given from there on. -/
theorem output_eq (hreach : s.Reaches tokens t) :
    s.output = { t.output with tokens := tokens ++ t.output.tokens } := by
  induction hreach with
  | here => rfl
  | proceed step _ ih => rw [output_of_proceed step, ih]
  | emit step isEof _ ih => rw [output_of_emit step isEof, ih, List.cons_append]

theorem of_run {token : Token} (hrun : s.run = (t, .done token))
    (heof : token.kind.isEof = false) : s.Reaches [token] t := by
  induction s using run.induct with
  | case1 s s' hstep ih =>
    rw [run_of_proceed hstep] at hrun
    exact .proceed hstep (ih hrun)
  | case2 s s' token' hstep =>
    rw [run_of_emit hstep] at hrun
    cases hrun
    exact .emit hstep heof (.here _)
  | case3 s s' error hstep =>
    rw [run_of_fail hstep] at hrun
    cases hrun
  | case4 s s' hstep =>
    rw [run_of_starved hstep] at hrun
    cases hrun

end Reaches

/-- A token is given by a step, after others that give none. -/
theorem exists_emit_of_next {s t : Session} {token : Token} (h : s.next = (t, .done token)) :
    ∃ u, s.Reaches [] u ∧ u.step = (t, .emit token) := by
  have hrun := run_of_next_done h
  clear h
  induction s using run.induct with
  | case1 s s' hstep ih =>
    rw [run_of_proceed hstep] at hrun
    obtain ⟨u, hreach, hemit⟩ := ih hrun
    exact ⟨u, .proceed hstep hreach, hemit⟩
  | case2 s s' token' hstep =>
    rw [run_of_emit hstep] at hrun
    cases hrun
    exact ⟨s, .here s, hstep⟩
  | case3 s s' error hstep =>
    rw [run_of_fail hstep] at hrun
    cases hrun
  | case4 s s' hstep =>
    rw [run_of_starved hstep] at hrun
    cases hrun

/-- A token of the output is given by a step on the way. -/
theorem exists_emit_of_mem_output (s : Session) :
    ∀ token ∈ s.output.tokens, ∃ before t u, s.Reaches before t ∧ t.step = (u, .emit token) := by
  induction s using stepInduction with
  | proceed s t hstep ih =>
    rw [output_of_proceed hstep]
    intro token htoken
    obtain ⟨before, u, v, hreach, hemit⟩ := ih token htoken
    exact ⟨before, u, v, .proceed hstep hreach, hemit⟩
  | emit s t token hstep heof ih =>
    rw [output_of_emit hstep heof]
    intro other hother
    rcases List.mem_cons.mp hother with rfl | hother
    · exact ⟨[], s, t, .here s, hstep⟩
    · obtain ⟨before, u, v, hreach, hemit⟩ := ih other hother
      exact ⟨token :: before, u, v, .emit hstep heof hreach, hemit⟩
  | final s hfinal =>
    intro token htoken
    cases hstep : s.step with
    | mk t outcome =>
      rw [hstep] at hfinal
      cases outcome with
      | proceed => cases hfinal
      | emit last =>
        rw [output_of_end hstep hfinal] at htoken
        obtain rfl := List.mem_singleton.mp htoken
        exact ⟨[], s, t, .here s, hstep⟩
      | fail error =>
        rw [output_of_fail hstep] at htoken
        cases htoken
      | starved =>
        rw [output_of_starved hstep] at htoken
        cases htoken

/-! ## Steps over a complete source -/

/-- The step that a session before `rest` takes: the scan of its mode finds a lexeme there, and the
action of the rule follows. -/
inductive Acts (s : Session) (rest : List UInt8) : Prop
  | header (mode : s.mode = .code) (pending : s.headerPending = true) (rule : HeaderRule)
      (lexeme later : List UInt8) (split : rest = lexeme ++ later)
      (scan : HeaderRule.scan ⟨lexeme ++ later, true⟩ = .found rule lexeme.length)
      (step : s.step = s.actHeader rule lexeme.length)
  | code (mode : s.mode = .code) (decided : s.headerPending = false) (rule : TokenRule)
      (lexeme later : List UInt8) (split : rest = lexeme ++ later)
      (scan : TokenRule.scan ⟨lexeme ++ later, true⟩ = .found rule lexeme.length)
      (step : s.step = s.actCode rule lexeme)
  | comment (c : OpenComment) (text : List UInt8) (mode : s.mode = .comment c text)
      (rule : CommentRule) (lexeme later : List UInt8) (split : rest = lexeme ++ later)
      (scan : CommentRule.scan ⟨lexeme ++ later, true⟩ = .found rule lexeme.length)
      (step : s.step = s.actComment c text rule lexeme)
  | string (o : OpenString) (text : List UInt8) (mode : s.mode = .string o text)
      (delimiter : o.delimiter = none) (rule : StringRule) (lexeme later : List UInt8)
      (split : rest = lexeme ++ later)
      (scan : StringRule.scan ⟨lexeme ++ later, true⟩ = .found rule lexeme.length)
      (step : s.step = s.actString o text rule lexeme)
  | quoted (o : OpenString) (id text : List UInt8) (mode : s.mode = .string o text)
      (delimiter : o.delimiter = some id) (rule : QuotedRule) (lexeme later : List UInt8)
      (split : rest = lexeme ++ later)
      (scan : QuotedRule.scan ⟨lexeme ++ later, true⟩ = .found rule lexeme.length)
      (step : s.step = s.actQuoted o id text rule lexeme)
  | quotation (q : OpenQuotation) (mode : s.mode = .quotation q) (rule : QuotationRule)
      (lexeme later : List UInt8) (split : rest = lexeme ++ later)
      (scan : QuotationRule.scan ⟨lexeme ++ later, true⟩ = .found rule lexeme.length)
      (step : s.step = s.actQuotation q rule lexeme.length)

/-- On a complete source a scan finds a lexeme at its start. -/
theorem exists_lexeme {ρ : Type} {scan : Lookahead → Verdict ρ} (hsettles : Settles scan)
    (rest : List UInt8) :
    ∃ rule lexeme later, rest = lexeme ++ later ∧
      scan ⟨lexeme ++ later, true⟩ = .found rule lexeme.length := by
  obtain ⟨rule, n, hscan⟩ := hsettles.decides rest
  have hle := hsettles.within _ rule n hscan
  refine ⟨rule, rest.take n, rest.drop n, (List.take_append_drop n rest).symm, ?_⟩
  rw [List.take_append_drop, List.length_take_of_le hle]
  exact hscan

section Standing

variable {s : Session} {source rest : List UInt8}

theorem StandsBefore.step_header (h : s.StandsBefore source rest) (hmode : s.mode = .code)
    (hpending : s.headerPending = true) :
    ∃ rule header later, rest = header ++ later ∧
      HeaderRule.scan ⟨header ++ later, true⟩ = .found rule header.length ∧
      s.step = s.actHeader rule header.length := by
  have hsettles : Settles HeaderRule.scan := HeaderRule.settles
  obtain ⟨rule, header, later, rfl, hscan⟩ := exists_lexeme hsettles rest
  refine ⟨rule, header, later, rfl, hscan, ?_⟩
  simp only [step, stepOn, hmode, hpending, h.lookahead_eq, hscan, onFound, if_true]

theorem StandsBefore.acts (h : s.StandsBefore source rest) : s.Acts rest := by
  cases hmode : s.mode with
  | code =>
    cases hpending : s.headerPending with
    | true =>
      obtain ⟨rule, lexeme, later, hsplit, hscan, hstep⟩ := h.step_header hmode hpending
      exact .header hmode hpending rule lexeme later hsplit hscan hstep
    | false =>
      have hsettles : Settles TokenRule.scan := TokenRule.settles
      obtain ⟨rule, lexeme, later, rfl, hscan⟩ := exists_lexeme hsettles rest
      exact .code hmode hpending rule lexeme later rfl hscan
        (h.step_code lexeme hmode hpending hscan)
  | comment c text =>
    have hsettles : Settles CommentRule.scan := CommentRule.settles
    obtain ⟨rule, lexeme, later, rfl, hscan⟩ := exists_lexeme hsettles rest
    exact .comment c text hmode rule lexeme later rfl hscan (h.step_comment lexeme hmode hscan)
  | string o text =>
    cases hdelimiter : o.delimiter with
    | none =>
      have hsettles : Settles StringRule.scan := StringRule.settles
      obtain ⟨rule, lexeme, later, rfl, hscan⟩ := exists_lexeme hsettles rest
      exact .string o text hmode hdelimiter rule lexeme later rfl hscan
        (h.step_string lexeme hmode hdelimiter hscan)
    | some id =>
      have hsettles : Settles QuotedRule.scan := QuotedRule.settles
      obtain ⟨rule, lexeme, later, rfl, hscan⟩ := exists_lexeme hsettles rest
      exact .quoted o id text hmode hdelimiter rule lexeme later rfl hscan
        (h.step_quoted lexeme hmode hdelimiter hscan)
  | quotation q =>
    have hsettles : Settles QuotationRule.scan := QuotationRule.settles
    obtain ⟨rule, lexeme, later, rfl, hscan⟩ := exists_lexeme hsettles rest
    refine .quotation q hmode rule lexeme later rfl hscan ?_
    simp only [step, stepOn, hmode, h.lookahead_eq, hscan, onFound]

theorem standsBefore_ofSource (config : Config) (source : List UInt8) :
    (Session.ofSource config source).StandsBefore source source :=
  ⟨rfl, Nat.zero_add _, rfl⟩

/-- A step takes bytes from the start of what is left, and leaves the others. -/
theorem StandsBefore.step_forward (h : s.StandsBefore source rest) :
    ∃ taken later, rest = taken ++ later ∧ s.step.1.StandsBefore source later ∧
      s.step.1.pos.offset = s.pos.offset + taken.length := by
  have hlength := h.offset_add
  have hwindow : s.step.1.window = .ofSource source := (stepOn_window s _).trans h.window_eq
  obtain ⟨hle, hbound⟩ : s.pos.offset ≤ s.step.1.pos.offset ∧
      s.step.1.pos.offset ≤ s.pos.offset + rest.length := by
    rcases s.stepOn_cases s.lookahead with ⟨hwait, -⟩ | hcommits
    · rw [step, hwait]
      exact ⟨Nat.le_refl _, Nat.le_add_right _ _⟩
    · have hview : s.lookahead.bytes = rest := by rw [h.lookahead_eq]
      rw [← hview]
      exact ⟨hcommits.le_offset, hcommits.offset_le⟩
  have htaken : (rest.take (s.step.1.pos.offset - s.pos.offset)).length =
      s.step.1.pos.offset - s.pos.offset := List.length_take_of_le (by omega)
  refine ⟨_, _, (List.take_append_drop (s.step.1.pos.offset - s.pos.offset) rest).symm, ?_, ?_⟩
  · rw [← List.take_append_drop (s.step.1.pos.offset - s.pos.offset) rest] at h
    exact h.advance _ (hwindow.trans h.window_eq.symm) (by omega)
  · omega

/-- Once the header is decided about, that stays so. -/
theorem StandsBefore.step_decided (h : s.StandsBefore source rest)
    (hdecided : s.headerPending = false) : s.step.1.headerPending = false := by
  have htakes : ∀ {n : Nat}, s.Takes n s.step → s.step.1.headerPending = false :=
    fun htakes => htakes.2.1.trans hdecided
  cases h.acts with
  | header _ hpending =>
    rw [hdecided] at hpending
    cases hpending
  | code _ _ rule lexeme _ _ _ hact => exact htakes (hact ▸ s.actCode_takes rule lexeme)
  | comment c text _ rule lexeme _ _ _ hact =>
    exact htakes (hact ▸ s.actComment_takes c text rule lexeme)
  | string o text _ _ rule lexeme _ _ _ hact =>
    exact htakes (hact ▸ s.actString_takes o text rule lexeme)
  | quoted o id text _ _ rule lexeme _ _ _ hact =>
    exact htakes (hact ▸ s.actQuoted_takes o id text rule lexeme)
  | quotation q _ rule lexeme _ _ _ hact =>
    exact htakes (hact ▸ s.actQuotation_takes q rule lexeme.length)

/-- Then a step that is not final takes a byte. -/
theorem StandsBefore.step_lt (h : s.StandsBefore source rest) (hdecided : s.headerPending = false)
    (hfinal : s.step.2.isFinal = false) : s.pos.offset < s.step.1.pos.offset := by
  have hdecided' := h.step_decided hdecided
  have hwindow : s.step.1.window = s.window := stepOn_window s _
  rcases step_spends s with hlt | ⟨htrue, -⟩
  · simp only [weight, remaining, hdecided, hdecided', hwindow] at hlt
    omega
  · rw [hfinal] at htrue
    cases htrue

/-- Over a complete source no step waits. -/
theorem StandsBefore.step_ne_starved (h : s.StandsBefore source rest) : s.step.2 ≠ .starved := by
  rcases s.stepOn_cases s.lookahead with ⟨-, hopen⟩ | hcommits
  · rw [h.lookahead_eq] at hopen
    cases hopen
  · exact hcommits.answers

/-! ## The header -/

/-- Source code after it has been decided that there is no header. -/
theorem StandsBefore.decided (h : s.StandsBefore source rest) :
    StandsBefore { s with headerPending := false } source rest :=
  h.advance [] rfl rfl

/-- Whether it is still to be decided or not, what is no header is source code. -/
theorem StandsBefore.reaches_absent (h : s.StandsBefore source rest) (hmode : s.mode = .code)
    (hscan : HeaderRule.scan ⟨rest, true⟩ = .found .absent 0) :
    s.Reaches [] { s with headerPending := false } := by
  cases hpending : s.headerPending with
  | true =>
    have hstep : s.step = s.onFound (.found .absent 0) s.actHeader := by
      simp only [step, stepOn, hmode, hpending, h.lookahead_eq, hscan, if_true]
    exact .proceed hstep (.here _)
  | false =>
    have hsame : { s with headerPending := false } = s := by rw [← hpending]
    rw [hsame]
    exact .here s

/-- A byte other than `#` starts no header. -/
theorem StandsBefore.reaches_decided {b : UInt8} (h : s.StandsBefore source (b :: rest))
    (hmode : s.mode = .code) (hb : b ≠ '#'.toUInt8) :
    s.Reaches [] { s with headerPending := false } :=
  h.reaches_absent hmode (HeaderRule.scan_absent_of_ne hb rest)

/-- What is no header and makes no token is passed. -/
theorem StandsBefore.reaches_proceed (lexeme : List UInt8) {later : List UInt8} {rule : TokenRule}
    {t : Session} (h : s.StandsBefore source (lexeme ++ later)) (hmode : s.mode = .code)
    (hheader : HeaderRule.scan ⟨lexeme ++ later, true⟩ = .found .absent 0)
    (hscan : TokenRule.scan ⟨lexeme ++ later, true⟩ = .found rule lexeme.length)
    (hact : { s with headerPending := false }.actCode rule lexeme = (t, .proceed)) :
    s.Reaches [] t :=
  (h.reaches_absent hmode hheader).trans
    (.proceed ((h.decided.step_code lexeme hmode rfl hscan).trans hact) (.here t))

theorem Reaches.standsBefore {tokens : List Token} {t : Session} (hreach : s.Reaches tokens t)
    (h : s.StandsBefore source rest) : ∃ later, t.StandsBefore source later := by
  refine hreach.invariant (P := fun s => ∃ later, s.StandsBefore source later) ?_ ⟨rest, h⟩
  rintro s ⟨later, hs⟩
  obtain ⟨-, later', -, hs', -⟩ := hs.step_forward
  exact ⟨later', hs'⟩

theorem Reaches.decided {tokens : List Token} {t : Session} (hreach : s.Reaches tokens t)
    (h : s.StandsBefore source rest) (hdecided : s.headerPending = false) :
    t.headerPending = false := by
  have hboth : (∃ later, t.StandsBefore source later) ∧ t.headerPending = false := by
    refine hreach.invariant (P := fun s => (∃ later, s.StandsBefore source later) ∧
      s.headerPending = false) ?_ ⟨⟨rest, h⟩, hdecided⟩
    rintro s ⟨⟨later, hs⟩, hdecided⟩
    obtain ⟨-, later', -, hs', -⟩ := hs.step_forward
    exact ⟨⟨later', hs'⟩, hs.step_decided hdecided⟩
  exact hboth.2

end Standing

end Session

end StreamLexer
