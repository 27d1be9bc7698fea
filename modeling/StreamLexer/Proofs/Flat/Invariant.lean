import StreamLexer.Proofs.Flat.Attribution
import StreamLexer.Proofs.Session.Significant

/-!
# Flat state that requests lead to

`FlatSession.Consistent` says how the stack and the fields of a session with flat state fit
together. It holds wherever requests lead to, since flat state then is that of a session:
`fields_consistent`. There every step passes all its checks, `steps_pass_checks`.
-/
namespace StreamLexer

/-! ## Where requests lead to -/

namespace Session

/-- Some session has handed out this rest of a request that it could not answer. -/
inductive Outstanding : Resumable Session LexError Token → Prop
  | token {s : Session} {rest : Resumable Session LexError Token}
      (h : s.token.2 = .needMore rest) : Outstanding rest
  | significantToken {s : Session} {rest : Resumable Session LexError Token}
      (h : s.significantToken.2 = .needMore rest) : Outstanding rest
  | resume {s : Session} {first rest : Resumable Session LexError Token}
      (outstanding : Outstanding first) (h : (first.start s).2 = .needMore rest) :
      Outstanding rest

/-- The session can be reached from its start by requests and by input. -/
inductive Reachable (config : Config) : Session → Prop
  | new : Reachable config (.new config)
  | ofSource (source : List UInt8) : Reachable config (.ofSource config source)
  | feed {s : Session} (h : Reachable config s) (chunk : List UInt8) :
      Reachable config (s.feed chunk)
  | finish {s : Session} (h : Reachable config s) : Reachable config s.finish
  | takeWarnings {s : Session} (h : Reachable config s) : Reachable config s.takeWarnings.1
  | token {s : Session} (h : Reachable config s) : Reachable config s.token.1
  | significantToken {s : Session} (h : Reachable config s) :
      Reachable config s.significantToken.1
  | resume {s : Session} (h : Reachable config s) {rest : Resumable Session LexError Token}
      (outstanding : Outstanding rest) : Reachable config (rest.start s).1

theorem start_poll (ask : Session → Session × Poll LexError Token) (s : Session) :
    ((Resumable.poll ask).start s).1 = (ask s).1 ∧
      ∀ rest, ((Resumable.poll ask).start s).2 = .needMore rest → rest = .poll ask := by
  simp only [Resumable.start]
  split
  · rename_i heq
    exact ⟨by rw [heq], fun rest hrest => by cases hrest⟩
  · rename_i heq
    exact ⟨by rw [heq], fun rest hrest => by cases hrest⟩
  · rename_i heq
    refine ⟨by rw [heq], fun rest hrest => ?_⟩
    cases hrest
    rfl

/-- What is handed out asks the session again, for either kind of token. -/
theorem Outstanding.eq_resume {rest : Resumable Session LexError Token} (h : Outstanding rest) :
    rest = resumeToken ∨ rest = resumeSignificant := by
  induction h with
  | @token s rest h =>
    unfold Session.token at h
    split at h
    · cases h
    · exact .inl ((start_poll next s).2 rest h)
  | @significantToken s rest h =>
    unfold Session.significantToken at h
    split at h
    · cases h
    · exact .inr ((start_poll nextSignificant s).2 rest h)
  | @resume s first rest _ h ih =>
    rcases ih with rfl | rfl
    · exact .inl ((start_poll next s).2 rest h)
    · exact .inr ((start_poll nextSignificant s).2 rest h)

/-- What every step, every error and all input keep, and a session has at its start, it has wherever
requests lead to. -/
theorem Reachable.invariant {config : Config} {s : Session} (P : Session → Prop)
    (h : Reachable config s) (hnew : P (.new config))
    (hsource : ∀ source, P (.ofSource config source))
    (hfeed : ∀ s chunk, P s → P (s.feed chunk)) (hfinish : ∀ s, P s → P s.finish)
    (htake : ∀ s, P s → P s.takeWarnings.1) (hstep : ∀ s, P s → P s.step.1)
    (hhalt : ∀ s error, P s → P (s.halt error)) : P s := by
  have hnext : ∀ s : Session, P s → P s.next.1 := fun _ => next_preserves hstep hhalt
  have hsignificant : ∀ s : Session, P s → P s.nextSignificant.1 :=
    fun _ => nextSignificant_preserves hstep hhalt
  induction h with
  | new => exact hnew
  | ofSource source => exact hsource source
  | feed _ chunk ih => exact hfeed _ chunk ih
  | finish _ ih => exact hfinish _ ih
  | takeWarnings _ ih => exact htake _ ih
  | @token s _ ih =>
    unfold Session.token
    split
    · exact ih
    · rw [resumeToken, (start_poll Session.next s).1]
      exact hnext s ih
  | @significantToken s _ ih =>
    unfold Session.significantToken
    split
    · exact ih
    · rw [resumeSignificant, (start_poll Session.nextSignificant s).1]
      exact hsignificant s ih
  | @resume s _ rest outstanding ih =>
    rcases outstanding.eq_resume with rfl | rfl
    · rw [resumeToken, (start_poll Session.next s).1]
      exact hnext s ih
    · rw [resumeSignificant, (start_poll Session.nextSignificant s).1]
      exact hsignificant s ih

theorem Reachable.inWindow {config : Config} {s : Session} (h : Reachable config s) :
    s.InWindow :=
  h.invariant InWindow ⟨Nat.le_refl _, Nat.le_refl _⟩ (fun _ => ⟨Nat.le_refl _, Nat.zero_le _⟩)
    (fun _ chunk hs => hs.feed chunk) (fun _ hs => ⟨hs.base_le, hs.le_stop⟩)
    (fun _ hs => ⟨hs.base_le, hs.le_stop⟩) (fun _ hs => hs.step)
    (fun _ _ hs => ⟨hs.base_le, hs.le_stop⟩)

theorem Reachable.keywords {config : Config} {s : Session} (h : Reachable config s) :
    s.keywords = config.keywords :=
  h.invariant (·.keywords = config.keywords) rfl (fun _ => rfl) (fun _ _ hs => hs)
    (fun _ hs => hs) (fun _ hs => hs) (fun s hs => (stepOn_keywords s _).trans hs)
    (fun _ _ hs => hs)

end Session

namespace FlatSession

/-- The flat state can be reached from its start by input and by steps. A request for a token and
the rest of one that is gone on with do nothing to a session but take steps, up to an error that
ends it. -/
inductive Reachable (config : Config) : FlatSession → Prop
  | new : Reachable config (.new config)
  | ofSource (source : List UInt8) : Reachable config (.ofSource config source)
  | feed {f : FlatSession} (h : Reachable config f) (chunk : List UInt8) :
      Reachable config (f.feed chunk)
  | finish {f : FlatSession} (h : Reachable config f) : Reachable config f.finish
  | takeWarnings {f : FlatSession} (h : Reachable config f) : Reachable config f.takeWarnings.1
  | step {f g : FlatSession} {outcome : Step} (h : Reachable config f)
      (hstep : f.step false = some (g, outcome)) : Reachable config (g.settled outcome)

/-- How the stack and the fields fit together. -/
structure Consistent (f : FlatSession) : Prop where
  stack : f.stack ∈ ([[], [.comment], [.string], [.quotedString], [.quotation],
    [.comment, .string], [.comment, .quotedString]] : List (List Construct))
  commentStarts : f.scratch.commentStarts ≠ [] ↔ f.stack.head? = some .comment
  stringStart : f.scratch.stringStart.isSome ↔
    f.stack.getLast? = some .string ∨ f.stack.getLast? = some .quotedString
  start : f.scratch.start.isSome ↔ f.stack ≠ []
  quotationStart : f.scratch.quotationStart.isSome ↔ f.stack = [.quotation]
  quotationDepth : 1 ≤ f.scratch.quotationDepth ↔ f.stack = [.quotation]
  delimiter : f.stack.getLast? ≠ some .quotedString → f.scratch.delimiter = []
  base_le : f.window.base ≤ f.pos.offset
  le_stop : f.pos.offset ≤ f.window.stop

end FlatSession

namespace Session

/-- The flat state of a session is consistent, whatever the session is in the middle of. -/
theorem InWindow.consistent {s : Session} (h : s.InWindow) : s.flatten.Consistent := by
  obtain ⟨hbase, hstop⟩ := h
  obtain ⟨window, pos, mode, keywords, headerPending, warnings, failure⟩ := s
  cases mode with
  | code =>
    refine ⟨?_, ?_, ?_, ?_, ?_, ?_, ?_, hbase, hstop⟩ <;>
      simp [flatten, Mode.stack, Mode.scratch]
  | comment c text =>
    refine ⟨?_, ?_, ?_, ?_, ?_, ?_, ?_, hbase, hstop⟩ <;>
      simp [flatten, Mode.stack, Mode.scratch, OpenComment.openers]
  | string o text =>
    obtain ⟨opener, delimiter, enclosing⟩ := o
    cases enclosing <;> cases delimiter <;>
      refine ⟨?_, ?_, ?_, ?_, ?_, ?_, ?_, hbase, hstop⟩ <;>
      simp [flatten, Mode.stack, Mode.scratch, OpenComment.openers]
  | quotation q =>
    refine ⟨?_, ?_, ?_, ?_, ?_, ?_, ?_, hbase, hstop⟩ <;>
      simp [flatten, Mode.stack, Mode.scratch]

/-- A step with flat state leads to the flat state of a session again. -/
theorem InWindow.exists_settled {s : Session} (h : s.InWindow) {g : FlatSession} {outcome : Step}
    (hstep : s.flatten.step false = some (g, outcome)) :
    ∃ t : Session, t.InWindow ∧ g.settled outcome = t.flatten := by
  by_cases hdepth : s.flatten.NestsTooDeep
  · rw [step_flatten_deep h hdepth] at hstep
    cases hstep
  · rw [step_flatten h hdepth] at hstep
    obtain ⟨rfl, rfl⟩ : s.step.1.flatten = g ∧ s.step.2.raw = outcome := by
      simpa [flattened] using hstep
    have hwindow := h.step
    have herror := step_attributes s
    cases hs : s.step with
    | mk t outcome =>
      rw [hs] at hwindow herror
      cases outcome with
      | fail e =>
        refine ⟨t.halt e, ⟨hwindow.base_le, hwindow.le_stop⟩, ?_⟩
        show t.flatten.halt (t.flatten.attributed e.raw) = _
        rw [herror e rfl]
        rfl
      | proceed => exact ⟨t, hwindow, rfl⟩
      | emit token => exact ⟨t, hwindow, rfl⟩
      | starved => exact ⟨t, hwindow, rfl⟩

end Session

/-- Flat state that can be reached is that of a session. -/
theorem FlatSession.Reachable.exists_flatten {config : Config} {f : FlatSession}
    (h : Reachable config f) : ∃ s : Session, s.InWindow ∧ f = s.flatten := by
  induction h with
  | new => exact ⟨.new config, Session.Reachable.new.inWindow, rfl⟩
  | ofSource source =>
    exact ⟨.ofSource config source, (Session.Reachable.ofSource source).inWindow, rfl⟩
  | feed _ chunk ih =>
    obtain ⟨s, hs, rfl⟩ := ih
    exact ⟨s.feed chunk, hs.feed chunk, rfl⟩
  | finish _ ih =>
    obtain ⟨s, hs, rfl⟩ := ih
    exact ⟨s.finish, ⟨hs.base_le, hs.le_stop⟩, rfl⟩
  | takeWarnings _ ih =>
    obtain ⟨s, hs, rfl⟩ := ih
    exact ⟨s.takeWarnings.1, ⟨hs.base_le, hs.le_stop⟩, rfl⟩
  | step _ hstep ih =>
    obtain ⟨s, hs, rfl⟩ := ih
    exact hs.exists_settled hstep

/-! ## Steps where requests lead to -/

/-- No strict step differs from the step that is not. -/
theorem Session.InWindow.step_strict {s : Session} (h : s.InWindow) :
    s.flatten.step true = s.flatten.step false := by
  by_cases hdepth : s.flatten.NestsTooDeep
  · rw [step_flatten_deep h hdepth, step_flatten_deep h hdepth]
  · rw [step_flatten h hdepth, step_flatten h hdepth]

/-- What flat state tells about what a session is in the middle of fits together wherever requests
lead to: no step misses a field that it needs, and the error of a quotation stays its own. The flat
state of a session goes through the same steps as the session. -/
theorem fields_consistent (config : Config) :
    (∀ f, FlatSession.Reachable config f →
      f.Consistent ∧ f.step true = f.step false ∧
        ∀ g opener, f.step false = some (g, .fail (.unterminatedQuotation opener)) →
          g.attributed (.unterminatedQuotation opener) = .unterminatedQuotation opener) ∧
    ∀ s, Session.Reachable config s →
      s.flatten.Consistent ∧
        (¬ s.flatten.NestsTooDeep → s.flatten.step true = some (Session.flattened s.step)) := by
  refine ⟨?_, ?_⟩
  · intro f hf
    obtain ⟨s, hs, rfl⟩ := hf.exists_flatten
    exact ⟨hs.consistent, hs.step_strict, fun g opener => hs.attributed_quotation⟩
  · intro s hs
    exact ⟨hs.inWindow.consistent, fun hdepth => Session.step_flatten hs.inWindow hdepth true⟩

/-- A quotation without an end, and a string in a comment whose end has not come. -/
theorem fields_consistent_unterminated :
    let source := "<:a<".toList.map Char.toUInt8
    let opener : Span := ⟨⟨"_none_", 1, 0, 0⟩, ⟨"_none_", 1, 0, 4⟩⟩
    let inside : FlatSession :=
      { FlatSession.ofSource {} source with
        headerPending := false
        pos := opener.stop
        stack := [.quotation]
        scratch :=
          { start := some opener.start, quotationStart := some opener, quotationDepth := 1 } }
    let s := ((Session.new {}).feed ("(* \"".toList.map Char.toUInt8)).token.1
    FlatSession.Reachable {} inside ∧ inside.Consistent ∧ inside.step true = inside.step false ∧
      inside.step false = some (inside, .fail (.unterminatedQuotation opener)) ∧
      inside.attributed (.unterminatedQuotation opener) = .unterminatedQuotation opener ∧
      s.flatten.stack = [.comment, .string] ∧ s.flatten.Consistent ∧
      s.flatten.step true = some (Session.flattened s.step) := by
  intro source opener inside s
  have hheader : FlatSession.Reachable {}
      { FlatSession.ofSource {} source with headerPending := false } :=
    @FlatSession.Reachable.step {} _ { FlatSession.ofSource {} source with headerPending := false }
      .proceed (.ofSource source) rfl
  have hopener : TokenRule.scan ⟨source, true⟩ = .found .quotationOpen 4 := by decide +kernel
  have hinside : FlatSession.Reachable {} inside :=
    hheader.step (FlatSession.onLexeme_found rfl hopener rfl)
  have hfails : inside.step false = some (inside, .fail (.unterminatedQuotation opener)) := rfl
  have hs : Session.Reachable {} s := .token (.feed .new _)
  obtain ⟨hflat, hsession⟩ := fields_consistent {}
  obtain ⟨hconsistent, hstrict, hattributed⟩ := hflat inside hinside
  have hstack : s.flatten.stack = [.comment, .string] := by decide +kernel
  have hdepth : ¬ s.flatten.NestsTooDeep := by
    rintro ⟨hquotation, -⟩
    rw [hstack] at hquotation
    cases hquotation
  obtain ⟨hconsistent', hstep⟩ := hsession s hs
  exact ⟨hinside, hconsistent, hstrict, hfails, hattributed inside opener hfails, hstack,
    hconsistent', hstep hdepth⟩

/-- Wherever requests lead to, a step passes all its checks, unless it would open one more quotation
than 32 bits can count. -/
theorem steps_pass_checks (config : Config) :
    (∀ f, FlatSession.Reachable config f → ¬ f.NestsTooDeep → ∀ strict, f.step strict ≠ none) ∧
    ∀ s, Session.Reachable config s → ¬ s.flatten.NestsTooDeep →
      ∀ strict, s.flatten.step strict = some (Session.flattened s.step) := by
  refine ⟨?_, ?_⟩
  · intro f hf hdepth strict
    obtain ⟨s, hs, rfl⟩ := hf.exists_flatten
    rw [Session.step_flatten hs hdepth]
    simp
  · intro s hs hdepth strict
    exact Session.step_flatten hs.inWindow hdepth strict

/-- Before a character literal in decimal, and inside a quotation. -/
theorem steps_pass_checks_char :
    let config : Config := { skipHeader := false }
    let f := (FlatSession.new config).feed ("'\\065'".toList.map Char.toUInt8)
    let s := ((Session.new config).feed ("<:a< <:b<".toList.map Char.toUInt8)).token.1
    FlatSession.Reachable config f ∧ ¬ f.NestsTooDeep ∧ f.step false ≠ none ∧
      f.step false = some (f.advance 6, .emit ⟨.char 65, ⟨f.pos, f.pos.shifted 6⟩⟩) ∧
      s.flatten.stack = [.quotation] ∧ s.flatten.scratch.quotationDepth = 2 ∧
      ¬ s.flatten.NestsTooDeep ∧ s.flatten.step false = some (Session.flattened s.step) := by
  intro config f s
  have hf : FlatSession.Reachable config f := .feed .new _
  have hchar : TokenRule.scan ⟨"'\\065'".toList.map Char.toUInt8, false⟩ =
      .found (.word .charDecimal) 6 := by decide +kernel
  have hstep : f.step false = some (f.advance 6, .emit ⟨.char 65, ⟨f.pos, f.pos.shifted 6⟩⟩) := by
    have hlexeme : f.onLexeme TokenRule.scan f.actCode = f.actCode (.word .charDecimal) _ :=
      FlatSession.onLexeme_found rfl hchar rfl
    exact hlexeme.trans rfl
  have hs : Session.Reachable config s := .token (.feed .new _)
  have hcode : ¬ f.NestsTooDeep := by
    rintro ⟨hstack, -⟩
    cases hstack
  have hstack : s.flatten.stack = [.quotation] := by decide +kernel
  have hdepth : s.flatten.scratch.quotationDepth = 2 := by decide +kernel
  have hshallow : ¬ s.flatten.NestsTooDeep := by
    rintro ⟨-, hdeep, -⟩
    omega
  obtain ⟨hflat, hsession⟩ := steps_pass_checks config
  exact ⟨hf, hcode, hflat f hf hcode false, hstep, hstack, hdepth, hshallow,
    hsession s hs hshallow false⟩

end StreamLexer
