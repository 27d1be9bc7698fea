import StreamLexer.Proofs.Flat.Invariant

/-!
# Requests with flat state

The loops that answer requests, over checked steps with flat state, up to the lexing of a whole
source. They are told by relations, which hold of nothing where a check fails. A session and its
flat state go through them alike: `Session.Small.gives_iff`, `FlatSession.lexes_iff`. So what is
proved of sessions and of `lex` is said of flat state too.

Flat state counts open quotations in 32 bits, a session without a bound. Each opener takes a byte,
so no more are open than bytes have been passed (`Reachable.quotations_le`), and the two agree on
all input of fewer than `2 ^ 32` bytes.
-/
namespace StreamLexer

/-! ## Requests -/

/-- The answer that a run of steps ends with after this outcome, if it ends. -/
def Step.answer? : Step → Option (Poll LexError Token)
  | .proceed => none
  | .emit token => some (.done token)
  | .fail error => some (.failed error)
  | .starved => some .pending

/-- What is left of the tokens and of an error with this answer, unless it is a token before the end
of input. -/
def Poll.rest? : Poll LexError Token → Option (List Token × Option LexError)
  | .done token => if token.kind.isEof then some ([token], none) else none
  | .failed error => some ([], some error)
  | .pending => some ([], none)

namespace FlatSession

/-- Steps until there is a token, an error, or no more to decide. -/
inductive Runs (strict : Bool) : FlatSession → FlatSession × Poll LexError Token → Prop
  | proceed {f g : FlatSession} {r : FlatSession × Poll LexError Token}
      (step : f.step strict = some (g, .proceed)) (rest : Runs strict g r) : Runs strict f r
  | ends {f g : FlatSession} {outcome : Step} {answer : Poll LexError Token}
      (step : f.step strict = some (g, outcome)) (final : outcome.answer? = some answer) :
      Runs strict f (g, answer)

/-- An error ends the session. It is attributed to a comment if one is open. -/
def answered : FlatSession × Poll LexError Token → FlatSession × Poll LexError Token
  | (g, .failed error) => (g.halt (g.attributed error), .failed (g.attributed error))
  | r => r

section Requests

variable (strict : Bool)

/-- Asks for a token, be it for the first time or for what is left of a request. -/
def GoesOn (f : FlatSession) (r : FlatSession × Poll LexError Token) : Prop :=
  ∃ r', f.Runs strict r' ∧ answered r' = r

/-- Asks for a token, unless the session has failed. -/
def Gives (f : FlatSession) (r : FlatSession × Poll LexError Token) : Prop :=
  match f.failure with
  | some error => r = (f, .failed error)
  | none => f.GoesOn strict r

/-- Asks for a token that is not a comment. Behind a comment it is a new request, which looks for a
failure. -/
inductive GoesOnSignificant : FlatSession → FlatSession × Poll LexError Token → Prop
  | comment {f g : FlatSession} {token : Token} {r : FlatSession × Poll LexError Token}
      (next : f.GoesOn strict (g, .done token)) (comment : token.kind.isComment = true)
      (healthy : g.failure = none) (rest : GoesOnSignificant g r) : GoesOnSignificant f r
  | halted {f g : FlatSession} {token : Token} {error : LexError}
      (next : f.GoesOn strict (g, .done token)) (comment : token.kind.isComment = true)
      (failure : g.failure = some error) : GoesOnSignificant f (g, .failed error)
  | ends {f g : FlatSession} {answer : Poll LexError Token} (next : f.GoesOn strict (g, answer))
      (other : ∀ token, answer = .done token → token.kind.isComment = false) :
      GoesOnSignificant f (g, answer)

/-- Asks for a token that is not a comment, unless the session has failed. -/
def GivesSignificant (f : FlatSession) (r : FlatSession × Poll LexError Token) : Prop :=
  match f.failure with
  | some error => r = (f, .failed error)
  | none => f.GoesOnSignificant strict r

/-- All tokens that can be had without more input, up to the end token or an error. -/
inductive GivesAll : FlatSession → FlatSession × List Token × Option LexError → Prop
  | token {f g : FlatSession} {token : Token} {r : FlatSession × List Token × Option LexError}
      (next : f.Gives strict (g, .done token)) (more : token.kind.isEof = false)
      (rest : GivesAll g r) : GivesAll f (r.1, token :: r.2.1, r.2.2)
  | ends {f g : FlatSession} {answer : Poll LexError Token} {rest : List Token × Option LexError}
      (next : f.Gives strict (g, answer)) (final : answer.rest? = some rest) :
      GivesAll f (g, rest)

/-- Lexes a whole source. -/
def Lexes (source : List UInt8) (config : Config) (output : LexOutput) : Prop :=
  ∃ r, (ofSource config source).GivesAll strict r ∧
    output = ⟨r.2.1, r.1.warnings.toList, r.2.2⟩

end Requests

/-! ## How a loop goes on -/

section Loops

variable {strict : Bool} {f g : FlatSession} {token : Token}
  {r : FlatSession × Poll LexError Token}

theorem runs_of_proceed (h : f.step strict = some (g, .proceed)) :
    f.Runs strict r ↔ g.Runs strict r := by
  refine ⟨fun hr => ?_, .proceed h⟩
  cases hr with
  | proceed step rest =>
    rw [h] at step
    cases step
    exact rest
  | ends step final =>
    rw [h] at step
    cases step
    cases final

theorem runs_of_ends {outcome : Step} {answer : Poll LexError Token}
    (h : f.step strict = some (g, outcome)) (hfinal : outcome.answer? = some answer) :
    f.Runs strict r ↔ r = (g, answer) := by
  refine ⟨fun hr => ?_, fun hr => hr ▸ .ends h hfinal⟩
  cases hr with
  | proceed step rest =>
    rw [h] at step
    cases step
    cases hfinal
  | ends step final =>
    rw [h] at step
    cases step
    rw [hfinal] at final
    cases final
    rfl

/-- The session gives a comment, and the request is made again. -/
theorem goesOnSignificant_of_comment (h : ∀ r, f.GoesOn strict r ↔ r = (g, .done token))
    (hcomment : token.kind.isComment = true) (hhealthy : g.failure = none) :
    f.GoesOnSignificant strict r ↔ g.GoesOnSignificant strict r := by
  refine ⟨fun hr => ?_, .comment ((h _).mpr rfl) hcomment hhealthy⟩
  cases hr with
  | comment next comment healthy rest =>
    cases (h _).mp next
    exact rest
  | halted next comment failure =>
    cases (h _).mp next
    rw [hhealthy] at failure
    cases failure
  | ends next other =>
    cases (h _).mp next
    rw [other token rfl] at hcomment
    cases hcomment

theorem goesOnSignificant_of_halted {error : LexError}
    (h : ∀ r, f.GoesOn strict r ↔ r = (g, .done token)) (hcomment : token.kind.isComment = true)
    (hfailure : g.failure = some error) :
    f.GoesOnSignificant strict r ↔ r = (g, .failed error) := by
  refine ⟨fun hr => ?_, fun hr => hr ▸ .halted ((h _).mpr rfl) hcomment hfailure⟩
  cases hr with
  | comment next comment healthy rest =>
    cases (h _).mp next
    rw [hfailure] at healthy
    cases healthy
  | halted next comment failure =>
    cases (h _).mp next
    rw [hfailure] at failure
    cases failure
    rfl
  | ends next other =>
    cases (h _).mp next
    rw [other token rfl] at hcomment
    cases hcomment

theorem goesOnSignificant_of_ends {answer : Poll LexError Token}
    (h : ∀ r, f.GoesOn strict r ↔ r = (g, answer))
    (hother : ∀ token, answer = .done token → token.kind.isComment = false) :
    f.GoesOnSignificant strict r ↔ r = (g, answer) := by
  refine ⟨fun hr => ?_, fun hr => hr ▸ .ends ((h _).mpr rfl) hother⟩
  cases hr with
  | comment next comment healthy rest =>
    cases (h _).mp next
    rw [hother _ rfl] at comment
    cases comment
  | halted next comment failure =>
    cases (h _).mp next
    rw [hother _ rfl] at comment
    cases comment
  | ends next other => exact (h _).mp next

theorem givesAll_of_token {r : FlatSession × List Token × Option LexError}
    (h : ∀ r, f.Gives strict r ↔ r = (g, .done token)) (hmore : token.kind.isEof = false) :
    f.GivesAll strict r ↔ ∃ r', g.GivesAll strict r' ∧ r = (r'.1, token :: r'.2.1, r'.2.2) := by
  constructor
  · intro hr
    cases hr with
    | token next more rest =>
      cases (h _).mp next
      exact ⟨_, rest, rfl⟩
    | ends next final =>
      cases (h _).mp next
      simp [Poll.rest?, hmore] at final
  · rintro ⟨r', hr', rfl⟩
    exact .token ((h _).mpr rfl) hmore hr'

theorem givesAll_of_ends {r : FlatSession × List Token × Option LexError}
    {answer : Poll LexError Token} {rest : List Token × Option LexError}
    (h : ∀ r, f.Gives strict r ↔ r = (g, answer)) (hfinal : answer.rest? = some rest) :
    f.GivesAll strict r ↔ r = (g, rest) := by
  refine ⟨fun hr => ?_, fun hr => hr ▸ .ends ((h _).mpr rfl) hfinal⟩
  cases hr with
  | token next more rest =>
    cases (h _).mp next
    simp [Poll.rest?, more] at hfinal
  | ends next final =>
    cases (h _).mp next
    rw [hfinal] at final
    cases final
    rfl

end Loops

end FlatSession

/-! ## Open quotations and bytes -/

/-- Number of open quotations. -/
def Mode.quotations : Mode → Nat
  | .quotation q => q.inner + 1
  | _ => 0

/-- The answer with its error before it is attributed to a comment. -/
def Poll.raw : Poll LexError Token → Poll LexError Token
  | .failed e => .failed e.raw
  | .done token => .done token
  | .pending => .pending

namespace Session

section Actions

variable (s : Session)

theorem actCode_quotations (rule : TokenRule) (lexeme : List UInt8) :
    (s.actCode rule lexeme).1.mode.quotations ≤ s.mode.quotations + 1 := by
  cases rule with
  | word rule =>
    simp only [actCode]
    split <;> exact Nat.le_add_right _ _
  | _ => simp [actCode, goOn, moveTo, warn, Mode.quotations]

theorem closeString_quotations (o : OpenString) (text terminator : List UInt8) :
    (s.closeString o text terminator).1.mode.quotations = 0 := by
  unfold closeString
  split <;> rfl

theorem actComment_quotations (c : OpenComment) (text : List UInt8) (rule : CommentRule)
    (lexeme : List UInt8) :
    (s.actComment c text rule lexeme).1.mode.quotations ≤ s.mode.quotations + 1 := by
  cases rule with
  | close =>
    simp only [actComment]
    split <;> exact Nat.zero_le _
  | endOfInput => exact Nat.le_add_right _ _
  | _ => exact Nat.zero_le _

theorem actString_quotations (o : OpenString) (text : List UInt8) (rule : StringRule)
    (lexeme : List UInt8) :
    (s.actString o text rule lexeme).1.mode.quotations ≤ s.mode.quotations + 1 := by
  cases rule with
  | close => simp [actString, closeString_quotations]
  | decimalEscape =>
    simp only [actString]
    split
    · exact Nat.zero_le _
    · split
      · exact Nat.zero_le _
      · exact Nat.le_add_right _ _
  | endOfInput => exact Nat.le_add_right _ _
  | _ => exact Nat.zero_le _

theorem actQuoted_quotations (o : OpenString) (id text : List UInt8) (rule : QuotedRule)
    (lexeme : List UInt8) :
    (s.actQuoted o id text rule lexeme).1.mode.quotations ≤ s.mode.quotations + 1 := by
  cases rule with
  | terminator =>
    simp only [actQuoted]
    split
    · simp [closeString_quotations]
    · exact Nat.zero_le _
  | endOfInput => exact Nat.le_add_right _ _
  | _ => exact Nat.zero_le _

theorem actQuotation_quotations {s : Session} {q : OpenQuotation} (hmode : s.mode = .quotation q)
    (rule : QuotationRule) (n : Nat) :
    (s.actQuotation q rule n).1.mode.quotations ≤ s.mode.quotations + 1 := by
  rw [hmode]
  cases rule with
  | close =>
    simp only [actQuotation]
    split
    · rename_i inner hinner
      simp only [goOn, Mode.quotations, hinner]
      omega
    · exact Nat.zero_le _
  | nestedOpen => exact Nat.le_refl _
  | endOfInput => simp [actQuotation, moveTo, hmode]
  | _ => exact Nat.le_add_right _ _

/-- A lexeme opens at most one quotation and has at least one byte, but at the end of input, where
nothing is opened. -/
theorem onFound_quotations {ρ : Type} {s : Session} {scan : Lookahead → Verdict ρ} {last : ρ}
    (hbounded : Bounded scan last) (h : s.mode.quotations ≤ s.pos.offset)
    {act : ρ → Nat → Session × Step}
    (htakes : ∀ rule n, n ≤ s.lookahead.bytes.length → s.Takes n (act rule n))
    (hopens : ∀ rule n, (act rule n).1.mode.quotations ≤ s.mode.quotations + 1)
    (hlast : (act last 0).1.mode = s.mode) :
    (s.onFound (scan s.lookahead) act).1.mode.quotations ≤
      (s.onFound (scan s.lookahead) act).1.pos.offset := by
  cases hscan : scan s.lookahead with
  | undecided => exact h
  | found rule n =>
    show (act rule n).1.mode.quotations ≤ (act rule n).1.pos.offset
    rcases hbounded.found _ rule n hscan with ⟨rfl, rfl⟩ | ⟨hpos, hle⟩
    · have hoffset := (htakes rule 0 (Nat.zero_le _)).2.2.1
      rw [hlast]
      omega
    · have hoffset := (htakes rule n hle).2.2.1
      have hopened := hopens rule n
      omega

end Actions

/-- A step keeps it so that no more quotations are open than bytes have been passed. -/
theorem step_quotations_le {s : Session} (h : s.mode.quotations ≤ s.pos.offset) :
    s.step.1.mode.quotations ≤ s.step.1.pos.offset := by
  -- all but the header and quotations act on the lexeme, which is as long as the scan says
  have htake : ∀ {n : Nat} {r : Session × Step}, n ≤ s.lookahead.bytes.length →
      s.Takes (s.lookahead.bytes.take n).length r → s.Takes n r := by
    intro n r hn htakes
    rwa [List.length_take_of_le hn] at htakes
  unfold step stepOn
  split
  · split
    · cases HeaderRule.scan s.lookahead with
      | undecided => exact h
      | found rule n =>
        have hmode : (s.actHeader rule n).1.mode = s.mode := by cases rule <;> rfl
        show (s.actHeader rule n).1.mode.quotations ≤ (s.actHeader rule n).1.pos.offset
        rw [hmode]
        exact Nat.le_trans h (s.actHeader_commits rule n).le_offset
    · exact onFound_quotations TokenRule.bounded h
        (fun rule n hn => htake hn (actCode_takes s rule _))
        (fun rule n => s.actCode_quotations rule _) rfl
  · rename_i c text hmode
    exact onFound_quotations CommentRule.bounded h
      (fun rule n hn => htake hn (actComment_takes s c text rule _))
      (fun rule n => s.actComment_quotations c text rule _) rfl
  · rename_i o text hmode
    split
    · exact onFound_quotations StringRule.bounded h
        (fun rule n hn => htake hn (actString_takes s o text rule _))
        (fun rule n => s.actString_quotations o text rule _) rfl
    · rename_i id _
      exact onFound_quotations QuotedRule.bounded h
        (fun rule n hn => htake hn (actQuoted_takes s o id text rule _))
        (fun rule n => s.actQuoted_quotations o id text rule _) rfl
  · rename_i q hmode
    exact onFound_quotations QuotationRule.bounded h
      (fun rule n _ => actQuotation_takes s q rule n)
      (fun rule n => actQuotation_quotations hmode rule n) rfl

/-- No more quotations are open than bytes have been passed. -/
theorem Reachable.quotations_le {config : Config} {s : Session} (h : Reachable config s) :
    s.mode.quotations ≤ s.pos.offset :=
  h.invariant (fun s => s.mode.quotations ≤ s.pos.offset) (Nat.le_refl _) (fun _ => Nat.le_refl _)
    (fun _ _ hs => hs) (fun _ hs => hs) (fun _ hs => hs) (fun _ hs => step_quotations_le hs)
    (fun _ _ _ => Nat.zero_le _)

/-- The session stands within what it holds, and in input of which 32 bits can count the
quotations. -/
structure Small (s : Session) : Prop where
  inWindow : s.InWindow
  quotations_le : s.mode.quotations ≤ s.pos.offset
  stop_lt : s.window.stop < 2 ^ 32

/-- Wherever requests lead to, that is so as long as there have been fewer than `2 ^ 32` bytes. -/
theorem Reachable.small {config : Config} {s : Session} (h : Reachable config s)
    (hstop : s.window.stop < 2 ^ 32) : s.Small :=
  ⟨h.inWindow, h.quotations_le, hstop⟩

/-- The error that a run ends with is that of its last step. -/
theorem run_attributes {s t : Session} {error : LexError} (h : s.run = (t, .failed error)) :
    t.flatten.attributed error.raw = error := by
  induction s using run.induct with
  | case1 s s' hstep ih => exact ih (by rw [← run_of_proceed hstep, h])
  | case2 s s' token hstep =>
    rw [run_of_emit hstep] at h
    cases h
  | case3 s s' error' hstep =>
    rw [run_of_fail hstep] at h
    cases h
    have hattributes := step_attributes s
    rw [hstep] at hattributes
    exact hattributes _ rfl
  | case4 s s' hstep =>
    rw [run_of_starved hstep] at h
    cases h

namespace Small

variable {s : Session}

theorem step (h : s.Small) : s.step.1.Small := by
  refine ⟨h.inWindow.step, step_quotations_le h.quotations_le, ?_⟩
  have hwindow : s.step.1.window = s.window := stepOn_window s _
  rw [hwindow]
  exact h.stop_lt

theorem halt (h : s.Small) (error : LexError) : (s.halt error).Small :=
  ⟨⟨h.inWindow.base_le, h.inWindow.le_stop⟩, Nat.zero_le _, h.stop_lt⟩

theorem next (h : s.Small) : s.next.1.Small :=
  next_preserves (fun _ => step) (fun _ error hs => hs.halt error) h

/-- Where the opener of one more quotation is held, it is held within `2 ^ 32` bytes. -/
theorem not_nestsTooDeep (h : s.Small) : ¬ s.flatten.NestsTooDeep := by
  rintro ⟨hstack, hdeep, n, hscan⟩
  have hquotations : s.flatten.scratch.quotationDepth = s.mode.quotations := by
    cases hmode : s.mode with
    | quotation q => simp [flatten, hmode, Mode.scratch, Mode.quotations]
    | string o text =>
      obtain ⟨opener, delimiter, enclosing⟩ := o
      cases enclosing <;> simp [flatten, hmode, Mode.scratch, Mode.quotations]
    | _ => simp [flatten, hmode, Mode.scratch, Mode.quotations]
  have hopener : QuotationRule.scan s.lookahead = .found .nestedOpen n := hscan
  have hlength := h.inWindow.length_lookahead
  have hle := h.quotations_le
  have hstop := h.stop_lt
  rcases QuotationRule.bounded.found _ _ n hopener with ⟨hrule, -⟩ | ⟨hpos, hwithin⟩
  · cases hrule
  · omega

/-! ## In lockstep -/

/-- The step with flat state is that of the session, whatever is in the input. -/
theorem step_flatten (h : s.Small) (strict : Bool) :
    s.flatten.step strict = some (flattened s.step) :=
  Session.step_flatten h.inWindow h.not_nestsTooDeep strict

theorem runs_iff (h : s.Small) (strict : Bool) {r : FlatSession × Poll LexError Token} :
    s.flatten.Runs strict r ↔ r = (s.run.1.flatten, s.run.2.raw) := by
  have hflat := h.step_flatten strict
  have hsmall := h.step
  induction s using run.induct with
  | case1 s t hstep ih =>
    rw [hstep] at hflat hsmall
    rw [FlatSession.runs_of_proceed hflat, run_of_proceed hstep]
    exact ih hsmall (hsmall.step_flatten strict) hsmall.step
  | case2 s t token hstep =>
    rw [hstep] at hflat
    rw [FlatSession.runs_of_ends hflat rfl, run_of_emit hstep]
    rfl
  | case3 s t error hstep =>
    rw [hstep] at hflat
    rw [FlatSession.runs_of_ends hflat rfl, run_of_fail hstep]
    rfl
  | case4 s t hstep =>
    rw [hstep] at hflat
    rw [FlatSession.runs_of_ends hflat rfl, run_of_starved hstep]
    rfl

theorem goesOn_iff (h : s.Small) (strict : Bool) (r : FlatSession × Poll LexError Token) :
    s.flatten.GoesOn strict r ↔ r = (s.next.1.flatten, s.next.2) := by
  have hanswered : FlatSession.answered (s.run.1.flatten, s.run.2.raw) =
      (s.next.1.flatten, s.next.2) := by
    rw [Session.next]
    cases hrun : s.run with
    | mk t answer =>
      cases answer with
      | failed error =>
        have hattributed : t.flatten.attributed error.raw = error := run_attributes hrun
        show (t.flatten.halt (t.flatten.attributed error.raw),
          Poll.failed (t.flatten.attributed error.raw)) = _
        rw [hattributed]
        rfl
      | done token => rfl
      | pending => rfl
  simp only [FlatSession.GoesOn, h.runs_iff, exists_eq_left, hanswered, eq_comm]

theorem goesOnSignificant_iff (h : s.Small) (strict : Bool)
    (r : FlatSession × Poll LexError Token) :
    s.flatten.GoesOnSignificant strict r ↔
      r = (s.nextSignificant.1.flatten, s.nextSignificant.2) := by
  induction hweight : s.weight using Nat.strongRecOn generalizing s with
  | ind n ih =>
    subst hweight
    have hsmall := h.next
    have hgoesOn := h.goesOn_iff strict
    cases hnext : s.next with
    | mk t answer =>
      rw [hnext] at hsmall hgoesOn
      cases answer with
      | failed error =>
        rw [FlatSession.goesOnSignificant_of_ends hgoesOn nofun, nextSignificant_of_failed hnext]
      | pending =>
        rw [FlatSession.goesOnSignificant_of_ends hgoesOn nofun, nextSignificant_of_pending hnext]
      | done token =>
        cases hcomment : token.kind.isComment with
        | false =>
          rw [nextSignificant_of_done hnext hcomment]
          refine FlatSession.goesOnSignificant_of_ends hgoesOn fun token' htoken => ?_
          cases htoken
          exact hcomment
        | true =>
          cases hfailure : t.failure with
          | none =>
            rw [FlatSession.goesOnSignificant_of_comment hgoesOn hcomment hfailure,
              nextSignificant_of_comment hnext hcomment hfailure]
            exact ih t.weight (next_weight_lt hnext (isEof_of_isComment hcomment)) hsmall rfl
          | some error =>
            rw [FlatSession.goesOnSignificant_of_halted hgoesOn hcomment hfailure,
              nextSignificant_eq, hnext]
            simp only [hcomment, if_true, hfailure]

end Small

/-- The answer to a request, without what is left of it. -/
def answer (r : Session × Progress Session LexError Token) :
    FlatSession × Poll LexError Token :=
  (r.1.flatten,
    match r.2 with
    | .done token => .done token
    | .failed error => .failed error
    | .needMore _ => .pending)

theorem answer_poll (ask : Session → Session × Poll LexError Token) (s : Session) :
    answer ((Resumable.poll ask).start s) = ((ask s).1.flatten, (ask s).2) := by
  simp only [Resumable.start]
  split <;> simp [answer, *]

namespace Small

variable {s : Session}

/-- Requests of a session, and what is left of those that it could not answer, are answered with
flat state alike. -/
theorem gives_iff (h : s.Small) (strict : Bool) (r : FlatSession × Poll LexError Token) :
    (s.flatten.Gives strict r ↔ r = answer s.token) ∧
      (s.flatten.GoesOn strict r ↔ r = answer (resumeToken.start s)) ∧
      (s.flatten.GivesSignificant strict r ↔ r = answer s.significantToken) ∧
      (s.flatten.GoesOnSignificant strict r ↔ r = answer (resumeSignificant.start s)) := by
  have hnext : s.flatten.GoesOn strict r ↔ r = answer (resumeToken.start s) := by
    rw [resumeToken, answer_poll, h.goesOn_iff]
  have hsignificant : s.flatten.GoesOnSignificant strict r ↔
      r = answer (resumeSignificant.start s) := by
    rw [resumeSignificant, answer_poll, h.goesOnSignificant_iff]
  refine ⟨?_, hnext, ?_, hsignificant⟩
  · unfold FlatSession.Gives Session.token
    rw [show s.flatten.failure = s.failure from rfl]
    cases s.failure with
    | some error => rfl
    | none => exact hnext
  · unfold FlatSession.GivesSignificant Session.significantToken
    rw [show s.flatten.failure = s.failure from rfl]
    cases s.failure with
    | some error => rfl
    | none => exact hsignificant

theorem givesAll_iff (h : s.Small) (hfailure : s.failure = none) (strict : Bool)
    (r : FlatSession × List Token × Option LexError) :
    s.flatten.GivesAll strict r ↔ r = (s.tokens.1.flatten, s.tokens.2) := by
  induction hweight : s.weight using Nat.strongRecOn generalizing s r with
  | ind n ih =>
    subst hweight
    have hsmall := h.next
    have hgives : ∀ r, s.flatten.Gives strict r ↔ r = (s.next.1.flatten, s.next.2) := by
      intro r
      rw [FlatSession.Gives, show s.flatten.failure = none from hfailure]
      exact h.goesOn_iff strict r
    cases hnext : s.next with
    | mk t answer =>
      rw [hnext] at hsmall hgives
      cases answer with
      | failed error => rw [FlatSession.givesAll_of_ends hgives rfl, tokens_of_failed hnext]
      | pending => rw [FlatSession.givesAll_of_ends hgives rfl, tokens_of_pending hnext]
      | done token =>
        cases heof : token.kind.isEof with
        | true =>
          rw [FlatSession.givesAll_of_ends hgives (by simp [Poll.rest?, heof]; rfl),
            tokens_of_eof hnext heof]
        | false =>
          have hhealthy : t.failure = none := by
            have hrun := run_failure s
            rw [run_of_next_done hnext, hfailure] at hrun
            exact hrun
          rw [FlatSession.givesAll_of_token hgives heof, tokens_of_done hnext heof]
          simp only [ih t.weight (next_weight_lt hnext heof) hsmall hhealthy _ rfl,
            exists_eq_left]

end Small

end Session

/-! ## Whole sources -/

/-- Lexing a source of fewer than `2 ^ 32` bytes with flat state, where every step is checked, gives
what lexing it gives. -/
theorem FlatSession.lexes_iff {source : List UInt8} (h : source.length < 2 ^ 32) (config : Config)
    (strict : Bool) (output : LexOutput) :
    FlatSession.Lexes strict source config output ↔ output = lex source config := by
  have hstop : (Session.ofSource config source).window.stop = source.length := Nat.zero_add _
  have hsmall : (Session.ofSource config source).Small :=
    (Session.Reachable.ofSource source).small (hstop ▸ h)
  have hflat : FlatSession.ofSource config source = (Session.ofSource config source).flatten := rfl
  simp only [Lexes, hflat, hsmall.givesAll_iff rfl, exists_eq_left]
  exact Iff.rfl

end StreamLexer
