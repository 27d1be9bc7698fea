import StreamLexer.Proofs.Session.Closed
import StreamLexer.Proofs.Session.Growth
import StreamLexer.Proofs.Session.Output

/-!
# Requests that pass over comments

`Session.nextSignificant` repeats `Session.next` as long as that gives comments, so it inherits what
is known of it: a session over a part of a source answers like the one over the whole of it
(`request_alike`), and its answers are the outcomes of lexing without the comments (`kept_of_done`
and the lemmas beside it). `Session.request` is either of the two kinds of request.
-/
namespace StreamLexer

namespace Session

/-- Asks for the next token, or for the next one that is not a comment. -/
def request (skipComments : Bool) (s : Session) : Session × Poll LexError Token :=
  if skipComments then s.nextSignificant else s.next

/-! ## Along the comments -/

section Equations

variable {s t : Session} {token : Token}

theorem nextSignificant_congr (h : s.next = t.next) : s.nextSignificant = t.nextSignificant := by
  rw [nextSignificant_eq s, nextSignificant_eq t, h]

theorem nextSignificant_of_comment (h : s.next = (t, .done token))
    (hcomment : token.kind.isComment = true) (hfailure : t.failure = none) :
    s.nextSignificant = t.nextSignificant := by
  rw [nextSignificant_eq s, h]
  simp only [hcomment, if_true, hfailure]

theorem nextSignificant_of_done (h : s.next = (t, .done token))
    (hcomment : token.kind.isComment = false) : s.nextSignificant = (t, .done token) := by
  rw [nextSignificant_eq s, h]
  simp only [hcomment, Bool.false_eq_true, if_false]

theorem nextSignificant_of_failed {error : LexError} (h : s.next = (t, .failed error)) :
    s.nextSignificant = (t, .failed error) := by
  rw [nextSignificant_eq s, h]

theorem nextSignificant_of_pending (h : s.next = (t, .pending)) :
    s.nextSignificant = (t, .pending) := by
  rw [nextSignificant_eq s, h]

end Equations

/-- What every step and every error preserves, a request that passes over comments preserves. -/
theorem nextSignificant_preserves {P : Session → Prop} (hstep : ∀ s, P s → P s.step.1)
    (hhalt : ∀ s error, P s → P (s.halt error)) {s : Session} (h : P s) :
    P s.nextSignificant.1 := by
  induction hweight : s.weight using Nat.strongRecOn generalizing s with
  | ind n ih =>
    subst hweight
    have hnext := next_preserves hstep hhalt h
    rw [nextSignificant_eq]
    split
    · rename_i t token heq
      rw [heq] at hnext
      split
      · rename_i hcomment
        split
        · exact hnext
        · exact ih t.weight (next_weight_lt heq (isEof_of_isComment hcomment)) hnext rfl
      · exact hnext
    · exact hnext

/-! ## The session over the whole source -/

/-- How a session over a part of a source and the one over the whole of it answer the same request:
the first one waits, and the other answer is still the same afterwards, or both answer alike. -/
inductive AnswersAlike (ask : Session → Session × Poll LexError Token) (source left : List UInt8)
    (a : Surroundings) (s : Session) : Prop
  | waits {t : Session} (part : ask s = (t, .pending)) (opened : s.window.closed = false)
      (window : t.window = s.window) (holds : t.Holds source left) (healthy : t.failure = none)
      (whole : ask (t.within a) = ask (s.within a))
  | gives {t : Session} {token : Token} (part : ask s = (t, .done token))
      (window : t.window = s.window) (holds : t.Holds source left) (healthy : t.failure = none)
      (whole : ask (s.within a) = (t.within a, .done token))
  | fails {t : Session} {error : LexError} (part : ask s = (t, .failed error))
      (whole : ask (s.within a) =
        (t.within { a with failure := some error }, .failed error))

section Whole

variable {s : Session} {source left : List UInt8} {a : Surroundings}

theorem next_alike (h : s.Holds source left) (ha : a.window = .ofSource source)
    (hhealthy : s.failure = none) : AnswersAlike next source left a s := by
  obtain ⟨hholds, hcases⟩ := next_whole h ha
  have hwindow := next_window s
  cases hnext : s.next with
  | mk t answer =>
    rw [hnext] at hholds hcases hwindow
    rcases hcases with ⟨rfl, hopen, hfailure, hwhole⟩ | ⟨token, rfl, hfailure, hwhole⟩ |
      ⟨error, rfl, -, hwhole⟩
    · exact .waits hnext hopen hwindow hholds (hfailure.trans hhealthy) hwhole
    · exact .gives hnext hwindow hholds (hfailure.trans hhealthy) hwhole
    · exact .fails hnext hwhole

theorem nextSignificant_alike (h : s.Holds source left) (ha : a.window = .ofSource source)
    (hhealthy : s.failure = none) (hafailure : a.failure = none) :
    AnswersAlike nextSignificant source left a s := by
  -- along the comments that are passed over; the other session passes over the same ones
  induction hweight : s.weight using Nat.strongRecOn generalizing s with
  | ind n ih =>
    subst hweight
    cases next_alike h ha hhealthy with
    | waits part opened window holds healthy whole =>
      exact .waits (nextSignificant_of_pending part) opened window holds healthy
        (nextSignificant_congr whole)
    | fails part whole =>
      exact .fails (nextSignificant_of_failed part) (nextSignificant_of_failed whole)
    | @gives t token part hwindow holds healthy whole =>
      by_cases hcomment : token.kind.isComment = true
      · have hlt := next_weight_lt part (isEof_of_isComment hcomment)
        have hpart := nextSignificant_of_comment part hcomment healthy
        have hwhole := nextSignificant_of_comment whole hcomment hafailure
        cases ih t.weight hlt holds healthy rfl with
        | waits part opened window holds healthy whole =>
          exact .waits (hpart.trans part) (hwindow ▸ opened) (window.trans hwindow) holds healthy
            (whole.trans hwhole.symm)
        | gives part window holds healthy whole =>
          exact .gives (hpart.trans part) (window.trans hwindow) holds healthy
            (hwhole.trans whole)
        | fails part whole => exact .fails (hpart.trans part) (hwhole.trans whole)
      · have hother : token.kind.isComment = false := by simpa using hcomment
        exact .gives (nextSignificant_of_done part hother) hwindow holds healthy
          (nextSignificant_of_done whole hother)

theorem request_alike (skipComments : Bool) (h : s.Holds source left)
    (ha : a.window = .ofSource source) (hhealthy : s.failure = none)
    (hafailure : a.failure = none) :
    AnswersAlike (request skipComments) source left a s := by
  cases skipComments with
  | false => exact next_alike h ha hhealthy
  | true => exact nextSignificant_alike h ha hhealthy hafailure

end Whole

end Session

/-! ## Outcomes without comments -/

/-- The outcome is a comment. -/
def isCommentOutcome : Except LexError Token → Bool
  | .ok token => token.kind.isComment
  | .error _ => false

/-- The outcomes, without the comments if those are to be left out. -/
def keptOutcomes (skipComments : Bool) (outcomes : List (Except LexError Token)) :
    List (Except LexError Token) :=
  if skipComments then outcomes.filter fun o => !isCommentOutcome o else outcomes

theorem keptOutcomes_cons {skipComments : Bool} {o : Except LexError Token}
    (ho : skipComments = true → isCommentOutcome o = false)
    (outcomes : List (Except LexError Token)) :
    keptOutcomes skipComments (o :: outcomes) = o :: keptOutcomes skipComments outcomes := by
  cases skipComments with
  | false => rfl
  | true => simp [keptOutcomes, ho rfl]

namespace Session

section Kept

variable {s t : Session} {skipComments : Bool} {token : Token}

/-- A request that is answered with a token leaves the failure as it is. -/
theorem failure_of_next_done (h : s.next = (t, .done token)) : t.failure = s.failure := by
  have hfailure := run_failure s
  rwa [run_of_next_done h] at hfailure

/-- A request goes over comments, none of which it keeps, to a session whose next token it keeps. -/
theorem exists_request (hhealthy : s.failure = none) (skipComments : Bool) :
    ∃ r : Session, s.request skipComments = r.next ∧
      (∀ t token, r.next = (t, .done token) → skipComments = true →
        token.kind.isComment = false) ∧
      keptOutcomes skipComments s.output.outcomes = keptOutcomes skipComments r.output.outcomes ∧
      s.output.warnings = r.output.warnings := by
  cases skipComments with
  | false =>
    refine ⟨s, rfl, ?_, rfl, rfl⟩
    intro t token _ hskip
    cases hskip
  | true =>
    induction hweight : s.weight using Nat.strongRecOn generalizing s with
    | ind n ih =>
      subst hweight
      by_cases hcomment : ∃ t token, s.next = (t, .done token) ∧ token.kind.isComment = true
      · obtain ⟨t, token, hnext, hkind⟩ := hcomment
        have heof := isEof_of_isComment hkind
        have hfailure : t.failure = none := (failure_of_next_done hnext).trans hhealthy
        obtain ⟨r, hrequest, hother, hkept, hwarnings⟩ :=
          ih t.weight (next_weight_lt hnext heof) hfailure rfl
        refine ⟨r, (nextSignificant_of_comment hnext hkind hfailure).trans hrequest, hother, ?_,
          (warnings_of_done hnext heof).trans hwarnings⟩
        rw [outcomes_of_done hnext heof, ← hkept]
        simp [keptOutcomes, isCommentOutcome, hkind]
      · push Not at hcomment
        refine ⟨s, ?_, fun t token hnext _ => by simpa using hcomment t token hnext, rfl, rfl⟩
        show s.nextSignificant = s.next
        cases hnext : s.next with
        | mk t answer =>
          cases answer with
          | done token =>
            exact nextSignificant_of_done hnext (by simpa using hcomment t token hnext)
          | failed error => exact nextSignificant_of_failed hnext
          | pending => exact nextSignificant_of_pending hnext

theorem kept_of_done (hhealthy : s.failure = none) (h : s.request skipComments = (t, .done token))
    (heof : token.kind.isEof = false) :
    keptOutcomes skipComments s.output.outcomes =
        .ok token :: keptOutcomes skipComments t.output.outcomes ∧
      s.output.warnings = t.output.warnings := by
  obtain ⟨r, hrequest, hother, hkept, hwarnings⟩ := exists_request hhealthy skipComments
  have hnext : r.next = (t, .done token) := hrequest.symm.trans h
  rw [hkept, hwarnings, outcomes_of_done hnext heof, warnings_of_done hnext heof]
  exact ⟨keptOutcomes_cons (hother t token hnext) _, rfl⟩

theorem kept_of_eof (hhealthy : s.failure = none) (h : s.request skipComments = (t, .done token))
    (heof : token.kind.isEof = true) :
    keptOutcomes skipComments s.output.outcomes = [.ok token] ∧
      s.output.warnings = t.warnings.toList := by
  obtain ⟨r, hrequest, hother, hkept, hwarnings⟩ := exists_request hhealthy skipComments
  have hnext : r.next = (t, .done token) := hrequest.symm.trans h
  rw [hkept, hwarnings, outcomes_of_eof hnext heof, warnings_of_eof hnext heof,
    keptOutcomes_cons (hother t token hnext)]
  exact ⟨by simp [keptOutcomes], rfl⟩

theorem kept_of_failed (hhealthy : s.failure = none) {error : LexError}
    (h : s.request skipComments = (t, .failed error)) :
    keptOutcomes skipComments s.output.outcomes = [.error error] ∧
      s.output.warnings = t.warnings.toList := by
  obtain ⟨r, hrequest, hother, hkept, hwarnings⟩ := exists_request hhealthy skipComments
  have hnext : r.next = (t, .failed error) := hrequest.symm.trans h
  rw [hkept, hwarnings, outcomes_of_failed hnext, warnings_of_failed hnext,
    keptOutcomes_cons fun _ => rfl]
  exact ⟨by simp [keptOutcomes], rfl⟩

end Kept

end Session

end StreamLexer
