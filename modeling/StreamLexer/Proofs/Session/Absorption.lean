import StreamLexer.Proofs.Flat.Invariant
import StreamLexer.Proofs.Session.Course
import StreamLexer.Proofs.Session.Filtering

/-!
# Sessions that have come to an end

An error and the end token are the last things that a session has to say. The error is remembered,
the end token is found again each time, since source code is to be read and nothing is left of it.
`Session.EndedWith` is this state of a session with what it answers there. Input and requests keep
it, so from there on a dialogue only collects the same outcome again: `Dialogue.Repeats`.

How a dialogue gets there is told by `Dialogue.Traced`, which every call keeps as long as the rest
of no request is gone on with after an error.
-/
namespace StreamLexer

/-- What a request is answered with where this is the outcome. -/
def answered : Except LexError Token → Progress Session LexError Token
  | .ok token => .done token
  | .error error => .failed error

namespace Session

/-! ## After the end -/

/-- The session has failed with this error, or it is at the end of its input and gives this end
token. -/
inductive EndedWith (s : Session) : Except LexError Token → Prop
  | failed {error : LexError} (failure : s.failure = some error) : s.EndedWith (.error error)
  | complete (healthy : s.failure = none) (atEnd : s.AtEnd) :
      s.EndedWith (.ok ⟨.eof, .point s.pos⟩)

namespace EndedWith

variable {s : Session} {o : Except LexError Token}

theorem feed (h : s.EndedWith o) (chunk : List UInt8) : (s.feed chunk).EndedWith o := by
  cases h with
  | failed failure => exact .failed failure
  | complete healthy atEnd => exact .complete healthy (atEnd.feed chunk)

theorem finish (h : s.EndedWith o) : s.finish.EndedWith o := by
  cases h with
  | failed failure => exact .failed failure
  | complete healthy atEnd => exact .complete healthy atEnd.finish

theorem takeWarnings (h : s.EndedWith o) : s.takeWarnings.1.EndedWith o := by
  cases h with
  | failed failure => exact .failed failure
  | complete healthy atEnd => exact .complete healthy ⟨atEnd.mode, atEnd.decided, atEnd.view⟩

theorem token (h : s.EndedWith o) : s.token = (s, answered o) := by
  cases h with
  | failed failure => simp [Session.token, failure, answered]
  | complete healthy atEnd =>
    simp [Session.token, healthy, resumeToken, Resumable.start, atEnd.next, answered]

theorem significantToken (h : s.EndedWith o) : s.significantToken = (s, answered o) := by
  cases h with
  | failed failure => simp [Session.significantToken, failure, answered]
  | complete healthy atEnd =>
    simp [Session.significantToken, healthy, resumeSignificant, Resumable.start,
      nextSignificant_of_done atEnd.next rfl, answered]

end EndedWith

/-! ## Up to the end -/

/-- The rest of a request that a session hands out. -/
def IsRest (rest : Resumable Session LexError Token) : Prop :=
  rest = resumeToken ∨ rest = resumeSignificant

/-- Where a request leaves the session: it has ended with the outcome, or it has not failed and the
outcome is another token, or none yet. -/
inductive Leads : Session × Progress Session LexError Token → Prop
  | last {t : Session} {o : Except LexError Token} (ended : t.EndedWith o) : Leads (t, answered o)
  | token {t : Session} {token : Token} (healthy : t.failure = none)
      (goesOn : token.kind.isEof = false) : Leads (t, .done token)
  | waits {t : Session} {rest : Resumable Session LexError Token} (healthy : t.failure = none)
      (isRest : IsRest rest) : Leads (t, .needMore rest)

section Requests

variable {s t : Session}

/-- A session that gives the end token stands at the end of its input, unless a keyword stands for
that token. -/
theorem endedWith_of_eof (hkeywords : s.keywords.NoEof) (healthy : s.failure = none) {token : Token}
    (h : s.next = (t, .done token)) (heof : token.kind.isEof = true) : t.EndedWith (.ok token) := by
  obtain ⟨u, hreach, hemit⟩ := exists_emit_of_next h
  have hfailure : u.failure = none :=
    hreach.invariant (P := fun u => u.failure = none)
      (fun u hu => (stepOn_failure u _).trans hu) healthy
  rw [← hreach.keywords] at hkeywords
  obtain ⟨hmode, hdecided, hview, rfl⟩ := stepOn_emit_eof hkeywords hemit heof
  have hend : t.AtEnd := ⟨hmode, hdecided, hview⟩
  rw [hend.step] at hemit
  cases hemit
  exact .complete hfailure hend

theorem failure_of_next {answer : Poll LexError Token} (h : s.next = (t, answer)) :
    (∀ error, answer = .failed error → t.failure = some error) ∧
      ((∀ error, answer ≠ .failed error) → t.failure = s.failure) := by
  have hrun := run_failure s
  unfold next at h
  split at h
  · rename_i r error heq
    cases h
    refine ⟨fun e he => ?_, fun hne => absurd rfl (hne error)⟩
    cases he
    rfl
  · rename_i hother
    rw [h] at hrun
    refine ⟨fun e he => ?_, fun _ => hrun⟩
    exact absurd (h.trans (by rw [he])) (hother t e)

/-- Asked for a token, a session that has not failed gives one, fails or waits. -/
theorem resumeToken_leads (hkeywords : s.keywords.NoEof) (healthy : s.failure = none) :
    Leads (resumeToken.start s) := by
  cases hnext : s.next with
  | mk t answer =>
    obtain ⟨hfailed, hsame⟩ := failure_of_next hnext
    cases answer with
    | done token =>
      have hstart : resumeToken.start s = (t, .done token) := by
        simp only [resumeToken, Resumable.start, hnext]
      rw [hstart]
      by_cases heof : token.kind.isEof = true
      · exact .last (endedWith_of_eof hkeywords healthy hnext heof)
      · exact .token ((hsame (by simp)).trans healthy) (by simpa using heof)
    | failed error =>
      have hstart : resumeToken.start s = (t, .failed error) := by
        simp only [resumeToken, Resumable.start, hnext]
      rw [hstart]
      exact .last (.failed (hfailed error rfl))
    | pending =>
      have hstart : resumeToken.start s = (t, .needMore resumeToken) := by
        simp only [resumeToken, Resumable.start, hnext]
      rw [hstart]
      exact .waits ((hsame (by simp)).trans healthy) (.inl rfl)

theorem token_leads (hkeywords : s.keywords.NoEof) : Leads s.token := by
  cases hfailure : s.failure with
  | some error =>
    rw [(EndedWith.failed hfailure).token]
    exact .last (.failed hfailure)
  | none =>
    have htoken : s.token = resumeToken.start s := by simp [Session.token, hfailure]
    rw [htoken]
    exact resumeToken_leads hkeywords hfailure

/-- Passing over comments leads to an answer of the same sort. -/
theorem resumeSignificant_leads (hkeywords : s.keywords.NoEof) (healthy : s.failure = none) :
    Leads (resumeSignificant.start s) := by
  induction hweight : s.weight using Nat.strongRecOn generalizing s with
  | ind n ih =>
    subst hweight
    have hleads := resumeToken_leads hkeywords healthy
    have hsame := next_keywords s
    cases hnext : s.next with
    | mk t answer =>
      rw [hnext] at hsame
      simp only [resumeToken, Resumable.start, hnext] at hleads
      cases answer with
      | done token =>
        by_cases hcomment : token.kind.isComment = true
        · -- behind the comment the session is asked again, with less to read
          have heof := isEof_of_isComment hcomment
          have hfailure := failure_of_next_done hnext
          rw [healthy] at hfailure
          rw [start_resumeSignificant_of_comment hnext hcomment]
          have hagain : t.significantToken = resumeSignificant.start t := by
            simp [significantToken, hfailure]
          rw [hagain]
          exact ih t.weight (next_weight_lt hnext heof) (by rw [hsame]; exact hkeywords) hfailure
            rfl
        · have hother : token.kind.isComment = false := by simpa using hcomment
          simpa only [resumeSignificant, Resumable.start, nextSignificant_of_done hnext hother]
            using hleads
      | failed error =>
        simpa only [resumeSignificant, Resumable.start, nextSignificant_of_failed hnext]
          using hleads
      | pending =>
        simp only [resumeSignificant, Resumable.start, nextSignificant_of_pending hnext]
        have hfailure := (failure_of_next hnext).2 (by simp)
        exact .waits (hfailure.trans healthy) (.inr rfl)

theorem significantToken_leads (hkeywords : s.keywords.NoEof) : Leads s.significantToken := by
  cases hfailure : s.failure with
  | some error =>
    rw [(EndedWith.failed hfailure).significantToken]
    exact .last (.failed hfailure)
  | none =>
    have htoken : s.significantToken = resumeSignificant.start s := by
      simp [Session.significantToken, hfailure]
    rw [htoken]
    exact resumeSignificant_leads hkeywords hfailure

theorem IsRest.leads {rest : Resumable Session LexError Token} (h : IsRest rest)
    (hkeywords : s.keywords.NoEof) (healthy : s.failure = none) : Leads (rest.start s) := by
  rcases h with rfl | rfl
  · exact resumeToken_leads hkeywords healthy
  · exact resumeSignificant_leads hkeywords healthy

/-- At the end of the input the rest of an earlier request gives the end token as well. -/
theorem IsRest.start_ended {rest : Resumable Session LexError Token} (h : IsRest rest)
    (healthy : s.failure = none) {o : Except LexError Token} (hended : s.EndedWith o) :
    rest.start s = (s, answered o) := by
  rcases h with rfl | rfl
  · simpa [token, healthy] using hended.token
  · simpa [significantToken, healthy] using hended.significantToken

theorem IsRest.keywords {rest : Resumable Session LexError Token} (h : IsRest rest) (s : Session) :
    (rest.start s).1.keywords = s.keywords := by
  rcases h with rfl | rfl
  · rw [resumeToken, (start_poll next s).1]
    exact next_keywords s
  · rw [resumeSignificant, (start_poll nextSignificant s).1]
    exact nextSignificant_preserves (P := fun t => t.keywords = s.keywords)
      (fun t ht => (stepOn_keywords t _).trans ht) (fun _ _ ht => ht) rfl

theorem token_keywords (s : Session) : s.token.1.keywords = s.keywords := by
  unfold token
  split
  · rfl
  · exact IsRest.keywords (.inl rfl) s

theorem significantToken_keywords (s : Session) : s.significantToken.1.keywords = s.keywords := by
  unfold significantToken
  split
  · rfl
  · exact IsRest.keywords (.inr rfl) s

end Requests

end Session

/-! ## Calls -/

/-- What a caller asks of a session: one of the requests of a schedule, or the next token that is
not a comment. -/
inductive Call where
  | request (request : Request)
  | significantToken
  deriving DecidableEq

namespace Call

/-- The call asks for a token, or goes on with one that does. -/
def asks : Call → Bool
  | .request r => r.asks
  | .significantToken => true

/-- The call goes on with the rest of an earlier one. -/
def resumes : Call → Bool
  | .request (.resume _) => true
  | _ => false

end Call

namespace Dialogue

/-- One call. -/
def call (x : Dialogue) : Call → Dialogue
  | .request request => x.answer request
  | .significantToken => x.answerSignificant .token

/-- One call after the other. -/
def callAll (x : Dialogue) (calls : List Call) : Dialogue :=
  calls.foldl call x

/-- The caller has a session on which nothing has been called, which is new or holds a whole
source. -/
def IsNew (config : Config) (x : Dialogue) : Prop :=
  x = new config ∨ ∃ source, x = { session := .ofSource config source }

/-- No call goes on with the rest of an earlier one after an error. -/
def NeverResumesFailed (x : Dialogue) (calls : List Call) : Prop :=
  ∀ before index after, calls = before ++ .request (.resume index) :: after →
    ∀ error, .error error ∉ (x.callAll before).outcomes

/-- The second dialogue has come from the first without any change but that the outcome has been
given `n` times more. -/
structure Repeats (o : Except LexError Token) (x y : Dialogue) (n : Nat) : Prop where
  outcomes : y.outcomes = x.outcomes ++ List.replicate n o
  /-- No request waits that has not waited before. -/
  waiting : y.waiting = x.waiting
  warnings : y.warnings = x.warnings
  pos : y.session.pos = x.session.pos
  commentDepth : y.session.commentDepth = x.session.commentDepth

namespace Repeats

variable {o : Except LexError Token} {x y z : Dialogue} {m n : Nat}

theorem refl (o : Except LexError Token) (x : Dialogue) : Repeats o x x 0 :=
  ⟨by simp, rfl, rfl, rfl, rfl⟩

theorem trans (first : Repeats o x y m) (second : Repeats o y z n) : Repeats o x z (m + n) := by
  refine ⟨?_, second.waiting.trans first.waiting, second.warnings.trans first.warnings,
    second.pos.trans first.pos, second.commentDepth.trans first.commentDepth⟩
  rw [second.outcomes, first.outcomes, List.append_assoc, List.replicate_append_replicate]

end Repeats

/-! ## Calls after the end -/

section Ended

variable {x : Dialogue} {o : Except LexError Token}

theorem record_answered (x : Dialogue) (o : Except LexError Token) :
    x.record x.waiting (x.session, answered o) = { x with outcomes := x.outcomes ++ [o] } := by
  cases o <;> rfl

theorem repeats_once (x : Dialogue) (o : Except LexError Token) :
    Repeats o x { x with outcomes := x.outcomes ++ [o] } 1 :=
  ⟨rfl, rfl, rfl, rfl, rfl⟩

/-- After the end a call that asks for a token is answered with the outcome again, and any other
leaves the session there. -/
theorem call_ended (h : x.session.EndedWith o) {call : Call} (hcall : call.resumes = false) :
    (x.call call).session.EndedWith o ∧
      Repeats o x (x.call call) ([call].countP Call.asks) := by
  cases call with
  | significantToken =>
    have hanswer : x.call .significantToken = { x with outcomes := x.outcomes ++ [o] } := by
      rw [← record_answered]
      simp only [Dialogue.call, answerSignificant, h.significantToken]
    rw [hanswer]
    exact ⟨h, x.repeats_once o⟩
  | request request =>
    cases request with
    | feed chunk => exact ⟨h.feed chunk, (List.append_nil _).symm, rfl, rfl, rfl, rfl⟩
    | finish => exact ⟨h.finish, (List.append_nil _).symm, rfl, rfl, rfl, rfl⟩
    | token =>
      have hanswer : x.call (.request .token) = { x with outcomes := x.outcomes ++ [o] } := by
        rw [← record_answered]
        simp only [Dialogue.call, Dialogue.answer, h.token]
      rw [hanswer]
      exact ⟨h, x.repeats_once o⟩
    | resume index => cases hcall
    | takeWarnings =>
      refine ⟨h.takeWarnings, (List.append_nil _).symm, rfl, ?_, rfl, rfl⟩
      simp [Dialogue.call, Dialogue.answer, Session.takeWarnings, Dialogue.warnings]

theorem callAll_ended (h : x.session.EndedWith o) {calls : List Call}
    (hcalls : ∀ call ∈ calls, call.resumes = false) :
    Repeats o x (x.callAll calls) (calls.countP Call.asks) := by
  induction calls generalizing x with
  | nil => exact .refl o x
  | cons call calls ih =>
    obtain ⟨hended, hrepeats⟩ := call_ended h (hcalls call (by simp))
    have hrest := ih hended fun later hlater => hcalls later (by simp [hlater])
    show Repeats o x _ (([call] ++ calls).countP Call.asks)
    rw [List.countP_append]
    exact hrepeats.trans hrest

end Ended

/-! ## Calls up to the end -/

/-- How a dialogue has gone: each outcome that lexing ends with has left the session there, and
the session fails with an outcome only. -/
structure Traced (config : Config) (x : Dialogue) : Prop where
  keywords : x.session.keywords = config.keywords
  waiting : ∀ rest ∈ x.waiting, Session.IsRest rest
  failed : x.session.failure ≠ none → ∃ error, .error error ∈ x.outcomes
  last : ∀ o ∈ x.outcomes, isLast o = true → x.session.EndedWith o

section Traced

variable {config : Config} {x : Dialogue}

theorem IsNew.traced (h : x.IsNew config) : x.Traced config := by
  rcases h with rfl | ⟨source, rfl⟩
  · exact ⟨rfl, by simp [new], fun hfailed => absurd rfl hfailed, by simp [new]⟩
  · exact ⟨rfl, by simp, fun hfailed => absurd rfl hfailed, by simp⟩

/-- An answer is recorded where the session has not moved from an end that it had come to before. -/
theorem traced_record {waiting : List (Resumable Session LexError Token)}
    (hwaiting : ∀ rest ∈ waiting, Session.IsRest rest)
    {answer : Session × Progress Session LexError Token} (hleads : Session.Leads answer)
    (hkeywords : answer.1.keywords = config.keywords)
    (hlast : ∀ o ∈ x.outcomes, isLast o = true → answer.1.EndedWith o) :
    (x.record waiting answer).Traced config := by
  cases hleads with
  | @last t o ended =>
    have hrecord : x.record waiting (t, answered o) =
        { x with session := t, waiting, outcomes := x.outcomes ++ [o] } := by
      cases o <;> rfl
    rw [hrecord]
    refine ⟨hkeywords, hwaiting, fun hfailed => ?_, ?_⟩
    · cases ended with
      | @failed error failure => exact ⟨error, by simp⟩
      | complete healthy atEnd => exact absurd healthy hfailed
    · intro o' ho' hlast'
      rcases List.mem_append.mp ho' with hbefore | hnew
      · exact hlast o' hbefore hlast'
      · obtain rfl := List.mem_singleton.mp hnew
        exact ended
  | @token t token healthy goesOn =>
    refine ⟨hkeywords, hwaiting, fun hfailed => absurd healthy hfailed, ?_⟩
    intro o ho holast
    rcases List.mem_append.mp ho with hbefore | hnew
    · exact hlast o hbefore holast
    · obtain rfl := List.mem_singleton.mp hnew
      rw [isLast, goesOn] at holast
      cases holast
  | @waits t rest healthy isRest =>
    refine ⟨hkeywords, ?_, fun hfailed => absurd healthy hfailed, hlast⟩
    intro rest' hrest'
    rcases List.mem_append.mp hrest' with hbefore | hnew
    · exact hwaiting rest' hbefore
    · obtain rfl := List.mem_singleton.mp hnew
      exact isRest

/-- Before an error the session has not failed. -/
theorem Traced.healthy (h : x.Traced config) (hnone : ∀ error, .error error ∉ x.outcomes) :
    x.session.failure = none := by
  by_contra hfailed
  obtain ⟨error, herror⟩ := h.failed hfailed
  exact hnone error herror

theorem Traced.call (h : x.Traced config) (hkeywords : config.keywords.NoEof) (call : Call)
    (hresume : call.resumes = true → ∀ error, .error error ∉ x.outcomes) :
    (x.call call).Traced config := by
  have hnoEof : x.session.keywords.NoEof := by
    rw [h.keywords]
    exact hkeywords
  cases call with
  | significantToken =>
    refine traced_record h.waiting (Session.significantToken_leads hnoEof)
      ((Session.significantToken_keywords _).trans h.keywords) fun o ho hlast => ?_
    rw [(h.last o ho hlast).significantToken]
    exact h.last o ho hlast
  | request request =>
    cases request with
    | feed chunk =>
      exact ⟨h.keywords, h.waiting, h.failed, fun o ho hlast => (h.last o ho hlast).feed chunk⟩
    | finish =>
      exact ⟨h.keywords, h.waiting, h.failed, fun o ho hlast => (h.last o ho hlast).finish⟩
    | takeWarnings =>
      exact ⟨h.keywords, h.waiting, h.failed, fun o ho hlast => (h.last o ho hlast).takeWarnings⟩
    | token =>
      refine traced_record h.waiting (Session.token_leads hnoEof)
        ((Session.token_keywords _).trans h.keywords) fun o ho hlast => ?_
      rw [(h.last o ho hlast).token]
      exact h.last o ho hlast
    | resume index =>
      have healthy := h.healthy (hresume rfl)
      show (x.answer (.resume index)).Traced config
      simp only [Dialogue.answer]
      split
      · rename_i rest hget
        have hrest := h.waiting rest (List.mem_of_getElem? hget)
        refine traced_record (fun rest' hrest' => h.waiting rest' (List.mem_of_mem_eraseIdx hrest'))
          (hrest.leads hnoEof healthy) ((hrest.keywords _).trans h.keywords) fun o ho hlast => ?_
        rw [hrest.start_ended healthy (h.last o ho hlast)]
        exact h.last o ho hlast
      · exact h

/-- Every call keeps it, if the rest of no request is gone on with after an error. -/
theorem Traced.callAll (h : x.Traced config) (hkeywords : config.keywords.NoEof)
    {calls : List Call} (hresumes : x.NeverResumesFailed calls) :
    (x.callAll calls).Traced config := by
  induction calls generalizing x with
  | nil => exact h
  | cons call calls ih =>
    have hcall : (x.call call).Traced config := by
      refine h.call hkeywords call fun hresume => ?_
      cases call with
      | significantToken => cases hresume
      | request request =>
        cases request with
        | resume index => exact hresumes [] index calls rfl
        | _ => cases hresume
    refine ih hcall fun before index after hsplit => ?_
    exact hresumes (call :: before) index after (by rw [hsplit]; rfl)

end Traced

end Dialogue

end StreamLexer
