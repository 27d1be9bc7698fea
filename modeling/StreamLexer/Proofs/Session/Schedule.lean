import StreamLexer.Proofs.Session.Growth
import StreamLexer.Proofs.Session.Output

/-!
# Schedules of requests

A session is asked for tokens, given chunks, told that its input has ended, and asked to go on with
requests that it could not answer, in any order. `Dialogue` is the session with what its caller has
collected; `Delivers` says that the chunks among the requests are those of a source.
-/
namespace StreamLexer

/-- What a caller asks of a session. -/
inductive Request where
  | feed (chunk : List UInt8)
  | finish
  | token
  /-- Goes on with one of the requests that could not be answered. -/
  | resume (index : Nat)
  | takeWarnings
  deriving DecidableEq

/-- The chunks come to a part of `left`, from its start on, and the input ends only after all of it.
Chunks after the end do not count. -/
def Delivers : List Request → List UInt8 → Prop
  | [], _ => True
  | .feed chunk :: requests, left => ∃ rest, left = chunk ++ rest ∧ Delivers requests rest
  | .finish :: _, left => left = []
  | .token :: requests, left => Delivers requests left
  | .resume _ :: requests, left => Delivers requests left
  | .takeWarnings :: requests, left => Delivers requests left

/-- Lexing ends with this outcome: an error or an end token. -/
def isLast : Except LexError Token → Bool
  | .ok token => token.kind.isEof
  | .error _ => true

/-- The outcomes up to the first that lexing ends with. -/
def upToLast : List (Except LexError Token) → List (Except LexError Token)
  | [] => []
  | o :: outcomes => if isLast o then [o] else o :: upToLast outcomes

/-- A session with what its caller has collected so far. -/
structure Dialogue where
  session : Session
  /-- The rests of the requests that could not be answered. -/
  waiting : List (Resumable Session LexError Token) := []
  /-- The answers, the latest one last. -/
  outcomes : List (Except LexError Token) := []
  /-- The warnings taken out of the session. -/
  taken : List Warning := []

namespace Dialogue

/-- A caller with a new session. -/
def new (config : Config) : Dialogue :=
  { session := .new config }

/-- Collects how far a request for a token has come. -/
def record (x : Dialogue) (waiting : List (Resumable Session LexError Token))
    (answer : Session × Progress Session LexError Token) : Dialogue :=
  match answer with
  | (session, .done token) => { x with session, waiting, outcomes := x.outcomes ++ [.ok token] }
  | (session, .failed error) =>
    { x with session, waiting, outcomes := x.outcomes ++ [.error error] }
  | (session, .needMore rest) => { x with session, waiting := waiting ++ [rest] }

/-- One request. A request to go on with something that does not wait is passed over. -/
def answer (x : Dialogue) : Request → Dialogue
  | .feed chunk => { x with session := x.session.feed chunk }
  | .finish => { x with session := x.session.finish }
  | .token => x.record x.waiting x.session.token
  | .resume index =>
    match x.waiting[index]? with
    | some rest => x.record (x.waiting.eraseIdx index) (rest.start x.session)
    | none => x
  | .takeWarnings =>
    let (session, warnings) := x.session.takeWarnings
    { x with session, taken := x.taken ++ warnings }

/-- One request after the other. -/
def run (x : Dialogue) (requests : List Request) : Dialogue :=
  requests.foldl answer x

/-- Some answer was an error or an end token. -/
def ended (x : Dialogue) : Bool :=
  x.outcomes.any isLast

/-- One request after the other, up to the first that is answered with an error or an end token. -/
def runToEnd : Dialogue → List Request → Dialogue
  | x, [] => x
  | x, request :: requests => if x.ended then x else (x.answer request).runToEnd requests

/-- All warnings, those taken out of the session and those still in it. -/
def warnings (x : Dialogue) : List Warning :=
  x.taken ++ x.session.warnings.toList

end Dialogue

/-! ## Cutting outcomes at the end -/

theorem upToLast_of_unended {outcomes : List (Except LexError Token)}
    (h : ∀ o ∈ outcomes, isLast o = false) : upToLast outcomes = outcomes := by
  induction outcomes with
  | nil => rfl
  | cons o outcomes ih =>
    rw [upToLast, h o (by simp), ih fun o' ho' => h o' (by simp [ho'])]
    rfl

theorem upToLast_append {outcomes : List (Except LexError Token)} {last : Except LexError Token}
    (h : ∀ o ∈ outcomes, isLast o = false) (hlast : isLast last = true)
    (more : List (Except LexError Token)) :
    upToLast (outcomes ++ last :: more) = outcomes ++ [last] := by
  induction outcomes with
  | nil => simp [upToLast, hlast]
  | cons o outcomes ih =>
    rw [List.cons_append, upToLast, h o (by simp), ih fun o' ho' => h o' (by simp [ho'])]
    rfl

namespace Dialogue

/-! ## Before the end -/

/-- The session over the whole source, with the warnings put back that were taken out of it. -/
def surroundings (x : Dialogue) (source : List UInt8) : Surroundings :=
  { window := .ofSource source, earlier := x.taken.toArray }

/-- The session of the dialogue, as it would be over the whole source. -/
def whole (x : Dialogue) (source : List UInt8) : Session :=
  x.session.within (x.surroundings source)

/-- Nothing has ended yet. What has been collected comes first in what lexing the whole source
gives, and the session over the whole source gives the rest. -/
structure Live (config : Config) (source left : List UInt8) (x : Dialogue) : Prop where
  holds : x.session.Holds source left
  healthy : x.session.failure = none
  keywords : x.session.keywords = config.keywords
  waiting : ∀ rest ∈ x.waiting, rest = Session.resumeToken
  unended : ∀ o ∈ x.outcomes, isLast o = false
  outcomes : (lex source config).outcomes = x.outcomes ++ (x.whole source).output.outcomes
  warnings : (lex source config).warnings = (x.whole source).output.warnings

/-- The last answer was an error or the end token, and all that lexing the whole source gives has
been collected. -/
structure Finished (config : Config) (source : List UInt8) (x : Dialogue) : Prop where
  waiting : ∀ rest ∈ x.waiting, rest = Session.resumeToken
  last : ∃ before o, x.outcomes = before ++ [o] ∧ (∀ o ∈ before, isLast o = false) ∧
    isLast o = true
  outcomes : (lex source config).outcomes = x.outcomes
  warnings : (lex source config).warnings = x.warnings
  settled : config.keywords.NoEof → x.session.failure ≠ none ∨
    x.session.failure = none ∧ x.session.AtEnd

theorem live_new (config : Config) (source : List UInt8) :
    (new config).Live config source source := by
  refine ⟨Session.holds_new config source, rfl, rfl, by simp [new], by simp [new], ?_, ?_⟩
  · rfl
  · rfl

section Steps

variable {config : Config} {source left : List UInt8} {x : Dialogue}

theorem Live.warnings_prefix (h : x.Live config source left) :
    x.warnings <+: (lex source config).warnings := by
  rw [h.warnings]
  have hwarnings : x.warnings = (x.whole source).warnings.toList := by
    simp [Dialogue.warnings, whole, surroundings]
  rw [hwarnings]
  exact Session.warnings_prefix_output _

/-- Asking the session keeps the dialogue before the end, or brings it there. -/
theorem Live.ask (h : x.Live config source left)
    {waiting : List (Resumable Session LexError Token)}
    (hwaiting : ∀ rest ∈ waiting, rest = Session.resumeToken) :
    (x.record waiting (Session.resumeToken.start x.session)).Live config source left ∨
      (x.record waiting (Session.resumeToken.start x.session)).Finished config source := by
  have hkeywords := Session.next_keywords x.session
  have hwindow : (x.surroundings source).window = .ofSource source := rfl
  obtain ⟨hholds, hcases⟩ := Session.next_whole h.holds hwindow
  cases hnext : x.session.next with
  | mk s answer =>
    rw [hnext] at hkeywords hholds hcases
    have hsame : s.keywords = config.keywords := hkeywords.trans h.keywords
    cases answer with
    | pending =>
      -- the steps before the wait are ones that the whole session takes as well
      left
      obtain ⟨-, -, hfailure, hwithin⟩ | ⟨token, hdone, -⟩ | ⟨error, hfailed, -⟩ := hcases
      · have hrecord : x.record waiting (Session.resumeToken.start x.session) =
            { x with session := s, waiting := waiting ++ [Session.resumeToken] } := by
          simp [record, Session.resumeToken, Resumable.start, hnext]
        have houtput : (s.within (x.surroundings source)).output = (x.whole source).output :=
          Session.output_congr hwithin
        rw [hrecord]
        refine ⟨hholds, hfailure.trans h.healthy, hsame, ?_, h.unended, ?_, ?_⟩
        · intro rest hrest
          rcases List.mem_append.mp hrest with hrest | hrest
          · exact hwaiting rest hrest
          · simpa using hrest
        · rw [h.outcomes, ← houtput]
          rfl
        · rw [h.warnings, ← houtput]
          rfl
      · cases hdone
      · cases hfailed
    | done token =>
      obtain ⟨hpending, -⟩ | ⟨token', hdone, hfailure, hwithin⟩ | ⟨error, hfailed, -⟩ := hcases
      · cases hpending
      · obtain rfl : token = token' := by injection hdone
        have hrecord : x.record waiting (Session.resumeToken.start x.session) =
            { x with session := s, waiting, outcomes := x.outcomes ++ [.ok token] } := by
          simp [record, Session.resumeToken, Resumable.start, hnext]
        rw [hrecord]
        cases heof : token.kind.isEof with
        | false =>
          left
          refine ⟨hholds, hfailure.trans h.healthy, hsame, hwaiting, ?_, ?_, ?_⟩
          · intro o ho
            rcases List.mem_append.mp ho with ho | ho
            · exact h.unended o ho
            · obtain rfl : o = .ok token := by simpa using ho
              exact heof
          · rw [h.outcomes, whole, Session.outcomes_of_done hwithin heof]
            simp [whole, surroundings]
          · rw [h.warnings, whole, Session.warnings_of_done hwithin heof]
            rfl
        | true =>
          right
          refine ⟨hwaiting, ⟨x.outcomes, .ok token, rfl, h.unended, heof⟩, ?_, ?_, ?_⟩
          · rw [h.outcomes, whole, Session.outcomes_of_eof hwithin heof]
          · rw [h.warnings, whole, Session.warnings_of_eof hwithin heof]
            simp [Dialogue.warnings, surroundings]
          · intro hnoEof
            refine .inr ⟨hfailure.trans h.healthy, ?_⟩
            rw [← h.keywords] at hnoEof
            exact Session.next_atEnd hnoEof hnext heof
      · cases hfailed
    | failed error =>
      obtain ⟨hpending, -⟩ | ⟨token, hdone, -⟩ | ⟨error', hfailed, hfailure, hwithin⟩ := hcases
      · cases hpending
      · cases hdone
      · obtain rfl : error = error' := by injection hfailed
        have hrecord : x.record waiting (Session.resumeToken.start x.session) =
            { x with session := s, waiting, outcomes := x.outcomes ++ [.error error] } := by
          simp [record, Session.resumeToken, Resumable.start, hnext]
        rw [hrecord]
        right
        refine ⟨hwaiting, ⟨x.outcomes, .error error, rfl, h.unended, rfl⟩, ?_, ?_, ?_⟩
        · rw [h.outcomes, whole, Session.outcomes_of_failed hwithin]
        · rw [h.warnings, whole, Session.warnings_of_failed hwithin]
          simp [Dialogue.warnings, surroundings]
        · intro _
          have hsome : s.failure = some error := hfailure
          exact .inl (by simp [hsome])

/-- A request asks the session, or does nothing that the session over the whole source would
show. -/
theorem Live.answer_cases (h : x.Live config source left) (request : Request) :
    (∃ waiting, x.answer request = x.record waiting (Session.resumeToken.start x.session)) ∨
      ((x.answer request).outcomes = x.outcomes ∧
        (x.answer request).whole source = x.whole source) := by
  cases request with
  | feed chunk => exact .inr ⟨rfl, rfl⟩
  | finish => exact .inr ⟨rfl, rfl⟩
  | takeWarnings =>
    right
    simp [Dialogue.answer, Session.takeWarnings, whole, surroundings, Session.within]
  | token =>
    left
    exact ⟨x.waiting, by simp [Dialogue.answer, Session.token, h.healthy]⟩
  | resume index =>
    cases hget : x.waiting[index]? with
    | none =>
      right
      simp [Dialogue.answer, hget]
    | some rest =>
      left
      obtain rfl := h.waiting rest (List.mem_of_getElem? hget)
      exact ⟨x.waiting.eraseIdx index, by simp [Dialogue.answer, hget]⟩

/-- A request keeps the dialogue before the end, or brings it there. -/
theorem Live.answer (h : x.Live config source left) {request : Request} {requests : List Request}
    (hdelivers : x.session.window.closed = true ∨ Delivers (request :: requests) left) :
    (∃ left', (x.answer request).Live config source left' ∧
        ((x.answer request).session.window.closed = true ∨ Delivers requests left')) ∨
      (x.answer request).Finished config source := by
  have hwindow : ∀ waiting, (x.record waiting
      (Session.resumeToken.start x.session)).session.window = x.session.window := by
    intro waiting
    rw [← Session.next_window x.session]
    cases hnext : x.session.next with
    | mk s answer => cases answer <;> simp [record, Session.resumeToken, Resumable.start, hnext]
  cases request with
  | feed chunk =>
    left
    by_cases hclosed : x.session.window.closed = true
    · refine ⟨left, ?_, .inl ?_⟩
      · exact ⟨h.holds.feed_closed chunk hclosed, h.healthy, h.keywords, h.waiting, h.unended,
          h.outcomes, h.warnings⟩
      · simp [Dialogue.answer, Session.feed, Window.push, Window.releaseBefore, hclosed]
    · obtain ⟨rest, rfl, hrest⟩ := hdelivers.resolve_left hclosed
      refine ⟨rest, ?_, .inr hrest⟩
      exact ⟨h.holds.feed (by simpa using hclosed), h.healthy, h.keywords, h.waiting, h.unended,
        h.outcomes, h.warnings⟩
  | finish =>
    left
    obtain rfl : left = [] := by
      rcases hdelivers with hclosed | hleft
      · exact h.holds.closed hclosed
      · exact hleft
    exact ⟨[], ⟨h.holds.finish, h.healthy, h.keywords, h.waiting, h.unended, h.outcomes,
      h.warnings⟩, .inl rfl⟩
  | token =>
    have htoken : x.answer .token = x.record x.waiting (Session.resumeToken.start x.session) := by
      simp [Dialogue.answer, Session.token, h.healthy]
    rw [htoken]
    rcases h.ask h.waiting with hlive | hfinished
    · exact .inl ⟨left, hlive, by rw [hwindow]; exact hdelivers⟩
    · exact .inr hfinished
  | resume index =>
    cases hget : x.waiting[index]? with
    | none =>
      have hanswer : x.answer (.resume index) = x := by simp [Dialogue.answer, hget]
      rw [hanswer]
      exact .inl ⟨left, h, hdelivers⟩
    | some rest =>
      obtain rfl := h.waiting rest (List.mem_of_getElem? hget)
      have hanswer : x.answer (.resume index) =
          x.record (x.waiting.eraseIdx index) (Session.resumeToken.start x.session) := by
        simp [Dialogue.answer, hget]
      rw [hanswer]
      rcases h.ask fun rest hrest => h.waiting rest (List.mem_of_mem_eraseIdx hrest) with
        hlive | hfinished
      · exact .inl ⟨left, hlive, by rw [hwindow]; exact hdelivers⟩
      · exact .inr hfinished
  | takeWarnings =>
    left
    have hwhole : (x.answer .takeWarnings).whole source = x.whole source := by
      simp [Dialogue.answer, Session.takeWarnings, whole, surroundings, Session.within]
    refine ⟨left, ?_, hdelivers⟩
    refine ⟨⟨h.holds.base_le, h.holds.le_stop, h.holds.split, h.holds.closed⟩, h.healthy,
      h.keywords, h.waiting, h.unended, ?_, ?_⟩
    · rw [hwhole, h.outcomes]
      rfl
    · rw [hwhole, h.warnings]

theorem Live.ended (h : x.Live config source left) : x.ended = false := by
  simpa [Dialogue.ended] using h.unended

theorem Finished.ended (h : x.Finished config source) : x.ended = true := by
  obtain ⟨before, o, houtcomes, -, hlast⟩ := h.last
  simp [Dialogue.ended, houtcomes, hlast]

theorem Finished.runToEnd (h : x.Finished config source) (requests : List Request) :
    x.runToEnd requests = x := by
  cases requests with
  | nil => rfl
  | cons request requests => simp [Dialogue.runToEnd, h.ended]

/-- Up to its end a schedule stays with the whole source. -/
theorem Live.runToEnd {requests : List Request} (h : x.Live config source left)
    (hdelivers : x.session.window.closed = true ∨ Delivers requests left) :
    (∃ left', (x.runToEnd requests).Live config source left') ∨
      (x.runToEnd requests).Finished config source := by
  -- what is left of the source changes from request to request
  induction requests generalizing x left with
  | nil => exact .inl ⟨left, h⟩
  | cons request requests ih =>
    have hrun : x.runToEnd (request :: requests) = (x.answer request).runToEnd requests := by
      simp [Dialogue.runToEnd, h.ended]
    rw [hrun]
    rcases h.answer hdelivers with ⟨left', hlive, hdelivers'⟩ | hfinished
    · exact ih hlive hdelivers'
    · rw [hfinished.runToEnd]
      exact .inr hfinished

end Steps

/-! ## After the end -/

/-- Requests only add outcomes. -/
theorem answer_outcomes (x : Dialogue) (request : Request) :
    x.outcomes <+: (x.answer request).outcomes := by
  have hrecord : ∀ waiting answer, x.outcomes <+: (x.record waiting answer).outcomes := by
    rintro waiting ⟨s, progress⟩
    cases progress <;> simp [record]
  cases request with
  | token => exact hrecord _ _
  | resume index =>
    simp only [answer]
    split
    · exact hrecord _ _
    · exact List.prefix_refl _
  | _ => exact List.prefix_refl _

theorem run_outcomes (x : Dialogue) (requests : List Request) :
    x.outcomes <+: (x.run requests).outcomes := by
  induction requests generalizing x with
  | nil => exact List.prefix_refl _
  | cons request requests ih => exact (answer_outcomes x request).trans (ih (x.answer request))

/-- A schedule is one up to the end and what follows it. -/
theorem exists_runToEnd (x : Dialogue) (requests : List Request) :
    ∃ before rest, requests = before ++ rest ∧ x.runToEnd requests = x.run before ∧
      ((x.runToEnd requests).ended = false → rest = []) := by
  induction requests generalizing x with
  | nil => exact ⟨[], [], rfl, rfl, fun _ => rfl⟩
  | cons request requests ih =>
    by_cases hended : x.ended = true
    · have hrun : x.runToEnd (request :: requests) = x := by simp [runToEnd, hended]
      refine ⟨[], request :: requests, rfl, hrun, ?_⟩
      rw [hrun, hended]
      intro hfalse
      cases hfalse
    · have hrun : x.runToEnd (request :: requests) = (x.answer request).runToEnd requests := by
        simp [runToEnd, hended]
      obtain ⟨before, rest, hsplit, hbefore, hrest⟩ := ih (x.answer request)
      rw [hrun]
      exact ⟨request :: before, rest, by rw [hsplit]; rfl, hbefore, hrest⟩

/-- The session has failed or is at the end of input, and all that waits is to ask it again. -/
structure Quiet (x : Dialogue) : Prop where
  waiting : ∀ rest ∈ x.waiting, rest = Session.resumeToken
  settled : x.session.failure ≠ none ∨ x.session.failure = none ∧ x.session.AtEnd

/-- After the end no request brings a warning, unless a rest is gone on with after a failure. -/
theorem Quiet.answer {x : Dialogue} (h : x.Quiet) (request : Request)
    (hresume : ∀ index, request = .resume index → x.session.failure = none) :
    (x.answer request).Quiet ∧ (x.answer request).warnings = x.warnings := by
  have hstart : x.session.AtEnd → Session.resumeToken.start x.session =
      (x.session, .done ⟨.eof, .point x.session.pos⟩) := by
    intro hend
    simp [Session.resumeToken, Resumable.start, hend.next]
  cases request with
  | feed chunk =>
    refine ⟨⟨h.waiting, ?_⟩, rfl⟩
    rcases h.settled with hfailure | ⟨hfailure, hend⟩
    · exact .inl hfailure
    · exact .inr ⟨hfailure, hend.feed chunk⟩
  | finish =>
    refine ⟨⟨h.waiting, ?_⟩, rfl⟩
    rcases h.settled with hfailure | ⟨hfailure, hend⟩
    · exact .inl hfailure
    · exact .inr ⟨hfailure, hend.finish⟩
  | token =>
    rcases h.settled with hfailure | ⟨hfailure, hend⟩
    · obtain ⟨error, herror⟩ := Option.ne_none_iff_exists'.mp hfailure
      have hanswer : x.answer .token = { x with outcomes := x.outcomes ++ [.error error] } := by
        simp [Dialogue.answer, Session.token, herror, record]
      rw [hanswer]
      exact ⟨⟨h.waiting, .inl hfailure⟩, rfl⟩
    · have hanswer : x.answer .token =
          { x with outcomes := x.outcomes ++ [.ok ⟨.eof, .point x.session.pos⟩] } := by
        simp [Dialogue.answer, Session.token, hfailure, hstart hend, record]
      rw [hanswer]
      exact ⟨⟨h.waiting, .inr ⟨hfailure, hend⟩⟩, rfl⟩
  | resume index =>
    have hfailure := hresume index rfl
    have hend : x.session.AtEnd := (h.settled.resolve_left (by simp [hfailure])).2
    cases hget : x.waiting[index]? with
    | none =>
      have hanswer : x.answer (.resume index) = x := by simp [Dialogue.answer, hget]
      rw [hanswer]
      exact ⟨h, rfl⟩
    | some rest =>
      obtain rfl := h.waiting rest (List.mem_of_getElem? hget)
      have hanswer : x.answer (.resume index) =
          { x with waiting := x.waiting.eraseIdx index,
                   outcomes := x.outcomes ++ [.ok ⟨.eof, .point x.session.pos⟩] } := by
        simp [Dialogue.answer, hget, hstart hend, record]
      rw [hanswer]
      refine ⟨⟨?_, .inr ⟨hfailure, hend⟩⟩, rfl⟩
      exact fun rest hrest => h.waiting rest (List.mem_of_mem_eraseIdx hrest)
  | takeWarnings =>
    refine ⟨⟨h.waiting, ?_⟩, ?_⟩
    · rcases h.settled with hfailure | ⟨hfailure, hend⟩
      · exact .inl hfailure
      · exact .inr ⟨hfailure, ⟨hend.mode, hend.decided, hend.view⟩⟩
    · simp [Dialogue.answer, Session.takeWarnings, Dialogue.warnings]

theorem Quiet.run {x : Dialogue} (h : x.Quiet) {requests : List Request}
    (hresume : ∀ before index after, requests = before ++ .resume index :: after →
      (x.run before).session.failure = none) :
    (x.run requests).warnings = x.warnings := by
  induction requests generalizing x with
  | nil => rfl
  | cons request requests ih =>
    obtain ⟨hquiet, hwarnings⟩ := h.answer request fun index hrequest =>
      hresume [] index requests (by rw [hrequest]; rfl)
    rw [← hwarnings]
    refine ih hquiet fun before index after hsplit => ?_
    exact hresume (request :: before) index after (by rw [hsplit]; rfl)

end Dialogue

end StreamLexer
