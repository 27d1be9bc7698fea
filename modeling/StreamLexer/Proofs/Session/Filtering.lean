import StreamLexer.Proofs.Resumable.Sequencing
import StreamLexer.Proofs.Session.Schedule
import StreamLexer.Proofs.Session.Significant

/-!
# Passing over comments only leaves them out

`Session.significantToken` may meet any number of comments before it has to wait, and any number
after it is gone on with. `significantToken_sameRuns` says that waits make no difference to it: it
is a request for a token, and behind a comment the same request once more. `Filters` compares a
dialogue that asks only for such tokens with one that asks for all of them: with further requests
behind each request (`Expands`) the second one has the same session throughout, and the outcomes of
the first are those of the second without the comments.
-/
namespace StreamLexer

namespace Session

/-! ## One request -/

/-- What becomes of an answer where comments are passed over: behind one the session is asked
again. -/
def passComment : Session × Poll LexError Token → Session × Poll LexError Token
  | (t, .done token) =>
    if token.kind.isComment then
      match t.failure with
      | some error => (t, .failed error)
      | none => t.nextSignificant
    else (t, .done token)
  | answer => answer

theorem nextSignificant_eq_passComment (s : Session) : s.nextSignificant = passComment s.next :=
  nextSignificant_eq s

/-! ## Where a request waits -/

/-- A request for a token that is not a comment, which an earlier error answers. -/
def askSignificant : Resumable Session LexError Token :=
  .andThen (.poll fun s =>
    match s.failure with
    | some error => (s, .failed error)
    | none => (s, .done ())) fun _ => resumeSignificant

/-- What follows a token: behind a comment, the request for one that is none. -/
def afterComment (token : Token) : Resumable Session LexError Token :=
  if token.kind.isComment then askSignificant else .done token

@[simp] theorem start_askSignificant (s : Session) :
    askSignificant.start s = s.significantToken := by
  cases h : s.failure <;>
    simp [askSignificant, significantToken, resumeSignificant, Resumable.start, h]

/-- Behind a comment the session is asked again, unless it has failed. -/
theorem start_resumeSignificant_of_comment {s t : Session} {token : Token}
    (h : s.next = (t, .done token)) (hcomment : token.kind.isComment = true) :
    resumeSignificant.start s = t.significantToken := by
  cases hfailure : t.failure with
  | none =>
    simp only [resumeSignificant, Resumable.start, significantToken, hfailure,
      nextSignificant_of_comment h hcomment hfailure]
  | some error =>
    simp [resumeSignificant, Resumable.start, significantToken, hfailure, nextSignificant_eq s, h,
      hcomment]

/-- Gone on with, the request for a token that is not a comment comes to its end at once or waits,
just as the request for a token and what follows it. -/
theorem start_resumeSignificant (s : Session) :
    resumeSignificant.start s = (resumeToken.andThen afterComment).start s ∨
      ∃ t, resumeSignificant.start s = (t, .needMore resumeSignificant) ∧
        (resumeToken.andThen afterComment).start s =
          (t, .needMore (resumeToken.andThen afterComment)) := by
  rw [Resumable.start_andThen]
  cases hnext : s.next with
  | mk t answer =>
    cases answer with
    | done token =>
      left
      by_cases hcomment : token.kind.isComment = true
      · rw [start_resumeSignificant_of_comment hnext hcomment]
        simp [resumeToken, Resumable.start, hnext, Progress.andThen, afterComment, hcomment]
      · have hother : token.kind.isComment = false := by simpa using hcomment
        simp [resumeSignificant, resumeToken, Resumable.start, hnext, Progress.andThen,
          afterComment, hother, nextSignificant_of_done hnext hother, Resumable.done]
    | failed error =>
      left
      simp [resumeSignificant, resumeToken, Resumable.start, hnext, Progress.andThen,
        nextSignificant_of_failed hnext]
    | pending =>
      right
      refine ⟨t, ?_, ?_⟩
      · simp [resumeSignificant, Resumable.start, nextSignificant_of_pending hnext]
      · simp [resumeToken, Resumable.start, hnext, Progress.andThen]

/-- However it is driven, a request for a token that is not a comment is one for a token and, behind
a comment, one for a token that is not a comment. -/
theorem significantToken_sameRuns (s : Session) :
    Resumable.SameRuns s.significantToken (s.token.2.andThen s.token.1 afterComment) := by
  cases hfailure : s.failure with
  | some error =>
    intro ρ refill kept ending
    simp [significantToken, token, hfailure, Progress.andThen]
  | none =>
    have hsame := Resumable.sameRuns_start start_resumeSignificant s
    rw [Resumable.start_andThen] at hsame
    simpa [significantToken, token, hfailure] using hsame

end Session

/-- Lexing does not end with a comment. -/
theorem isCommentOutcome_of_isLast {o : Except LexError Token} (h : isLast o = true) :
    isCommentOutcome o = false := by
  cases o with
  | error error => rfl
  | ok token =>
    cases hcomment : token.kind.isComment with
    | false => exact hcomment
    | true =>
      have heof : token.kind.isEof = true := h
      rw [Session.isEof_of_isComment hcomment] at heof
      cases heof

/-! ## Schedules -/

/-- The request asks for a token, or goes on with one that does. -/
def Request.asks : Request → Bool
  | .token | .resume _ => true
  | .feed _ | .finish | .takeWarnings => false

/-- The second schedule is the first one with further requests for tokens behind those there are. -/
inductive Expands : List Request → List Request → Prop
  | nil : Expands [] []
  | cons (request : Request) (more : Nat) {requests expanded : List Request}
      (asks : more ≠ 0 → request.asks = true) (rest : Expands requests expanded) :
      Expands (request :: requests) (request :: (List.replicate more .token ++ expanded))

/-- Further requests for tokens deliver nothing. -/
theorem Expands.delivers_iff {requests expanded : List Request} (h : Expands requests expanded)
    {left : List UInt8} : Delivers expanded left ↔ Delivers requests left := by
  have hmore : ∀ (more : Nat) (expanded : List Request) (left : List UInt8),
      Delivers (List.replicate more .token ++ expanded) left ↔ Delivers expanded left := by
    intro more expanded left
    induction more with
    | zero => rfl
    | succ more ih => exact ih
  induction h generalizing left with
  | nil => rfl
  | cons request more _ _ ih => cases request <;> simp [Delivers, hmore, ih]

namespace Dialogue

/-- One request, where those for tokens are for tokens that are not comments. -/
def answerSignificant (x : Dialogue) : Request → Dialogue
  | .token => x.record x.waiting x.session.significantToken
  | request => x.answer request

/-- One such request after the other. -/
def runSignificant (x : Dialogue) (requests : List Request) : Dialogue :=
  requests.foldl answerSignificant x

/-- One such request after the other, up to the first that is answered with an error or an end
token. -/
def runSignificantToEnd : Dialogue → List Request → Dialogue
  | x, [] => x
  | x, request :: requests =>
    if x.ended then x else (x.answerSignificant request).runSignificantToEnd requests

/-- The first dialogue, which passes over comments, against one that does not: they have the same
session and have taken the same warnings, as many requests wait in both, and the outcomes differ by
the comments. -/
structure Filters (x y : Dialogue) : Prop where
  session : x.session = y.session
  taken : x.taken = y.taken
  outcomes : x.outcomes = keptOutcomes true y.outcomes
  waiting : ∃ n, x.waiting = List.replicate n Session.resumeSignificant ∧
    y.waiting = List.replicate n Session.resumeToken

theorem filters_new (config : Config) : Filters (new config) (new config) :=
  ⟨rfl, rfl, rfl, 0, rfl, rfl⟩

/-- With `more` requests for tokens the second dialogue comes to where the first one is. Unless it
had ended before, none of them but the last can end it. -/
structure Catches (unended : Prop) (x y : Dialogue) (more : Nat) : Prop where
  filters : Filters x (y.run (List.replicate more .token))
  goesOn : unended → ∀ requests, y.runToEnd (List.replicate more .token ++ requests) =
    (y.run (List.replicate more .token)).runToEnd requests

section Simulation

variable {x y : Dialogue} {unended : Prop}

theorem Catches.zero (h : Filters x y) : Catches unended x y 0 :=
  ⟨h, fun _ _ => rfl⟩

theorem Catches.of_imp {p : Prop} {more : Nat} (h : Catches p x y more) (himp : unended → p) :
    Catches unended x y more :=
  ⟨h.filters, fun hunended => h.goesOn (himp hunended)⟩

theorem Catches.succ {more : Nat} (hended : unended → y.ended = false)
    (h : Catches unended x (y.answer .token) more) : Catches unended x y (more + 1) := by
  refine ⟨h.filters, fun hunended requests => ?_⟩
  show runToEnd y (.token :: (List.replicate more .token ++ requests)) = _
  rw [runToEnd, hended hunended]
  exact h.goesOn hunended requests

/-- Where one dialogue has ended, so has the other. -/
theorem Filters.ended (h : Filters x y) : x.ended = y.ended := by
  rw [Dialogue.ended, Dialogue.ended, h.outcomes]
  simp only [keptOutcomes, if_true, List.any_filter]
  congr 1
  funext o
  cases ho : isLast o with
  | false => simp
  | true => simp [isCommentOutcome_of_isLast ho]

/-- An outcome that is not a comment is collected by both. -/
theorem Filters.collect (h : Filters x y) (waiting : Nat) (s : Session)
    {o : Except LexError Token} (ho : isCommentOutcome o = false) :
    Filters
      { x with session := s, waiting := List.replicate waiting Session.resumeSignificant,
               outcomes := x.outcomes ++ [o] }
      { y with session := s, waiting := List.replicate waiting Session.resumeToken,
               outcomes := y.outcomes ++ [o] } := by
  refine ⟨rfl, h.taken, ?_, waiting, rfl, rfl⟩
  show x.outcomes ++ [o] = keptOutcomes true (y.outcomes ++ [o])
  simp [h.outcomes, keptOutcomes, ho]

/-- A comment is collected by the second only. -/
theorem Filters.pass (h : Filters x y) (waiting : Nat) (s : Session) {token : Token}
    (hcomment : token.kind.isComment = true) :
    Filters
      { x with session := s, waiting := List.replicate waiting Session.resumeSignificant }
      { y with session := s, waiting := List.replicate waiting Session.resumeToken,
               outcomes := y.outcomes ++ [.ok token] } := by
  refine ⟨rfl, h.taken, ?_, waiting, rfl, rfl⟩
  show x.outcomes = keptOutcomes true (y.outcomes ++ [.ok token])
  simp [h.outcomes, keptOutcomes, isCommentOutcome, hcomment]

/-- A request of the first dialogue to the session is one of the second and, as long as that is
answered with comments, further ones. -/
theorem Filters.ask (h : Filters x y) (waiting : Nat) :
    ∃ more, Catches (y.ended = false)
      (x.record (List.replicate waiting Session.resumeSignificant)
        (Session.resumeSignificant.start x.session))
      (y.record (List.replicate waiting Session.resumeToken)
        (Session.resumeToken.start y.session)) more := by
  rw [h.session]
  generalize y.session = s
  induction hweight : s.weight using Nat.strongRecOn generalizing x y s with
  | ind n ih =>
    subst hweight
    cases hnext : s.next with
    | mk t answer =>
      cases answer with
      | pending =>
        refine ⟨0, .zero ?_⟩
        simp only [Session.resumeSignificant, Session.resumeToken, Resumable.start, hnext,
          Session.nextSignificant_of_pending hnext, record]
        refine ⟨rfl, h.taken, h.outcomes, waiting + 1, ?_, ?_⟩
        · exact List.replicate_succ'.symm
        · exact List.replicate_succ'.symm
      | failed error =>
        refine ⟨0, .zero ?_⟩
        simp only [Session.resumeSignificant, Session.resumeToken, Resumable.start, hnext,
          Session.nextSignificant_of_failed hnext, record]
        exact h.collect waiting t rfl
      | done token =>
        cases hcomment : token.kind.isComment with
        | false =>
          refine ⟨0, .zero ?_⟩
          simp only [Session.resumeSignificant, Session.resumeToken, Resumable.start, hnext,
            Session.nextSignificant_of_done hnext hcomment, record]
          exact h.collect waiting t hcomment
        | true =>
          -- the second dialogue has collected the comment, and is asked again
          have heof := Session.isEof_of_isComment hcomment
          have hpass := h.pass waiting t hcomment
          have hended : y.ended = false → Dialogue.ended { y with
              session := t, waiting := List.replicate waiting Session.resumeToken,
              outcomes := y.outcomes ++ [.ok token] } = false := by
            intro hunended
            simpa [Dialogue.ended, isLast, heof] using hunended
          have hstart : Session.resumeToken.start s = (t, .done token) := by
            simp only [Session.resumeToken, Resumable.start, hnext]
          rw [hstart, Session.start_resumeSignificant_of_comment hnext hcomment]
          cases hfailure : t.failure with
          | none =>
            obtain ⟨more, hmore⟩ := ih t.weight (Session.next_weight_lt hnext heof) hpass t rfl
            refine ⟨more + 1, .succ hended ?_⟩
            simp only [Dialogue.answer, record, Session.token, Session.significantToken, hfailure]
            exact hmore.of_imp hended
          | some error =>
            refine ⟨1, .succ hended (.zero ?_)⟩
            simp only [Dialogue.answer, record, Session.token, Session.significantToken, hfailure]
            exact hpass.collect waiting t rfl

/-- Each request of the first dialogue is the same one of the second, with further ones for tokens
behind it. -/
theorem Filters.answer (h : Filters x y) (request : Request) :
    ∃ more, (more ≠ 0 → request.asks = true) ∧
      Catches (y.ended = false) (x.answerSignificant request) (y.answer request) more := by
  have hsame : ∀ s, Filters { x with session := s } { y with session := s } := fun _ =>
    ⟨rfl, h.taken, h.outcomes, h.waiting⟩
  obtain ⟨waiting, hx, hy⟩ := h.waiting
  cases request with
  | feed chunk =>
    refine ⟨0, by simp, .zero ?_⟩
    simpa [answerSignificant, Dialogue.answer, h.session] using hsame (y.session.feed chunk)
  | finish =>
    refine ⟨0, by simp, .zero ?_⟩
    simpa [answerSignificant, Dialogue.answer, h.session] using hsame y.session.finish
  | takeWarnings =>
    refine ⟨0, by simp, .zero ⟨?_, ?_, h.outcomes, h.waiting⟩⟩
    · simp [answerSignificant, Dialogue.answer, h.session]
    · simp [answerSignificant, Dialogue.answer, h.session, h.taken]
  | token =>
    simp only [answerSignificant, Dialogue.answer, Session.token, Session.significantToken,
      h.session, hx, hy]
    cases hfailure : y.session.failure with
    | some error => exact ⟨0, by simp, .zero (h.collect waiting y.session rfl)⟩
    | none =>
      obtain ⟨more, hmore⟩ := h.ask waiting
      rw [h.session] at hmore
      exact ⟨more, fun _ => rfl, hmore⟩
  | resume index =>
    simp only [answerSignificant, Dialogue.answer, hx, hy, List.getElem?_replicate]
    by_cases hlt : index < waiting
    · obtain ⟨more, hmore⟩ := h.ask (waiting - 1)
      simp only [hlt, if_true, List.eraseIdx_replicate]
      exact ⟨more, fun _ => rfl, hmore⟩
    · simp only [hlt, if_false]
      exact ⟨0, by simp, .zero h⟩

/-- Every schedule over comments passed over is one over all tokens. -/
theorem Filters.run (h : Filters x y) (requests : List Request) :
    ∃ expanded, Expands requests expanded ∧
      Filters (x.runSignificant requests) (y.run expanded) := by
  induction requests generalizing x y with
  | nil => exact ⟨[], .nil, h⟩
  | cons request requests ih =>
    obtain ⟨more, hasks, hmore⟩ := h.answer request
    obtain ⟨expanded, hexpands, hfilters⟩ := ih hmore.filters
    refine ⟨_, .cons request more hasks hexpands, ?_⟩
    simpa [runSignificant, Dialogue.run, List.foldl_append] using hfilters

theorem Filters.runToEnd (h : Filters x y) (requests : List Request) :
    ∃ expanded, Expands requests expanded ∧
      Filters (x.runSignificantToEnd requests) (y.runToEnd expanded) := by
  induction requests generalizing x y with
  | nil => exact ⟨[], .nil, h⟩
  | cons request requests ih =>
    obtain ⟨more, hasks, hmore⟩ := h.answer request
    obtain ⟨expanded, hexpands, hfilters⟩ := ih hmore.filters
    refine ⟨_, .cons request more hasks hexpands, ?_⟩
    rw [runSignificantToEnd, Dialogue.runToEnd, h.ended]
    cases hended : y.ended with
    | true => simpa using h
    | false => simpa [hmore.goesOn hended] using hfilters

end Simulation

/-! ## Where a schedule ends -/

/-- The session of a dialogue has come to where lexing the source comes from `s` on, or is still on
the way there. -/
structure HeadsFor (source : List UInt8) (s : Session) (x : Dialogue) : Prop where
  onTheWay : x.ended = false → (x.whole source).tokens.1 = s.tokens.1
  pos : x.ended = true → x.session.pos = s.tokens.1.pos
  mode : x.ended = true → x.session.mode = s.tokens.1.mode

section Endings

variable {config : Config} {source left : List UInt8} {x : Dialogue}

theorem Live.headsFor_record (h : x.Live config source left)
    (waiting : List (Resumable Session LexError Token)) :
    HeadsFor source (x.whole source)
      (x.record waiting (Session.resumeToken.start x.session)) := by
  have hended : ∀ (s : Session) (waiting : List (Resumable Session LexError Token))
      (o : Except LexError Token), Dialogue.ended { x with
        session := s, waiting, outcomes := x.outcomes ++ [o] } = isLast o := by
    intro s waiting o
    have hunended : x.outcomes.any isLast = false := h.ended
    simp [Dialogue.ended, hunended]
  cases Session.next_alike h.holds (show (x.surroundings source).window = _ from rfl) h.healthy with
  | @waits t part opened window holds healthy whole =>
    have hrecord : x.record waiting (Session.resumeToken.start x.session) =
        { x with session := t, waiting := waiting ++ [Session.resumeToken] } := by
      simp [record, Session.resumeToken, Resumable.start, part]
    have hunended : Dialogue.ended
        { x with session := t, waiting := waiting ++ [Session.resumeToken] } = false := h.ended
    rw [hrecord]
    refine ⟨fun _ => congrArg Prod.fst (Session.tokens_congr whole), ?_, ?_⟩
    · rw [hunended]
      intro hfalse
      cases hfalse
    · rw [hunended]
      intro hfalse
      cases hfalse
  | @gives t token part window holds healthy whole =>
    have hrecord : x.record waiting (Session.resumeToken.start x.session) =
        { x with session := t, waiting, outcomes := x.outcomes ++ [.ok token] } := by
      simp [record, Session.resumeToken, Resumable.start, part]
    rw [hrecord]
    cases heof : token.kind.isEof with
    | false =>
      have htokens := congrArg Prod.fst (Session.tokens_of_done whole heof)
      refine ⟨fun _ => htokens.symm, ?_, ?_⟩ <;>
        simp [hended, isLast, heof]
    | true =>
      have htokens := congrArg Prod.fst (Session.tokens_of_eof whole heof)
      refine ⟨?_, fun _ => ?_, fun _ => ?_⟩
      · simp [hended, isLast, heof]
      · exact (congrArg Session.pos htokens).symm
      · exact (congrArg Session.mode htokens).symm
  | @fails t error part whole =>
    have hrecord : x.record waiting (Session.resumeToken.start x.session) =
        { x with session := t, waiting, outcomes := x.outcomes ++ [.error error] } := by
      simp [record, Session.resumeToken, Resumable.start, part]
    have htokens := congrArg Prod.fst (Session.tokens_of_failed whole)
    rw [hrecord]
    refine ⟨?_, fun _ => ?_, fun _ => ?_⟩
    · simp [hended, isLast]
    · exact (congrArg Session.pos htokens).symm
    · exact (congrArg Session.mode htokens).symm

theorem Live.headsFor_answer (h : x.Live config source left) (request : Request) :
    HeadsFor source (x.whole source) (x.answer request) := by
  rcases h.answer_cases request with ⟨waiting, hasks⟩ | ⟨houtcomes, hwhole⟩
  · rw [hasks]
    exact h.headsFor_record waiting
  · have hunended : (x.answer request).ended = false := by
      rw [← h.ended, Dialogue.ended, Dialogue.ended, houtcomes]
    refine ⟨fun _ => by rw [hwhole], ?_, ?_⟩ <;> simp [hunended]

/-- Up to its end a schedule brings the session where lexing the source brings it. -/
theorem Live.headsFor {requests : List Request} (h : x.Live config source left)
    (hdelivers : x.session.window.closed = true ∨ Delivers requests left) :
    HeadsFor source (x.whole source) (x.runToEnd requests) := by
  induction requests generalizing x left with
  | nil =>
    refine ⟨fun _ => rfl, ?_, ?_⟩ <;> simp [Dialogue.runToEnd, h.ended]
  | cons request requests ih =>
    have hrun : x.runToEnd (request :: requests) = (x.answer request).runToEnd requests := by
      simp [Dialogue.runToEnd, h.ended]
    have hanswer := h.headsFor_answer request
    rw [hrun]
    rcases h.answer hdelivers with ⟨left', hlive, hdelivers'⟩ | hfinished
    · obtain ⟨honTheWay, hpos, hmode⟩ := ih hlive hdelivers'
      have htokens := hanswer.onTheWay hlive.ended
      exact ⟨fun hunended => (honTheWay hunended).trans htokens,
        fun hended => by rw [hpos hended, htokens], fun hended => by rw [hmode hended, htokens]⟩
    · rw [hfinished.runToEnd]
      exact hanswer

/-- All that lexing the source gives has been collected, with the comments or without them, and the
session stands where lexing ends. -/
structure Complete (config : Config) (source : List UInt8) (skipComments : Bool) (x : Dialogue) :
    Prop where
  outcomes : x.outcomes = keptOutcomes skipComments (lex source config).outcomes
  last : ∃ before o, (lex source config).outcomes = before ++ [o] ∧ isLast o = true
  warnings : x.warnings = (lex source config).warnings
  pos : x.session.pos = (Session.ofSource config source).tokens.1.pos
  mode : x.session.mode = (Session.ofSource config source).tokens.1.mode

theorem complete_of_ended {requests : List Request} (hdelivers : Delivers requests source)
    (hended : ((new config).runToEnd requests).ended = true) :
    Complete config source false ((new config).runToEnd requests) := by
  have hnew := live_new config source
  have hheads := hnew.headsFor (.inr hdelivers)
  rcases hnew.runToEnd (.inr hdelivers) with ⟨left, hlive⟩ | hfinished
  · rw [hlive.ended] at hended
    cases hended
  · obtain ⟨before, o, houtcomes, -, hlast⟩ := hfinished.last
    exact ⟨hfinished.outcomes.symm, ⟨before, o, hfinished.outcomes.trans houtcomes, hlast⟩,
      hfinished.warnings.symm, hheads.pos hended, hheads.mode hended⟩

theorem complete_of_ended_significant {requests : List Request}
    (hdelivers : Delivers requests source)
    (hended : ((new config).runSignificantToEnd requests).ended = true) :
    Complete config source true ((new config).runSignificantToEnd requests) := by
  obtain ⟨expanded, hexpands, hfilters⟩ := (filters_new config).runToEnd requests
  rw [hfilters.ended] at hended
  obtain ⟨houtcomes, hlast, hwarnings, hpos, hmode⟩ :=
    complete_of_ended (hexpands.delivers_iff.mpr hdelivers) hended
  refine ⟨?_, hlast, ?_, ?_, ?_⟩
  · rw [hfilters.outcomes, houtcomes]
    rfl
  · rw [Dialogue.warnings, hfilters.taken, hfilters.session]
    exact hwarnings
  · rw [hfilters.session, hpos]
  · rw [hfilters.session, hmode]

/-- What is seen of the first dialogue is what is seen of the second, without the comments. -/
structure DropsComments (x y : Dialogue) : Prop where
  outcomes : x.outcomes = keptOutcomes true y.outcomes
  /-- The end token or the error is the same. -/
  last : x.outcomes.getLast? = y.outcomes.getLast?
  warnings : x.warnings = y.warnings
  pos : x.session.pos = y.session.pos
  commentDepth : x.session.commentDepth = y.session.commentDepth

theorem Complete.dropsComments {y : Dialogue} (hx : Complete config source true x)
    (hy : Complete config source false y) : DropsComments x y := by
  obtain ⟨before, o, houtcomes, hlast⟩ := hx.last
  have hcomment := isCommentOutcome_of_isLast hlast
  refine ⟨?_, ?_, hx.warnings.trans hy.warnings.symm, hx.pos.trans hy.pos.symm, ?_⟩
  · rw [hx.outcomes, hy.outcomes]
    rfl
  · rw [hx.outcomes, hy.outcomes, houtcomes]
    simp [keptOutcomes, List.filter_append, hcomment]
  · rw [Session.commentDepth, hx.mode, ← hy.mode]
    rfl

end Endings

end Dialogue

end StreamLexer
