import StreamLexer.Proofs.Session.Filtering
import StreamLexer.Proofs.Stream.Delivery

/-!
# Streams that leave out comments

A stream that leaves out comments pulls from its source exactly where the plain one does. It gives
the item of the plain stream, or, where that is a comment, what the plain stream would give next
(`next_skipping`); so it gives the items of the plain stream without the comments, and both end in
the same state.

`comments_filtered` states this together with what holds of the sessions themselves.
-/
namespace StreamLexer

/-- The item is a comment. -/
def isCommentItem : Except StreamError Token → Bool
  | .ok token => token.kind.isComment
  | .error _ => false

namespace TokenStream

/-- The same stream, which leaves out comments from here on. -/
def skipping (st : TokenStream) : TokenStream :=
  { st with skipComments := true }

/-- What becomes of an item of the plain stream where comments are left out. -/
def passComment : TokenStream × Option (Except StreamError Token) →
    TokenStream × Option (Except StreamError Token)
  | (st, some (.ok token)) =>
    if token.kind.isComment then st.skipping.next else (st.skipping, some (.ok token))
  | (st, item) => (st.skipping, item)

section Skipping

variable {st : TokenStream}

/-- The answer brings its session with it. -/
theorem settle_session (s : Session) (answer : Session × Poll LexError Token) :
    { st with session := s }.settle answer = st.settle answer := by
  rw [settle.eq_def, settle.eq_def st]
  rfl

/-- A stream that has not ended goes on with what its session answers, or with its error. -/
theorem next_of_running (h : st.ended = false) :
    st.next = st.settle
      (match st.session.failure with
      | some error => (st.session, .failed error)
      | none => st.ask st.session) := by
  cases hfailure : st.session.failure <;> simp [next, h, hfailure]

theorem settle_passComment_of_answered (hrunning : st.ended = false)
    {answer : Session × Poll LexError Token} (hanswers : answer.2 ≠ .pending) :
    st.skipping.settle (Session.passComment answer) = passComment (st.settle answer) := by
  obtain ⟨s, token | error | _⟩ := answer
  · rw [settle_done]
    cases hcomment : token.kind.isComment with
    | false =>
      simp only [Session.passComment, passComment, hcomment, Bool.false_eq_true, if_false]
      exact settle_done token
    | true =>
      have heof := Session.isEof_of_isComment hcomment
      simp only [Session.passComment, passComment, hcomment, heof, if_true]
      rw [next_of_running (by rfl), ← settle_session s]
      cases hfailure : s.failure <;> simp only [skipping, ask, if_true, hrunning, hfailure]
  · exact (settle_failed error).trans (congrArg passComment (settle_failed error)).symm
  · exact absurd rfl hanswers

/-- Where the plain stream gives the item of an answer, the other one gives that of what is left of
the answer. -/
theorem settle_passComment (hplain : st.skipComments = false) (hrunning : st.ended = false)
    (answer : Session × Poll LexError Token) :
    st.skipping.settle (Session.passComment answer) = passComment (st.settle answer) := by
  -- each chunk is another try, for both streams
  induction hweight : st.source.weight using Nat.strongRecOn generalizing st answer with
  | ind n ih =>
    subst hweight
    obtain ⟨s, token | error | _⟩ := answer
    · exact settle_passComment_of_answered hrunning (by simp)
    · exact settle_passComment_of_answered hrunning (by simp)
    have hask : ∀ t, st.ask t = t.next ∧ st.skipping.ask t = Session.passComment t.next := by
      intro t
      refine ⟨by simp [ask, hplain], ?_⟩
      exact Session.nextSignificant_eq_passComment t
    cases hnext : st.source.next with
    | mk rest pulled =>
      cases pulled with
      | error message =>
        rw [settle_error hnext]
        exact settle_error hnext
      | ok pulled =>
        cases pulled with
        | some chunk =>
          obtain ⟨hplainAsk, hskippingAsk⟩ := hask (s.feed chunk)
          have hfed := @ih rest.weight (ChunkSource.next_weight hnext).2
            { st with session := s, source := rest } hplain hrunning (s.feed chunk).next rfl
          rw [settle_chunk hnext, hplainAsk, ← hfed, ← hskippingAsk]
          exact settle_chunk hnext
        | none =>
          obtain ⟨hplainAsk, hskippingAsk⟩ := hask s.finish
          have hclosed : s.finish.window.closed = true := rfl
          have hanswers := Session.next_ne_pending hclosed
          have hanswered := @settle_passComment_of_answered
            { st with session := s, source := rest } hrunning _ hanswers
          rw [settle_dry hnext, hplainAsk, ← hanswered, ← hskippingAsk]
          exact settle_dry hnext

/-- What the plain stream gives next, the other one gives, unless it is a comment: then it gives
what it would give next behind that. -/
theorem next_skipping (hplain : st.skipComments = false) :
    st.skipping.next = passComment st.next := by
  by_cases hended : st.ended = true
  · rw [next_of_ended st hended]
    exact next_of_ended st.skipping hended
  · have hrunning : st.ended = false := by simpa using hended
    rw [next_of_running hrunning, ← settle_passComment hplain hrunning]
    refine (next_of_running (show st.skipping.ended = false from hrunning)).trans ?_
    show st.skipping.settle _ = _
    simp only [skipping, ask, hplain, if_true, Bool.false_eq_true, if_false]
    cases hfailure : st.session.failure with
    | some error => rfl
    | none => simp only [Session.nextSignificant_eq_passComment]

theorem settle_skipComments (st : TokenStream) (answer : Session × Poll LexError Token) :
    (st.settle answer).1.skipComments = st.skipComments := by
  fun_induction settle st answer with
  | case4 _ _ _ _ _ ih => exact ih
  | case5 _ _ _ _ ih => exact ih
  | _ => rfl

theorem next_skipComments (st : TokenStream) : st.next.1.skipComments = st.skipComments := by
  unfold next
  split
  · rfl
  · split <;> exact settle_skipComments st _

theorem items_of_none {st' : TokenStream} (h : st.next = (st', none)) : st.items = (st', []) := by
  rw [items]
  split
  · rename_i h₁
    rw [h] at h₁
    cases h₁
    rfl
  · rename_i h₁
    rw [h] at h₁
    cases h₁

theorem items_congr {st' : TokenStream} (h : st.next = st'.next) : st.items = st'.items := by
  cases hnext : st'.next with
  | mk st'' item =>
    rw [hnext] at h
    cases item with
    | none => rw [items_of_none h, items_of_none hnext]
    | some item => rw [items_of_item h, items_of_item hnext]

/-- A stream that leaves out comments gives the items of the plain one without them, and comes to
its end in the same state. -/
theorem items_skipping (hplain : st.skipComments = false) :
    st.skipping.items =
      (st.items.1.skipping, st.items.2.filter fun item => !isCommentItem item) := by
  induction hsize : st.size using Nat.strongRecOn generalizing st with
  | ind n ih =>
    subst hsize
    have hskipping := next_skipping hplain
    cases hnext : st.next with
    | mk st' item =>
      have hplain' : st'.skipComments = false := by
        have hsame := next_skipComments st
        rw [hnext] at hsame
        exact hsame.trans hplain
      rw [hnext] at hskipping
      cases item with
      | none => rw [items_of_none hnext, items_of_none hskipping]; rfl
      | some item =>
        have hrest := ih st'.size (size_next_lt hnext) hplain' rfl
        rw [items_of_item hnext]
        obtain error | token := item
        · rw [items_of_item hskipping, hrest]
          rfl
        · simp only [passComment] at hskipping
          by_cases hcomment : token.kind.isComment = true
          · rw [if_pos hcomment] at hskipping
            rw [items_congr hskipping, hrest]
            simp [isCommentItem, hcomment]
          · rw [if_neg hcomment] at hskipping
            rw [items_of_item hskipping, hrest]
            simp [isCommentItem, hcomment]

/-- A stream over a source ends with the end token or an error. -/
theorem last_new (config : Config) (source : ChunkSource) :
    ∃ before last, (new config source false).items.2 = before ++ [last] ∧
      isLastItem last = true := by
  have hstreamed : Streamed source false (.new config) (new config source false).items :=
    @items_attached source (.new config source false) (attached_new config source) rfl
  generalize (new config source false).items = result at hstreamed ⊢
  cases hstreamed with
  | lexed before last ended used isLast whole =>
    refine ⟨_, _, List.map_append, ?_⟩
    cases last with
    | error error => rfl
    | ok token => exact isLast
  | broken given ended used failure unended whole => exact ⟨_, _, rfl, rfl⟩

/-- That is no comment. -/
theorem isCommentItem_of_isLastItem {item : Except StreamError Token}
    (h : isLastItem item = true) : isCommentItem item = false := by
  cases item with
  | error error => rfl
  | ok token =>
    have hcomment : isCommentOutcome (.ok token) = false := isCommentOutcome_of_isLast h
    exact hcomment

end Skipping

end TokenStream

/-- To leave out comments is nothing but to filter them out, for streams over any source and for
sessions under any schedule. -/
structure FiltersComments (config : Config) : Prop where
  /-- A stream that leaves out comments gives the items of the plain one that are none. -/
  items : ∀ source, (TokenStream.new config source true).items.2 =
    (TokenStream.new config source false).items.2.filter fun item => !isCommentItem item
  /-- The plain stream ends with the end token or an error. -/
  ends : ∀ source, ∃ item, (TokenStream.new config source false).items.2.getLast? = some item ∧
    TokenStream.isLastItem item = true
  /-- The end token or the error is the same. -/
  last : ∀ source, (TokenStream.new config source true).items.2.getLast? =
    (TokenStream.new config source false).items.2.getLast?
  /-- The session comes to the same end, with the same warnings, position and comment depth. -/
  session : ∀ source, (TokenStream.new config source true).items.1.session =
    (TokenStream.new config source false).items.1.session
  /-- However it is driven, a request for a token that is not a comment is one for a token and,
  behind a comment, the same request again. -/
  request : ∀ s : Session,
    Resumable.SameRuns s.significantToken (s.token.2.andThen s.token.1 Session.afterComment)
  /-- Every schedule of such requests is one of requests for all tokens, with further ones behind
  them: the session is the same, and the outcomes differ by the comments. -/
  expands : ∀ requests, ∃ expanded, Expands requests expanded ∧
    ((Dialogue.new config).runSignificant requests).Filters ((Dialogue.new config).run expanded)
  /-- Two schedules of the two kinds that deliver the same source and come to an end differ by the
  comments only. -/
  schedules : ∀ source requests requests', Delivers requests source → Delivers requests' source →
    ((Dialogue.new config).runSignificantToEnd requests).ended = true →
    ((Dialogue.new config).runToEnd requests').ended = true →
    ((Dialogue.new config).runSignificantToEnd requests).DropsComments
      ((Dialogue.new config).runToEnd requests')

/-- Comments that are left out are missed by nobody. -/
theorem comments_filtered (config : Config) : FiltersComments config := by
  have hitems : ∀ source, (TokenStream.new config source true).items =
      ((TokenStream.new config source false).items.1.skipping,
        (TokenStream.new config source false).items.2.filter fun item => !isCommentItem item) :=
    fun source => @TokenStream.items_skipping (.new config source false) rfl
  refine ⟨fun source => ?_, fun source => ?_, fun source => ?_, fun source => ?_,
    Session.significantToken_sameRuns, fun requests => (Dialogue.filters_new config).run requests,
    ?_⟩
  · rw [hitems]
  · obtain ⟨before, last, hbefore, hlast⟩ := TokenStream.last_new config source
    exact ⟨last, by rw [hbefore, List.getLast?_concat], hlast⟩
  · obtain ⟨before, last, hbefore, hlast⟩ := TokenStream.last_new config source
    rw [hitems, hbefore]
    simp [List.filter_append, TokenStream.isCommentItem_of_isLastItem hlast]
  · rw [hitems]
    rfl
  · intro source requests requests' hdelivers hdelivers' hended hended'
    exact (Dialogue.complete_of_ended_significant hdelivers hended).dropsComments
      (Dialogue.complete_of_ended hdelivers' hended')

end StreamLexer
