import Mathlib.Logic.Relation
import StreamLexer.Proofs.Session.Schedule
import StreamLexer.Proofs.Session.Significant
import StreamLexer.Stream.TokenStream

/-!
# Streams and what their sources deliver

A stream pulls from its source only while its session cannot decide. `Attached` is the invariant:
the session holds a piece of what the source delivers, and what is still to be pulled is the rest
of it. A session that waits goes on after the next pull; `TokenStream.settle_attached` follows it to
its answer, and `TokenStream.items_attached` follows a stream to its end.

What a source delivers may be cut short by an error. Then nothing is known of what would have come,
and what the stream gives is compared with the lexing of every continuation.
-/
namespace StreamLexer

/-! ## What a source delivers -/

namespace ReadEvent

/-- The bytes that come before a read of no bytes or an error. -/
def delivered : List ReadEvent → List UInt8
  | [] => []
  | .data bytes :: events => bytes ++ delivered events
  | .interrupted :: events => delivered events
  | .ended :: _ => []
  | .failed _ :: _ => []

/-- The error that comes before a read of no bytes. -/
def failure? : List ReadEvent → Option String
  | [] => none
  | .data _ :: events => failure? events
  | .interrupted :: events => failure? events
  | .ended :: _ => none
  | .failed message :: _ => some message

end ReadEvent

namespace ChunkSource

/-- The bytes that come before the end of input or an error. -/
def delivered : ChunkSource → List UInt8
  | .chunks rest => rest.flatten
  | .reader _ events => ReadEvent.delivered events

/-- The error that comes before the end of input. -/
def failure? : ChunkSource → Option String
  | .chunks _ => none
  | .reader _ events => ReadEvent.failure? events

/-- How a pull accounts for what the source delivers. -/
def Accounts (source : ChunkSource) :
    ChunkSource × Except String (Option (List UInt8)) → Prop
  | (rest, .ok (some chunk)) =>
    source.delivered = chunk ++ rest.delivered ∧ source.failure? = rest.failure?
  | (_, .ok none) => source.delivered = [] ∧ source.failure? = none
  | (_, .error message) => source.delivered = [] ∧ source.failure? = some message

theorem accounts_pull (chunkSize room : Nat) (events : List ReadEvent) :
    Accounts (.reader chunkSize events)
      (.reader chunkSize (ReadEvent.pull room events).1, (ReadEvent.pull room events).2) := by
  fun_induction ReadEvent.pull room events with
  | case1 => exact ⟨rfl, rfl⟩
  | case2 events ih => exact ih
  | case3 bytes events _ hdrop => exact ⟨rfl, rfl⟩
  | case4 bytes events _ hdrop =>
    refine ⟨?_, rfl⟩
    simp only [delivered, ReadEvent.delivered, ← List.append_assoc, List.take_append_drop]
  | case5 events ih => exact ih
  | case6 => exact ⟨rfl, rfl⟩
  | case7 => exact ⟨rfl, rfl⟩

theorem next_accounts (source : ChunkSource) : source.Accounts source.next := by
  match source with
  | .chunks [] => exact ⟨rfl, rfl⟩
  | .chunks (chunk :: rest) => exact ⟨rfl, rfl⟩
  | .reader chunkSize events => exact accounts_pull chunkSize _ events

/-- Some chunks have been pulled. -/
def Pulls : ChunkSource → ChunkSource → Prop :=
  Relation.ReflTransGen fun source rest => ∃ chunk, source.next = (rest, .ok (some chunk))

/-- Some chunks have been pulled, and then perhaps the end of input or an error. -/
def Used (source rest : ChunkSource) : Prop :=
  source.Pulls rest ∨ ∃ last answer, source.Pulls last ∧ last.next = (rest, answer) ∧
    ∀ chunk, answer ≠ .ok (some chunk)

end ChunkSource

namespace TokenStream

section Settle

variable {st : TokenStream} {s : Session}

theorem settle_done (token : Token) :
    st.settle (s, .done token) =
      ({ st with session := s, ended := token.kind.isEof }, some (.ok token)) := by
  rw [settle]

theorem settle_failed (error : LexError) :
    st.settle (s, .failed error) =
      ({ st with session := s, ended := true }, some (.error (.lex error))) := by
  rw [settle]

theorem settle_chunk {rest : ChunkSource} {chunk : List UInt8}
    (h : st.source.next = (rest, .ok (some chunk))) :
    st.settle (s, .pending) =
      settle { st with session := s, source := rest } (st.ask (s.feed chunk)) := by
  rw [settle]
  split
  · rename_i h₁
    rw [h] at h₁
    cases h₁
  · rename_i h₁
    rw [h] at h₁
    cases h₁
    rfl
  · rename_i h₁
    rw [h] at h₁
    cases h₁

theorem settle_error {rest : ChunkSource} {message : String}
    (h : st.source.next = (rest, .error message)) :
    st.settle (s, .pending) =
      ({ st with session := s, source := rest, ended := true },
        some (.error (.input message))) := by
  rw [settle]
  split
  · rename_i h₁
    rw [h] at h₁
    cases h₁
    rfl
  · rename_i h₁
    rw [h] at h₁
    cases h₁
  · rename_i h₁
    rw [h] at h₁
    cases h₁

/-- Where the source has run dry, the session is asked again, on complete input. -/
theorem settle_dry {rest : ChunkSource} (h : st.source.next = (rest, .ok none)) :
    st.settle (s, .pending) =
      settle { st with session := s, source := rest } (st.ask s.finish) := by
  rw [settle]
  split
  · rename_i h₁
    rw [h] at h₁
    cases h₁
  · rename_i h₁
    rw [h] at h₁
    cases h₁
  · rename_i h₁
    rw [h] at h₁
    cases h₁
    rfl

end Settle

/-! ## The session and its source -/

/-- The session over all that a source delivers, and `more` if that is cut short. -/
def overAll (s : Session) (all : ChunkSource) (more : List UInt8) : Session :=
  s.within (.ofSource (all.delivered ++ more))

/-- These bytes might have come after those that are delivered. -/
def Continues (all : ChunkSource) (more : List UInt8) : Prop :=
  all.failure? = none → more = []

theorem continues_nil (all : ChunkSource) : Continues all [] :=
  fun _ => rfl

/-- What is still to come from a source `all` of which `source` is left: its rest, or nothing once
the end of input has been pulled. -/
inductive Supply (all source : ChunkSource) : Bool → List UInt8 → Prop
  | flowing (pulls : all.Pulls source) (ending : all.failure? = source.failure?) :
    Supply all source false source.delivered
  | dry (used : all.Used source) (ending : all.failure? = none) : Supply all source true []

/-- A session has been given what has been pulled so far from a source `all`. -/
structure Attached (all source : ChunkSource) (s : Session) : Prop where
  healthy : s.failure = none
  held : ∃ left, Supply all source s.window.closed left ∧
    ∀ more, Continues all more → s.Holds (all.delivered ++ more) (left ++ more)

theorem attached_new (config : Config) (source : ChunkSource) :
    Attached source source (.new config) :=
  ⟨rfl, source.delivered, .flowing .refl rfl, fun _ _ => Session.holds_new config _⟩

section Attached

variable {all source : ChunkSource} {s : Session} {skip : Bool}

theorem Attached.used (h : Attached all source s) : all.Used source := by
  obtain ⟨left, hsupply, -⟩ := h.held
  generalize s.window.closed = closed at hsupply
  cases hsupply with
  | flowing pulls => exact .inl pulls
  | dry used => exact used

/-- The session waits, or it gives the answer that it would give over all that is delivered,
whatever might come after that. -/
inductive Answers (all source : ChunkSource) (skip : Bool) (s : Session) : Prop
  | waits {t : Session} (part : s.request skip = (t, .pending)) (opened : s.window.closed = false)
      (window : t.window = s.window) (attached : Attached all source t)
      (whole : ∀ more, Continues all more →
        (overAll t all more).request skip = (overAll s all more).request skip)
  | gives {t : Session} {token : Token} (part : s.request skip = (t, .done token))
      (attached : Attached all source t)
      (whole : ∀ more, Continues all more →
        (overAll s all more).request skip = (overAll t all more, .done token))
  | fails {t : Session} {error : LexError} (part : s.request skip = (t, .failed error))
      (whole : ∀ more, Continues all more → ∃ w : Session,
        (overAll s all more).request skip = (w, .failed error) ∧ w.warnings = t.warnings)

theorem Attached.answers (h : Attached all source s) (skip : Bool) :
    Answers all source skip s := by
  obtain ⟨left, hsupply, hholds⟩ := h.held
  have halike : ∀ more, Continues all more → Session.AnswersAlike (Session.request skip)
      (all.delivered ++ more) (left ++ more) (.ofSource (all.delivered ++ more)) s :=
    fun more hmore => Session.request_alike skip (hholds more hmore) rfl h.healthy rfl
  -- the answer of the session itself is the same, whatever is to come
  cases halike [] (continues_nil all) with
  | @waits t part opened window holds healthy whole =>
    have hothers : ∀ more, Continues all more → t.Holds (all.delivered ++ more) (left ++ more) ∧
        (overAll t all more).request skip = (overAll s all more).request skip := by
      intro more hmore
      cases halike more hmore with
      | waits part' _ _ holds _ whole =>
        rw [part] at part'
        cases part'
        exact ⟨holds, whole⟩
      | gives part' =>
        rw [part] at part'
        cases part'
      | fails part' =>
        rw [part] at part'
        cases part'
    refine .waits part opened window ⟨healthy, left, ?_, fun more hmore => (hothers more hmore).1⟩
      fun more hmore => (hothers more hmore).2
    rw [window]
    exact hsupply
  | @gives t token part window holds healthy whole =>
    have hothers : ∀ more, Continues all more → t.Holds (all.delivered ++ more) (left ++ more) ∧
        (overAll s all more).request skip = (overAll t all more, .done token) := by
      intro more hmore
      cases halike more hmore with
      | waits part' =>
        rw [part] at part'
        cases part'
      | gives part' _ holds _ whole =>
        rw [part] at part'
        cases part'
        exact ⟨holds, whole⟩
      | fails part' =>
        rw [part] at part'
        cases part'
    refine .gives part ⟨healthy, left, ?_, fun more hmore => (hothers more hmore).1⟩
      fun more hmore => (hothers more hmore).2
    rw [window]
    exact hsupply
  | @fails t error part whole =>
    refine .fails part fun more hmore => ?_
    cases halike more hmore with
    | waits part' =>
      rw [part] at part'
      cases part'
    | gives part' =>
      rw [part] at part'
      cases part'
    | fails part' whole =>
      rw [part] at part'
      cases part'
      exact ⟨_, whole, by simp [Surroundings.ofSource]⟩

/-- A chunk that is pulled is handed over. -/
theorem Attached.feed (h : Attached all source s) (hopen : s.window.closed = false)
    {rest : ChunkSource} {chunk : List UInt8} (hnext : source.next = (rest, .ok (some chunk))) :
    Attached all rest (s.feed chunk) := by
  obtain ⟨left, hsupply, hholds⟩ := h.held
  have haccounts := source.next_accounts
  rw [hnext] at haccounts
  rw [hopen] at hsupply
  cases hsupply with
  | flowing pulls ending =>
    have hclosed : (s.feed chunk).window.closed = false := by
      simp [Session.feed, Window.push, Window.releaseBefore, hopen]
    refine ⟨h.healthy, rest.delivered, ?_, ?_⟩
    · rw [hclosed]
      exact .flowing (pulls.tail ⟨chunk, hnext⟩) (ending.trans haccounts.2)
    · intro more hmore
      have hheld := hholds more hmore
      rw [haccounts.1, List.append_assoc] at hheld
      exact hheld.feed hopen

/-- Where the end of input is pulled, the session is told. -/
theorem Attached.finish (h : Attached all source s) (hopen : s.window.closed = false)
    {rest : ChunkSource} (hnext : source.next = (rest, .ok none)) :
    Attached all rest s.finish := by
  obtain ⟨left, hsupply, hholds⟩ := h.held
  have haccounts := source.next_accounts
  rw [hnext] at haccounts
  rw [hopen] at hsupply
  cases hsupply with
  | flowing pulls ending =>
    have hnone : all.failure? = none := ending.trans haccounts.2
    have hused : all.Used rest := .inr ⟨source, .ok none, pulls, hnext, by simp⟩
    refine ⟨h.healthy, [], .dry hused hnone, ?_⟩
    intro more hmore
    obtain rfl := hmore hnone
    have hheld := hholds [] (continues_nil all)
    rw [haccounts.1, List.nil_append] at hheld
    exact hheld.finish

/-- An error that is pulled is the one that cuts the input short. -/
theorem Attached.failure (h : Attached all source s) (hopen : s.window.closed = false)
    {rest : ChunkSource} {message : String} (hnext : source.next = (rest, .error message)) :
    all.failure? = some message ∧ all.Used rest := by
  obtain ⟨left, hsupply, -⟩ := h.held
  have haccounts := source.next_accounts
  rw [hnext] at haccounts
  rw [hopen] at hsupply
  cases hsupply with
  | flowing pulls ending =>
    exact ⟨ending.trans haccounts.2, .inr ⟨source, .error message, pulls, hnext, by simp⟩⟩

end Attached

/-! ## The answers of a stream -/

/-- An item of a stream, with what it says about the lexing of all that is delivered. -/
inductive Settled (all : ChunkSource) (skip : Bool) (s : Session) :
    TokenStream × Option (Except StreamError Token) → Prop
  | token {st : TokenStream} {token : Token} (ended : st.ended = token.kind.isEof)
      (skips : st.skipComments = skip) (attached : Attached all st.source st.session)
      (whole : ∀ more, Continues all more →
        (overAll s all more).request skip = (overAll st.session all more, .done token)) :
      Settled all skip s (st, some (.ok token))
  | lexError {st : TokenStream} {error : LexError} (ended : st.ended = true)
      (used : all.Used st.source)
      (whole : ∀ more, Continues all more → ∃ w : Session,
        (overAll s all more).request skip = (w, .failed error) ∧
          w.warnings = st.session.warnings) :
      Settled all skip s (st, some (.error (.lex error)))
  | inputError {st : TokenStream} {message : String} (ended : st.ended = true)
      (used : all.Used st.source) (failure : all.failure? = some message) :
      Settled all skip s (st, some (.error (.input message)))

section Settled

variable {all : ChunkSource} {st : TokenStream} {s t : Session}

/-- A wait changes nothing about what is said of the whole. -/
theorem Settled.of_waits {skip : Bool} {r : TokenStream × Option (Except StreamError Token)}
    (h : Settled all skip t r)
    (whole : ∀ more, Continues all more →
      (overAll t all more).request skip = (overAll s all more).request skip) :
    Settled all skip s r := by
  cases h with
  | token ended skips attached whole' =>
    exact .token ended skips attached fun more hmore => by
      rw [← whole more hmore, whole' more hmore]
  | lexError ended used whole' =>
    exact .lexError ended used fun more hmore => by
      rw [← whole more hmore]
      exact whole' more hmore
  | inputError ended used failure => exact .inputError ended used failure

theorem settle_answered (h : Attached all st.source s)
    (hanswers : (s.request st.skipComments).2 ≠ .pending) :
    Settled all st.skipComments s (st.settle (s.request st.skipComments)) := by
  cases h.answers st.skipComments with
  | waits part => exact absurd (by rw [part]) hanswers
  | gives part attached whole =>
    rw [part, settle_done]
    exact .token rfl rfl attached whole
  | fails part whole =>
    rw [part, settle_failed]
    exact .lexError rfl h.used whole

/-- Chunks are handed over until the session over all that is delivered would have answered. -/
theorem settle_attached (h : Attached all st.source s) :
    Settled all st.skipComments s (st.settle (s.request st.skipComments)) := by
  -- each chunk is another try; the whole session stays where it was
  induction hweight : st.source.weight using Nat.strongRecOn generalizing st s with
  | ind n ih =>
    subst hweight
    cases h.answers st.skipComments with
    | gives part => exact settle_answered h (by rw [part]; simp)
    | fails part => exact settle_answered h (by rw [part]; simp)
    | @waits t part opened window attached whole =>
      have hopen : t.window.closed = false := (congrArg Window.closed window).trans opened
      cases hnext : st.source.next with
      | mk rest pulled =>
        cases pulled with
        | error message =>
          obtain ⟨hfailure, hused⟩ := attached.failure hopen hnext
          rw [part, settle_error hnext]
          exact .inputError rfl hused hfailure
        | ok pulled =>
          cases pulled with
          | some chunk =>
            have hless := (ChunkSource.next_weight hnext).2
            have hfed := @ih rest.weight hless { st with session := t, source := rest }
              (t.feed chunk) (attached.feed hopen hnext) rfl
            rw [part, settle_chunk hnext]
            exact hfed.of_waits whole
          | none =>
            have hfinished := attached.finish hopen hnext
            have hanswers : (t.finish.request st.skipComments).2 ≠ .pending :=
              st.ask_ne_pending rfl
            have hsettled := @settle_answered all { st with session := t, source := rest }
              t.finish hfinished hanswers
            rw [part, settle_dry hnext]
            exact hsettled.of_waits whole

end Settled

/-! ## All items -/

theorem items_of_item {st st' : TokenStream} {item : Except StreamError Token}
    (h : st.next = (st', some item)) : st.items = (st'.items.1, item :: st'.items.2) := by
  rw [items]
  split
  · rename_i h₁
    rw [h] at h₁
    cases h₁
  · rename_i h₁
    rw [h] at h₁
    cases h₁
    rfl

theorem next_of_ended (st : TokenStream) (h : st.ended = true) : st.next = (st, none) := by
  simp [next, h]

theorem items_of_ended {st : TokenStream} (h : st.ended = true) : st.items = (st, []) := by
  have hnext := st.next_of_ended h
  rw [items]
  split
  · rename_i h₁
    rw [hnext] at h₁
    cases h₁
    rfl
  · rename_i h₁
    rw [hnext] at h₁
    cases h₁

/-- The stream ends with this item: an error or an end token. -/
def isLastItem : Except StreamError Token → Bool
  | .ok token => token.kind.isEof
  | .error _ => true

/-- How a stream ends, and what it has given by then: all outcomes of the lexing, whatever might
come after what is delivered, or the first ones of them and then the error of the source. -/
inductive Streamed (all : ChunkSource) (skip : Bool) (s : Session) :
    TokenStream × List (Except StreamError Token) → Prop
  | lexed {st : TokenStream} (before : List (Except LexError Token))
      (last : Except LexError Token) (ended : st.ended = true) (used : all.Used st.source)
      (isLast : isLast last = true)
      (whole : ∀ more, Continues all more →
        keptOutcomes skip (overAll s all more).output.outcomes = before ++ [last] ∧
          (overAll s all more).output.warnings = st.session.warnings.toList) :
      Streamed all skip s (st, (before ++ [last]).map (Except.mapError .lex))
  | broken {st : TokenStream} (given : List (Except LexError Token)) {message : String}
      (ended : st.ended = true) (used : all.Used st.source)
      (failure : all.failure? = some message) (unended : ∀ o ∈ given, StreamLexer.isLast o = false)
      (whole : ∀ more, given <+: keptOutcomes skip (overAll s all more).output.outcomes) :
      Streamed all skip s
        (st, given.map (Except.mapError .lex) ++ [.error (.input message)])

section Items

variable {all : ChunkSource} {skip : Bool} {s t : Session} {st : TokenStream}
  {items : List (Except StreamError Token)}

/-- A token comes before what is given after it. -/
theorem Streamed.cons (h : Streamed all skip t (st, items)) {token : Token}
    (heof : token.kind.isEof = false)
    (whole : ∀ more, Continues all more →
      keptOutcomes skip (overAll s all more).output.outcomes =
          .ok token :: keptOutcomes skip (overAll t all more).output.outcomes ∧
        (overAll s all more).output.warnings = (overAll t all more).output.warnings) :
    Streamed all skip s (st, .ok token :: items) := by
  cases h with
  | lexed before last ended used isLast whole' =>
    refine .lexed (.ok token :: before) last ended used isLast fun more hmore => ?_
    obtain ⟨houtcomes, hwarnings⟩ := whole more hmore
    obtain ⟨houtcomes', hwarnings'⟩ := whole' more hmore
    exact ⟨by rw [houtcomes, houtcomes']; rfl, hwarnings.trans hwarnings'⟩
  | broken given ended used failure unended whole' =>
    refine .broken (.ok token :: given) ended used failure ?_ fun more => ?_
    · intro o ho
      rcases List.mem_cons.mp ho with rfl | ho
      · exact heof
      · exact unended o ho
    · have hmore : Continues all more := by
        intro hnone
        rw [failure] at hnone
        cases hnone
      rw [(whole more hmore).1]
      exact List.prefix_cons_inj _ |>.mpr (whole' more)

/-- A stream gives the outcomes of the lexing of all that its source delivers. -/
theorem items_attached (h : Attached all st.source st.session) (hended : st.ended = false) :
    Streamed all st.skipComments st.session st.items := by
  induction hsize : st.size using Nat.strongRecOn generalizing st with
  | ind n ih =>
    subst hsize
    have hnext : st.next = st.settle (st.session.request st.skipComments) := by
      simp only [next, hended, h.healthy, Bool.false_eq_true, if_false]
      rfl
    have hsettled := settle_attached h
    rw [← hnext] at hsettled
    cases hresult : st.next with
    | mk st' item =>
      rw [hresult] at hsettled
      cases hsettled with
      | @token _ token ended skips attached whole =>
        rw [items_of_item hresult]
        by_cases heof : token.kind.isEof = true
        · rw [items_of_ended (ended.trans heof)]
          refine .lexed [] (.ok token) (ended.trans heof) attached.used heof fun more hmore => ?_
          obtain ⟨houtcomes, hwarnings⟩ := Session.kept_of_eof rfl (whole more hmore) heof
          exact ⟨houtcomes, by simpa [overAll, Surroundings.ofSource] using hwarnings⟩
        · have hother : token.kind.isEof = false := by simpa using heof
          have hrest := ih st'.size (size_next_lt hresult) attached (ended.trans hother) rfl
          rw [skips] at hrest
          exact hrest.cons hother fun more hmore =>
            Session.kept_of_done rfl (whole more hmore) hother
      | @lexError _ error ended used whole =>
        rw [items_of_item hresult, items_of_ended ended]
        refine .lexed [] (.error error) ended used rfl fun more hmore => ?_
        obtain ⟨w, hwhole, hwarnings⟩ := whole more hmore
        obtain ⟨houtcomes, hwarnings'⟩ := Session.kept_of_failed rfl hwhole
        exact ⟨houtcomes, hwarnings'.trans (congrArg Array.toList hwarnings)⟩
      | @inputError _ message ended used failure =>
        rw [items_of_item hresult, items_of_ended ended]
        exact .broken [] ended used failure (by simp) fun _ => List.nil_prefix

end Items

end TokenStream

end StreamLexer
