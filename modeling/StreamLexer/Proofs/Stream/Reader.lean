import StreamLexer.Proofs.Stream.Delivery

/-!
# Streams over a reader

A reader gives what it has in pieces of its own choosing, is interrupted, gives a read of no bytes,
fails. `reader_streams` says that none of this shows in the items of a stream, except for an error
that comes before the first read of no bytes: it ends the stream, and what has been given by then
is what lexing gives whatever the reader would have given next.
-/
namespace StreamLexer

namespace ReadEvent

/-- A pull does not go beyond a read of no bytes, and takes one only where it gives no chunk. -/
theorem pull_unread (room : Nat) {events later : List ReadEvent}
    (h : .ended :: later <:+ events) :
    later <:+ (pull room events).1 ∧
      ∀ chunk, (pull room events).2 = .ok (some chunk) →
        .ended :: later <:+ (pull room events).1 := by
  have hlater : ∀ {events : List ReadEvent}, .ended :: later <:+ events → later <:+ events :=
    fun h => (List.suffix_cons _ _).trans h
  fun_induction pull room events with
  | case1 => exact absurd h (by simp)
  | case2 events ih => exact ih (by simpa [List.suffix_cons_iff] using h)
  | case3 bytes events =>
    have hrest : .ended :: later <:+ events := by simpa [List.suffix_cons_iff] using h
    exact ⟨hlater hrest, fun _ _ => hrest⟩
  | case4 bytes events _ left =>
    have hrest : .ended :: later <:+ events := by simpa [List.suffix_cons_iff] using h
    have hsuffix := hrest.trans (List.suffix_cons (.data (bytes.drop room)) events)
    exact ⟨hlater hsuffix, fun _ _ => hsuffix⟩
  | case5 events ih => exact ih (by simpa [List.suffix_cons_iff] using h)
  | case6 events =>
    rcases List.suffix_cons_iff.mp h with heq | hrest
    · cases heq
      exact ⟨List.suffix_rfl, by simp⟩
    · exact ⟨hlater hrest, by simp⟩
  | case7 message events =>
    have hrest : .ended :: later <:+ events := by simpa [List.suffix_cons_iff] using h
    exact ⟨hlater hrest, by simp⟩

end ReadEvent

namespace ChunkSource

variable {chunkSize : Nat} {events later : List ReadEvent}

/-- A reader of which chunks have been pulled has not come to a read of no bytes. -/
theorem Pulls.unread {source : ChunkSource} (h : Pulls (.reader chunkSize events) source)
    (hlater : .ended :: later <:+ events) :
    ∃ rest, source = .reader chunkSize rest ∧ .ended :: later <:+ rest := by
  induction h with
  | refl => exact ⟨events, rfl, hlater⟩
  | tail _ hstep ih =>
    obtain ⟨rest, rfl, hrest⟩ := ih
    obtain ⟨chunk, hnext⟩ := hstep
    cases hnext' : ReadEvent.pull (max chunkSize 1) rest with
    | mk rest' answer =>
      have hunread := (ReadEvent.pull_unread (max chunkSize 1) hrest).2 chunk
      simp only [next, hnext', Prod.mk.injEq] at hnext
      rw [hnext'] at hunread
      exact ⟨rest', hnext.1.symm, hunread hnext.2⟩

/-- What a reader would give after a read of no bytes is not read. -/
theorem Used.unread {source : ChunkSource} (h : Used (.reader chunkSize events) source)
    (hlater : .ended :: later <:+ events) :
    ∃ rest, source = .reader chunkSize rest ∧ later <:+ rest := by
  rcases h with hpulls | ⟨last, answer, hpulls, hnext, -⟩
  · obtain ⟨rest, hsource, hrest⟩ := hpulls.unread hlater
    exact ⟨rest, hsource, (List.suffix_cons _ _).trans hrest⟩
  · obtain ⟨rest, rfl, hrest⟩ := hpulls.unread hlater
    have hunread := (ReadEvent.pull_unread (max chunkSize 1) hrest).1
    exact ⟨_, (congrArg Prod.fst hnext).symm, hunread⟩

end ChunkSource

/-- What a stream over a reader gives, of whatever the reader does. -/
structure ReaderStreams (config : Config) (chunkSize : Nat) (skipComments : Bool)
    (events : List ReadEvent) (result : TokenStream × List (Except StreamError Token)) :
    Prop where
  /-- All outcomes of lexing what is delivered, if the reader does not fail before it ends. -/
  complete : ReadEvent.failure? events = none →
    result.2 = (keptOutcomes skipComments (lex (ReadEvent.delivered events) config).outcomes).map
      (Except.mapError .lex)
  /-- If it does, the first outcomes of lexing what is delivered with anything after it, up to
  their end or followed by the error of the reader. -/
  broken : ∀ message, ReadEvent.failure? events = some message →
    ∃ given : List (Except LexError Token),
      (∀ more, given <+:
        keptOutcomes skipComments (lex (ReadEvent.delivered events ++ more) config).outcomes) ∧
      ((∃ before last, given = before ++ [last] ∧ isLast last = true ∧
          result.2 = given.map (Except.mapError .lex)) ∨
        ((∀ o ∈ given, isLast o = false) ∧
          result.2 = given.map (Except.mapError .lex) ++ [.error (.input message)]))
  /-- Nothing is read after a read of no bytes. -/
  unread : ∀ before later, events = before ++ .ended :: later →
    ∃ rest, result.1.source = .reader chunkSize rest ∧ later <:+ rest
  /-- No further item comes, and none is read for. -/
  exhausted : result.1.next = (result.1, none)

/-- A stream over a reader gives what lexing the delivered bytes gives. -/
theorem reader_streams (config : Config) (chunkSize : Nat) (skipComments : Bool)
    (events : List ReadEvent) :
    ReaderStreams config chunkSize skipComments events
      (TokenStream.new config (.reader chunkSize events) skipComments).items := by
  generalize hall : ChunkSource.reader chunkSize events = all
  have hlex : ∀ more, (TokenStream.overAll (.new config) all more).output =
      lex (ReadEvent.delivered events ++ more) config := fun more => by rw [← hall]; rfl
  have hfailure : all.failure? = ReadEvent.failure? events := by rw [← hall]; rfl
  have hunread : ∀ {source : ChunkSource}, all.Used source → ∀ before later,
      events = before ++ .ended :: later →
        ∃ rest, source = .reader chunkSize rest ∧ later <:+ rest := by
    intro source hused before later hevents
    rw [← hall] at hused
    exact hused.unread ⟨before, hevents.symm⟩
  have hstreamed : TokenStream.Streamed all skipComments (.new config)
      (TokenStream.new config all skipComments).items :=
    @TokenStream.items_attached all (.new config all skipComments)
      (TokenStream.attached_new config all) rfl
  generalize (TokenStream.new config all skipComments).items = result at hstreamed ⊢
  cases hstreamed with
  | @lexed st before last ended used isLast whole =>
    refine ⟨fun hnone => ?_, fun message hmessage => ?_, hunread used, st.next_of_ended ended⟩
    · have houtcomes := (whole [] (TokenStream.continues_nil all)).1
      rw [hlex, List.append_nil] at houtcomes
      rw [houtcomes]
    · refine ⟨before ++ [last], fun more => ?_, .inl ⟨before, last, rfl, isLast, rfl⟩⟩
      have houtcomes := (whole more (by simp [TokenStream.Continues, hfailure, hmessage])).1
      rw [hlex] at houtcomes
      rw [houtcomes]
  | @broken st given message ended used failure unended whole =>
    rw [hfailure] at failure
    refine ⟨fun hnone => ?_, fun message' hmessage => ?_, hunread used, st.next_of_ended ended⟩
    · rw [failure] at hnone
      cases hnone
    · rw [failure] at hmessage
      cases hmessage
      refine ⟨given, fun more => ?_, .inr ⟨unended, rfl⟩⟩
      rw [← hlex]
      exact whole more

end StreamLexer
