import StreamLexer.Proofs.Stream.Delivery

/-!
# Chunks and schedules make no difference

Lexing does not depend on where the input is cut into chunks, nor on when a session is asked for
tokens and gone on with. For a schedule of requests that is `FollowsLex`; a token stream over a list
of chunks plays one particular schedule.

The main statement is `chunking_and_scheduling`. It counts the warnings up to the first end token or
error: what a session records when it is used beyond that is no longer that of the source, as
`warnings_beyond_the_end` shows.

Quotations may nest to any depth here. A session that counts them in 32 bits does the same until one
`NestsTooDeep`, which takes `2 ^ 32` bytes at least: `FlatSession.lexes_iff`.
-/
namespace StreamLexer

/-! ## Streams over chunks -/

/-- A stream over chunks gives what lexing their bytes gives. -/
theorem TokenStream.items_chunks (config : Config) (chunks : List (List UInt8)) :
    (TokenStream.new config (.chunks chunks) false).items.2 =
        (lex chunks.flatten config).outcomes.map (Except.mapError .lex) ∧
      (TokenStream.new config (.chunks chunks) false).items.1.session.warnings.toList =
        (lex chunks.flatten config).warnings := by
  have hlex : (overAll (.new config) (.chunks chunks) []).output = lex chunks.flatten config := by
    rw [overAll, List.append_nil]
    rfl
  have hstreamed : Streamed (.chunks chunks) false (.new config)
      (TokenStream.new config (.chunks chunks) false).items :=
    @items_attached (.chunks chunks) (.new config (.chunks chunks) false) (attached_new config _)
      rfl
  generalize (TokenStream.new config (.chunks chunks) false).items = result at hstreamed ⊢
  cases hstreamed with
  | lexed before last ended used isLast whole =>
    obtain ⟨houtcomes, hwarnings⟩ := whole [] (continues_nil _)
    rw [hlex] at houtcomes hwarnings
    exact ⟨congrArg _ houtcomes.symm, hwarnings.symm⟩
  | broken given ended used failure =>
    -- only a reader fails
    cases failure

/-! ## Schedules -/

/-- No rest of a request is gone on with once the session has failed. -/
def NeverResumesFailed (config : Config) (requests : List Request) : Prop :=
  ∀ before index after, requests = before ++ .resume index :: after →
    ((Dialogue.new config).run before).session.failure = none

/-- What a schedule of requests brings to light is what lexing the source gives: the outcomes up to
the first error or end token, and the warnings recorded up to there. -/
structure FollowsLex (config : Config) (source : List UInt8) (requests : List Request) : Prop where
  outcomes_prefix : upToLast ((Dialogue.new config).run requests).outcomes <+:
    (lex source config).outcomes
  outcomes_eq : ((Dialogue.new config).run requests).ended = true →
    upToLast ((Dialogue.new config).run requests).outcomes = (lex source config).outcomes
  warnings_prefix : ((Dialogue.new config).runToEnd requests).warnings <+:
    (lex source config).warnings
  warnings_eq : ((Dialogue.new config).run requests).ended = true →
    ((Dialogue.new config).runToEnd requests).warnings = (lex source config).warnings
  /-- Beyond the end no warning is added, if no keyword makes an end token and nothing is gone on
  with after a failure. -/
  warnings_stay : config.keywords.NoEof → NeverResumesFailed config requests →
    ((Dialogue.new config).run requests).warnings =
      ((Dialogue.new config).runToEnd requests).warnings

theorem followsLex_of_delivers {config : Config} {source : List UInt8} {requests : List Request}
    (h : Delivers requests source) : FollowsLex config source requests := by
  obtain ⟨before, rest, rfl, hend, hrest⟩ := (Dialogue.new config).exists_runToEnd requests
  have hrun : (Dialogue.new config).run (before ++ rest) =
      ((Dialogue.new config).runToEnd (before ++ rest)).run rest := by
    rw [hend, Dialogue.run, Dialogue.run, Dialogue.run, List.foldl_append]
  rcases (Dialogue.live_new config source).runToEnd (.inr h) with ⟨left, hlive⟩ | hfinished
  · -- nothing has ended, so nothing comes after the end
    obtain rfl := hrest hlive.ended
    have hsame : (Dialogue.new config).run (before ++ []) =
        (Dialogue.new config).runToEnd (before ++ []) := hrun
    have hended : ((Dialogue.new config).run (before ++ [])).ended = false := by
      rw [hsame]
      exact hlive.ended
    refine ⟨?_, ?_, hlive.warnings_prefix, ?_, fun _ _ => by rw [hsame]⟩
    · rw [hsame, upToLast_of_unended hlive.unended, hlive.outcomes]
      exact List.prefix_append _ _
    · intro htrue
      rw [hended] at htrue
      cases htrue
    · intro htrue
      rw [hended] at htrue
      cases htrue
  · -- what comes after the end is cut away again
    obtain ⟨first, last, houtcomes, hfirst, hlast⟩ := hfinished.last
    have hcut : upToLast ((Dialogue.new config).run (before ++ rest)).outcomes =
        (lex source config).outcomes := by
      obtain ⟨more, hmore⟩ :=
        ((Dialogue.new config).runToEnd (before ++ rest)).run_outcomes rest
      rw [hrun, ← hmore, hfinished.outcomes, houtcomes, List.append_assoc, List.singleton_append,
        upToLast_append hfirst hlast]
    refine ⟨?_, fun _ => hcut, ?_, fun _ => hfinished.warnings.symm, ?_⟩
    · rw [hcut]
    · rw [hfinished.warnings]
    · intro hkeywords hresumes
      have hquiet : ((Dialogue.new config).runToEnd (before ++ rest)).Quiet :=
        ⟨hfinished.waiting, hfinished.settled hkeywords⟩
      rw [hrun]
      -- the schedule from its start, not only what comes after the end
      refine hquiet.run fun before' index after hsplit => ?_
      have hfailure := hresumes (before ++ before') index after (by simp [hsplit])
      rw [hend, Dialogue.run, Dialogue.run, ← List.foldl_append]
      exact hfailure

/-- Lexing does not depend on chunks and schedules: a session that is given a source in chunks
follows `lex` under every schedule of requests, and a token stream over the chunks gives all of it.
-/
theorem chunking_and_scheduling (config : Config) (source : List UInt8) :
    (∀ requests, Delivers requests source → FollowsLex config source requests) ∧
      ∀ chunks : List (List UInt8), chunks.flatten = source →
        (TokenStream.new config (.chunks chunks) false).items.2 =
            (lex source config).outcomes.map (Except.mapError .lex) ∧
          (TokenStream.new config (.chunks chunks) false).items.1.session.warnings.toList =
            (lex source config).warnings := by
  refine ⟨fun requests h => followsLex_of_delivers h, ?_⟩
  intro chunks hchunks
  rw [← hchunks]
  exact TokenStream.items_chunks config chunks

/-- A stray closer between two names, cut in two and lexed with two requests waiting. -/
theorem chunking_and_scheduling_stray :
    let source := "a *) b".toList.map Char.toUInt8
    let chunks := [source.take 3, [], source.drop 3]
    let requests : List Request := [.token, .token, .feed (source.take 3), .resume 1, .token,
      .feed [], .resume 0, .feed (source.drop 3), .finish, .takeWarnings, .resume 0, .token, .token]
    Delivers requests source ∧ FollowsLex {} source requests ∧ chunks.flatten = source ∧
      (TokenStream.new {} (.chunks chunks) false).items.2 =
        (lex source {}).outcomes.map (Except.mapError .lex) := by
  intro source chunks requests
  have hdelivers : Delivers requests source :=
    ⟨source.drop 3, rfl, source.drop 3, rfl, [], rfl, rfl⟩
  have hchunks : chunks.flatten = source := rfl
  obtain ⟨hfollows, hstream⟩ := chunking_and_scheduling {} source
  exact ⟨hdelivers, hfollows requests hdelivers, hchunks, (hstream chunks hchunks).1⟩

/-- Beyond the end there may be warnings that the source does not have: where a keyword makes an end
token and lexing is gone on with, and where a request that still waits is gone on with after a
failure. -/
theorem warnings_beyond_the_end :
    (let config : Config := { keywords := .ofList [("halt", .eof)] }
      let source := "halt *)".toList.map Char.toUInt8
      let requests : List Request := [.feed source, .finish, .token, .token]
      Delivers requests source ∧
        ¬ ((Dialogue.new config).run requests).warnings <+: (lex source config).warnings) ∧
    (let source := "\\*)".toList.map Char.toUInt8
      let requests : List Request := [.token, .token, .feed source, .resume 1, .resume 0]
      Delivers requests source ∧
        ¬ ((Dialogue.new {}).run requests).warnings <+: (lex source {}).warnings) := by
  refine ⟨⟨?_, by decide +kernel⟩, ⟨?_, by decide +kernel⟩⟩
  · exact ⟨[], by simp, rfl⟩
  · exact ⟨[], by simp, trivial⟩

end StreamLexer
