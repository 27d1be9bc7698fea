import StreamLexer.Proofs.Session.Absorption
import StreamLexer.Proofs.Stream.Delivery

/-!
# Nothing comes after the end

What a session or a stream has ended with is final. A session gives the same end token or the same
error as often as it is asked, whatever it is handed before, and a stream gives no further item:
`last_outcomes_absorb`.
-/
namespace StreamLexer

namespace TokenStream

/-- A stream that has settled on its last item has ended. -/
theorem settle_ended {st st' : TokenStream} {answer : Session × Poll LexError Token}
    {item : Except StreamError Token} (h : st.settle answer = (st', some item))
    (hlast : isLastItem item = true) : st'.ended = true := by
  fun_induction settle st answer with
  | case1 st session token =>
    cases h
    exact hlast
  | case2 => cases h; rfl
  | case3 => cases h; rfl
  | case4 st session source chunk hnext ih => exact ih h
  | case5 st session source hnext ih => exact ih h

theorem ended_of_last {st st' : TokenStream} {item : Except StreamError Token}
    (h : st.next = (st', some item)) (hlast : isLastItem item = true) : st'.ended = true := by
  unfold next at h
  split at h
  · cases h
  · split at h
    · exact settle_ended h hlast
    · exact settle_ended h hlast

/-- A stream that has ended stays as it is. -/
theorem iterate_next_of_ended {st : TokenStream} (h : st.ended = true) (n : Nat) :
    (fun st => st.next.1)^[n] st = st := by
  have hfixed : st.next.1 = st := by rw [st.next_of_ended h]
  exact Function.iterate_fixed hfixed n

end TokenStream

/-- Whatever has been called on a session before, from an end token or an error on every further
call for a token gives the same again without a wait, and no call brings a warning, moves the
position or opens a comment; keywords that make end tokens and rests of earlier calls gone on with
after an error are left out. After its last item a stream gives nothing more. -/
theorem last_outcomes_absorb (config : Config) (hkeywords : config.keywords.NoEof) :
    (∀ (x : Dialogue) (history : List Call), x.IsNew config → x.NeverResumesFailed history →
      ∀ o ∈ (x.callAll history).outcomes, isLast o = true →
        ∀ later : List Call, (∀ call ∈ later, call.resumes = false) →
          Dialogue.Repeats o (x.callAll history) (x.callAll (history ++ later))
            (later.countP Call.asks)) ∧
    (∀ (st st' : TokenStream) (item : Except StreamError Token), st.next = (st', some item) →
      TokenStream.isLastItem item = true →
        ∀ n : Nat, ((fun st => st.next.1)^[n] st').next = (st', none)) := by
  refine ⟨?_, ?_⟩
  · intro x history hnew hresumes o ho hlast later hlater
    have htraced := hnew.traced.callAll hkeywords hresumes
    have hafter : x.callAll (history ++ later) = (x.callAll history).callAll later :=
      List.foldl_append
    rw [hafter]
    exact Dialogue.callAll_ended (htraced.last o ho hlast) hlater
  · intro st st' item hnext hlast n
    have hended := TokenStream.ended_of_last hnext hlast
    rw [TokenStream.iterate_next_of_ended hended]
    exact st'.next_of_ended hended

/-- A string that is still open in a comment where the input ends: whatever is handed over
afterwards, the error comes again. A stream that leaves out its only comment ends with the end
token. -/
theorem last_outcomes_absorb_open_comment :
    let history : List Call :=
      [.request .token, .request (.feed ("a (* \"".toList.map Char.toUInt8)),
        .request (.resume 0), .significantToken, .request .finish, .request (.resume 0)]
    let later : List Call :=
      [.request (.feed ("*)".toList.map Char.toUInt8)), .request .token, .request .takeWarnings,
        .significantToken]
    let x := (Dialogue.new {}).callAll history
    let st := TokenStream.new {} (.chunks ["(* c *)".toList.map Char.toUInt8]) true
    (∃ o, o ∈ x.outcomes ∧ isLast o = true ∧
      ((Dialogue.new {}).callAll (history ++ later)).outcomes = x.outcomes ++ [o, o] ∧
      ((Dialogue.new {}).callAll (history ++ later)).warnings = x.warnings) ∧
      ∃ token, st.next.2 = some (.ok token) ∧
        ∀ n : Nat, ((fun st => st.next.1)^[n] st.next.1).next.2 = none := by
  intro history later x st
  have hresumes : (Dialogue.new {}).NeverResumesFailed history := by
    have hearly : ∀ n < history.length, history[n]?.any Call.resumes = true →
        (((Dialogue.new {}).callAll (history.take n)).outcomes.all fun o => o.isOk) = true := by
      decide +kernel
    intro before index after hsplit error herror
    have hall := hearly before.length (by simp [hsplit]) (by simp [hsplit, Call.resumes])
    have htake : history.take before.length = before := by simp [hsplit]
    rw [htake, List.all_eq_true] at hall
    cases hall _ herror
  obtain ⟨o, ho, hlast⟩ : ∃ o ∈ x.outcomes, isLast o = true := by decide +kernel
  obtain ⟨hsession, hstream⟩ := last_outcomes_absorb {} KeywordTable.noEof_fixed
  have hrepeats := hsession (.new {}) history (.inl rfl) hresumes o ho hlast later (by decide)
  have hitem : st.next.2 = some (.ok ⟨.eof, .point ⟨"_none_", 1, 0, 7⟩⟩) := by
    decide +kernel
  refine ⟨⟨o, ho, hlast, hrepeats.outcomes, hrepeats.warnings⟩, _, hitem, fun n => ?_⟩
  rw [hstream st st.next.1 _ (by rw [← hitem]) rfl n]

end StreamLexer
