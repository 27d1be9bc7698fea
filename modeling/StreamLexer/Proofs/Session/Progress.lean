import StreamLexer.Proofs.Flat.Invariant
import StreamLexer.Proofs.Resumable.Sequencing
import StreamLexer.Proofs.Session.Course
import StreamLexer.Proofs.Session.Schedule

/-!
# Progress

A step waits, takes a byte, decides about the header, or stands at the end of input:
`step_advances`. The bytes that are left and the decision about the header bound the steps of a
session, however its input is cut (`Dialogue.stepsToEnd_le`). What is said at the end of input is
said nowhere else, so a session whose input is open gives no end token and misses no terminator
(`token_open`); a session that knows the end of its input never waits.
-/
namespace StreamLexer

/-- Something that has been opened has no end. -/
def Fault.isUnterminated : Fault → Bool
  | .unterminatedComment | .unterminatedString | .unterminatedStringInComment _ => true
  | _ => false

/-- The answer is an error or an end token. -/
def Poll.isLast : Poll LexError Token → Bool
  | .done token => token.kind.isEof
  | .failed _ => true
  | .pending => false

namespace Session

/-! ## One step -/

/-- What a step may do. A lexeme takes a byte at least; only the decision about the header and the
end of input take none. -/
inductive Advances (s : Session) (r : Session × Step) : Prop
  | waits (same : r = (s, .starved)) (opened : s.window.closed = false)
  | takes (offset : s.pos.offset < r.1.pos.offset) (pending : r.1.headerPending = s.headerPending)
      (answers : r.2 ≠ .starved)
      (terminated : ∀ error, r.2 = .fail error → error.fault.isUnterminated = false)
  | header (mode : s.mode = .code) (pending : s.headerPending = true)
      (decided : r.1.headerPending = false) (offset : s.pos.offset ≤ r.1.pos.offset)
      (proceeds : r.2 = .proceed)
  | ends (view : s.lookahead = ⟨[], true⟩) (pos : r.1.pos = s.pos)
      (pending : r.1.headerPending = s.headerPending)
      (final : r.2 = .emit ⟨.eof, .point s.pos⟩ ∨ ∃ error, r.2 = .fail error)

section Actions

variable (s : Session) {error : LexError}

theorem actCode_terminated {rule : TokenRule} {lexeme : List UInt8}
    (h : (s.actCode rule lexeme).2 = .fail error) : error.fault.isUnterminated = false := by
  cases rule with
  | word rule =>
    simp only [actCode] at h
    split at h
    · cases h
    · rename_i fault _
      cases h
      cases fault <;> rfl
  | _ => cases h

theorem actComment_terminated {c : OpenComment} {text : List UInt8} {rule : CommentRule}
    {lexeme : List UInt8} (hrule : rule ≠ .endOfInput)
    (h : (s.actComment c text rule lexeme).2 = .fail error) :
    error.fault.isUnterminated = false := by
  cases rule with
  | close =>
    simp only [actComment] at h
    split at h <;> cases h
  | endOfInput => exact absurd rfl hrule
  | _ => cases h

theorem actString_terminated {o : OpenString} {text : List UInt8} {rule : StringRule}
    {lexeme : List UInt8} (hrule : rule ≠ .endOfInput)
    (h : (s.actString o text rule lexeme).2 = .fail error) :
    error.fault.isUnterminated = false := by
  cases rule with
  | close => exact absurd h (closeString_ne_fail _ o text lexeme error)
  | decimalEscape =>
    simp only [actString] at h
    split at h
    · cases h
    · split at h
      · cases h
      · cases h
        rfl
  | endOfInput => exact absurd rfl hrule
  | _ => cases h

theorem actQuoted_terminated {o : OpenString} {id text : List UInt8} {rule : QuotedRule}
    {lexeme : List UInt8} (hrule : rule ≠ .endOfInput)
    (h : (s.actQuoted o id text rule lexeme).2 = .fail error) :
    error.fault.isUnterminated = false := by
  cases rule with
  | terminator =>
    simp only [actQuoted] at h
    split at h
    · exact absurd h (closeString_ne_fail _ o text lexeme error)
    · cases h
  | endOfInput => exact absurd rfl hrule
  | _ => cases h

theorem actQuotation_terminated {q : OpenQuotation} {rule : QuotationRule} {n : Nat}
    (hrule : rule ≠ .endOfInput) (h : (s.actQuotation q rule n).2 = .fail error) :
    error.fault.isUnterminated = false := by
  cases rule with
  | close =>
    simp only [actQuotation] at h
    split at h <;> cases h
  | endOfInput => exact absurd rfl hrule
  | _ => cases h

end Actions

section Step

variable {s : Session}

theorem onFound_advances {ρ : Type} {scan : Lookahead → Verdict ρ} {last : ρ}
    (hfinds : FindsBytes scan last) {act : ρ → Nat → Session × Step}
    (hanswers : (s.onFound (scan s.lookahead) act).2 ≠ .starved)
    (htakes : ∀ rule n, n ≤ s.lookahead.bytes.length → s.Takes n (act rule n))
    (hterminated : ∀ rule n error, rule ≠ last → (act rule n).2 = .fail error →
      error.fault.isUnterminated = false)
    (hlast : (act last 0).1.pos = s.pos ∧ ((act last 0).2 = .emit ⟨.eof, .point s.pos⟩ ∨
      ∃ error, (act last 0).2 = .fail error)) :
    s.Advances (s.onFound (scan s.lookahead) act) := by
  cases hscan : scan s.lookahead with
  | undecided =>
    rw [hscan] at hanswers
    exact absurd rfl hanswers
  | found rule n =>
    rw [hscan] at hanswers
    rcases hfinds _ rule n hscan with ⟨rfl, rfl, hview⟩ | ⟨hrule, hpos, hle⟩
    · obtain ⟨-, hpending, -⟩ := htakes rule 0 (Nat.zero_le _)
      exact .ends hview hlast.1 hpending hlast.2
    · obtain ⟨-, hpending, hoffset, -⟩ := htakes rule n hle
      refine .takes ?_ hpending hanswers fun error => hterminated rule n error hrule
      show s.pos.offset < (act rule n).1.pos.offset
      omega

/-- Every step of a session waits, takes a byte, decides about the header or stands at the end. -/
theorem step_advances (s : Session) : s.Advances s.step := by
  have htake : ∀ {n : Nat} {r : Session × Step}, n ≤ s.lookahead.bytes.length →
      s.Takes (s.lookahead.bytes.take n).length r → s.Takes n r := fun hn h => by
    rwa [List.length_take_of_le hn] at h
  rcases s.stepOn_cases s.lookahead with ⟨hwaits, hopen⟩ | hcommits
  · exact .waits hwaits hopen
  have hanswers := hcommits.answers
  have hoffset := hcommits.le_offset
  unfold step
  cases hmode : s.mode with
  | code =>
    cases hpending : s.headerPending with
    | true =>
      simp only [stepOn, hmode, hpending, if_true] at hanswers hoffset ⊢
      cases hscan : HeaderRule.scan s.lookahead with
      | undecided =>
        rw [hscan] at hanswers
        exact absurd rfl hanswers
      | found rule n =>
        rw [hscan] at hoffset
        refine .header hmode hpending ?_ hoffset ?_ <;> cases rule <;> rfl
    | false =>
      simp only [stepOn, hmode, hpending, Bool.false_eq_true, if_false] at hanswers ⊢
      exact onFound_advances TokenRule.findsBytes hanswers
        (fun rule n hn => htake hn (s.actCode_takes rule _))
        (fun _ _ _ _ => s.actCode_terminated) ⟨rfl, .inl rfl⟩
  | comment c text =>
    simp only [stepOn, hmode] at hanswers ⊢
    exact onFound_advances CommentRule.findsBytes hanswers
      (fun rule n hn => htake hn (s.actComment_takes c text rule _))
      (fun _ _ _ hrule => s.actComment_terminated hrule) ⟨rfl, .inr ⟨_, rfl⟩⟩
  | string o text =>
    cases hdelimiter : o.delimiter with
    | none =>
      simp only [stepOn, hmode, hdelimiter] at hanswers ⊢
      exact onFound_advances StringRule.findsBytes hanswers
        (fun rule n hn => htake hn (s.actString_takes o text rule _))
        (fun _ _ _ hrule => s.actString_terminated hrule) ⟨rfl, .inr ⟨_, rfl⟩⟩
    | some id =>
      simp only [stepOn, hmode, hdelimiter] at hanswers ⊢
      exact onFound_advances QuotedRule.findsBytes hanswers
        (fun rule n hn => htake hn (s.actQuoted_takes o id text rule _))
        (fun _ _ _ hrule => s.actQuoted_terminated hrule) ⟨rfl, .inr ⟨_, rfl⟩⟩
  | quotation q =>
    simp only [stepOn, hmode] at hanswers ⊢
    exact onFound_advances QuotationRule.findsBytes hanswers
      (fun rule n _ => s.actQuotation_takes q rule n)
      (fun _ _ _ hrule => s.actQuotation_terminated hrule) ⟨rfl, .inr ⟨_, rfl⟩⟩

end Step

/-! ## The steps of a run -/

set_option linter.unusedVariables false in
/-- How many steps `run` takes before it waits, or until it has an answer. -/
def stepsTaken (s : Session) : Nat :=
  match h : s.step with
  | (t, .proceed) => t.stepsTaken + 1
  | (_, .emit _) | (_, .fail _) => 1
  | (_, .starved) => 0
termination_by s.weight
decreasing_by
  rcases h ▸ step_spends _ with hlt | ⟨hfinal, -⟩
  · exact hlt
  · cases hfinal

section Run

variable {s t : Session}

theorem stepsTaken_of_proceed (h : s.step = (t, .proceed)) : s.stepsTaken = t.stepsTaken + 1 := by
  rw [stepsTaken]
  split
  · rename_i h₁
    rw [h] at h₁
    cases h₁
    rfl
  all_goals
    rename_i h₁
    rw [h] at h₁
    cases h₁

theorem stepsTaken_of_answers (hproceed : s.step.2 ≠ .proceed) (hstarved : s.step.2 ≠ .starved) :
    s.stepsTaken = 1 := by
  rw [stepsTaken]
  split
  · rename_i h₁
    rw [h₁] at hproceed
    exact absurd rfl hproceed
  · rfl
  · rfl
  · rename_i h₁
    rw [h₁] at hstarved
    exact absurd rfl hstarved

theorem stepsTaken_of_starved (h : s.step = (t, .starved)) : s.stepsTaken = 0 := by
  rw [stepsTaken]
  split
  · rename_i h₁
    rw [h] at h₁
    cases h₁
  · rename_i h₁
    rw [h] at h₁
    cases h₁
  · rename_i h₁
    rw [h] at h₁
    cases h₁
  · rfl

/-- A step that waits changes nothing. -/
theorem step_of_starved (h : s.step = (t, .starved)) : t = s := by
  rcases s.stepOn_cases s.lookahead with ⟨hwaits, -⟩ | hcommits
  · rw [← step, h] at hwaits
    injection hwaits
  · exact absurd (by rw [← step, h]) hcommits.answers

/-- A run is that many steps, none of which waits. -/
theorem run_eq_iterate (s : Session) :
    s.run.1 = (fun t : Session => t.step.1)^[s.stepsTaken] s ∧
      ∀ k < s.stepsTaken, ((fun t : Session => t.step.1)^[k] s).step.2 ≠ .starved := by
  induction s using run.induct with
  | case1 s s' hstep ih =>
    obtain ⟨hrun, hanswers⟩ := ih
    rw [run_of_proceed hstep, stepsTaken_of_proceed hstep, Function.iterate_succ_apply, hstep]
    refine ⟨hrun, fun k hk => ?_⟩
    cases k with
    | zero => simp [hstep]
    | succ k =>
      rw [Function.iterate_succ_apply, hstep]
      exact hanswers k (by omega)
  | case2 s s' token hstep =>
    have hone : s.stepsTaken = 1 := stepsTaken_of_answers (by simp [hstep]) (by simp [hstep])
    rw [run_of_emit hstep, hone]
    refine ⟨by simp [hstep], fun k hk => ?_⟩
    obtain rfl : k = 0 := by omega
    simp [hstep]
  | case3 s s' error hstep =>
    have hone : s.stepsTaken = 1 := stepsTaken_of_answers (by simp [hstep]) (by simp [hstep])
    rw [run_of_fail hstep, hone]
    refine ⟨by simp [hstep], fun k hk => ?_⟩
    obtain rfl : k = 0 := by omega
    simp [hstep]
  | case4 s s' hstep =>
    rw [run_of_starved hstep, stepsTaken_of_starved hstep, step_of_starved hstep]
    exact ⟨rfl, fun k hk => absurd hk (Nat.not_lt_zero k)⟩

end Run

/-! ## What is left to do -/

/-- What the session still has to do: the bytes of the source that are left, and the decision about
the header. -/
def toDo (source : List UInt8) (s : Session) : Nat :=
  (source.length - s.pos.offset) + s.headerPending.toNat

section Bound

variable {s : Session} {source left : List UInt8}

theorem Holds.length_lookahead_le (h : s.Holds source left) :
    s.lookahead.bytes.length ≤ source.length - s.pos.offset := by
  have hwhole := h.lookahead_within (show (Surroundings.ofSource source).window = _ from rfl)
  have hdrop : (s.within (.ofSource source)).lookahead.bytes = source.drop s.pos.offset := by
    simp [lookahead, Window.lookahead, Surroundings.ofSource, Window.ofSource]
  have hlength : (source.drop s.pos.offset).length = (s.lookahead.bytes ++ left).length := by
    rw [← hdrop, hwhole]
  rw [List.length_drop, List.length_append] at hlength
  omega

/-- A step that is not final leaves less to do. -/
theorem Holds.step_toDo (h : s.Holds source left) (hfinal : s.step.2.isFinal = false) :
    s.step.1.Holds source left ∧ s.step.1.toDo source < s.toDo source := by
  have hheld := h.length_lookahead_le
  rcases s.stepOn_cases s.lookahead with ⟨hwaits, -⟩ | hcommits
  · rw [step, hwaits] at hfinal
    cases hfinal
  have hbound : s.step.1.pos.offset ≤ s.pos.offset + s.lookahead.bytes.length := hcommits.offset_le
  refine ⟨h.of_commits hcommits (stepOn_window s _), ?_⟩
  rw [toDo, toDo]
  cases s.step_advances with
  | waits same =>
    rw [same] at hfinal
    cases hfinal
  | takes offset pending =>
    rw [pending]
    omega
  | header mode pending decided offset =>
    rw [pending, decided]
    simp only [Bool.toNat_true, Bool.toNat_false]
    omega
  | ends view pos pending final =>
    rcases final with hemit | ⟨error, hfail⟩
    · rw [hemit] at hfinal
      cases hfinal
    · rw [hfail] at hfinal
      cases hfinal

/-- The steps of a run are paid for by what was to do; the last answer costs one more. -/
theorem Holds.run_toDo (h : s.Holds source left) :
    s.stepsTaken ≤ s.toDo source + 1 ∧
      (s.run.2.isLast = false → s.stepsTaken + s.run.1.toDo source ≤ s.toDo source) := by
  induction s using run.induct with
  | case1 s s' hstep ih =>
    obtain ⟨hholds, hless⟩ : s'.Holds source left ∧ s'.toDo source < s.toDo source := by
      have hpaid := h.step_toDo (by rw [hstep]; rfl)
      rwa [hstep] at hpaid
    obtain ⟨hsteps, hrest⟩ := ih hholds
    rw [run_of_proceed hstep, stepsTaken_of_proceed hstep]
    refine ⟨by omega, fun hlast => ?_⟩
    have hpaid := hrest hlast
    omega
  | case2 s s' token hstep =>
    rw [run_of_emit hstep, stepsTaken_of_answers (by simp [hstep]) (by simp [hstep])]
    refine ⟨by omega, fun hlast => ?_⟩
    have hless : s'.toDo source < s.toDo source := by
      have hpaid := h.step_toDo (by rw [hstep]; exact hlast)
      rw [hstep] at hpaid
      exact hpaid.2
    show 1 + s'.toDo source ≤ s.toDo source
    omega
  | case3 s s' error hstep =>
    rw [run_of_fail hstep, stepsTaken_of_answers (by simp [hstep]) (by simp [hstep])]
    refine ⟨by omega, fun hlast => ?_⟩
    cases hlast
  | case4 s s' hstep =>
    rw [run_of_starved hstep, stepsTaken_of_starved hstep, step_of_starved hstep]
    refine ⟨by omega, fun _ => ?_⟩
    show 0 + s.toDo source ≤ s.toDo source
    omega

theorem Holds.next_toDo (h : s.Holds source left) :
    s.stepsTaken ≤ s.toDo source + 1 ∧
      (s.next.2.isLast = false → s.stepsTaken + s.next.1.toDo source ≤ s.toDo source) := by
  obtain ⟨hsteps, hpaid⟩ := h.run_toDo
  refine ⟨hsteps, ?_⟩
  unfold next
  split
  · intro hlast
    cases hlast
  · exact hpaid

end Bound

end Session

namespace Dialogue

/-! ## The steps of a schedule -/

/-- How many steps the session takes for a request. -/
def stepsFor (x : Dialogue) : Request → Nat
  | .token => if x.session.failure.isSome then 0 else x.session.stepsTaken
  | .resume index => if (x.waiting[index]?).isSome then x.session.stepsTaken else 0
  | .feed _ | .finish | .takeWarnings => 0

/-- How many steps it takes for one request after the other, up to the first that is answered with
an error or an end token. -/
def stepsToEnd : Dialogue → List Request → Nat
  | _, [] => 0
  | x, request :: requests =>
    if x.ended then 0 else x.stepsFor request + (x.answer request).stepsToEnd requests

section Steps

variable {config : Config} {source left : List UInt8} {x : Dialogue}

theorem Live.stepsTaken_le (h : x.Live config source left)
    {waiting : List (Resumable Session LexError Token)}
    (hended : (x.record waiting (Session.resumeToken.start x.session)).ended = false) :
    x.session.stepsTaken +
        (x.record waiting (Session.resumeToken.start x.session)).session.toDo source ≤
      x.session.toDo source := by
  have hpaid := h.holds.next_toDo.2
  cases hnext : x.session.next with
  | mk t answer =>
    rw [hnext] at hpaid
    simp only [Session.resumeToken, Resumable.start, hnext] at hended ⊢
    cases answer with
    | done token =>
      refine hpaid ?_
      simp only [record, Dialogue.ended, List.any_append, Bool.or_eq_false_iff] at hended
      have hlast : isLast (.ok token) = false := by simpa using hended.2
      exact hlast
    | failed error => simp [record, Dialogue.ended, isLast] at hended
    | pending => exact hpaid rfl

theorem Live.stepsFor_le (h : x.Live config source left) (request : Request) :
    x.stepsFor request ≤ x.session.toDo source + 1 ∧
      ((x.answer request).ended = false →
        x.stepsFor request + (x.answer request).session.toDo source ≤ x.session.toDo source) := by
  have hsteps := h.holds.next_toDo.1
  cases request with
  | token =>
    have hanswer : x.answer .token = x.record x.waiting (Session.resumeToken.start x.session) := by
      simp [Dialogue.answer, Session.token, h.healthy]
    simp only [stepsFor, h.healthy, Option.isSome_none, Bool.false_eq_true, if_false, hanswer]
    exact ⟨hsteps, h.stepsTaken_le⟩
  | resume index =>
    cases hget : x.waiting[index]? with
    | none => simp [stepsFor, Dialogue.answer, hget]
    | some rest =>
      obtain rfl := h.waiting rest (List.mem_of_getElem? hget)
      have hanswer : x.answer (.resume index) =
          x.record (x.waiting.eraseIdx index) (Session.resumeToken.start x.session) := by
        simp [Dialogue.answer, hget]
      simp only [stepsFor, hget, Option.isSome_some, if_true, hanswer]
      exact ⟨hsteps, h.stepsTaken_le⟩
  | _ =>
    refine ⟨Nat.zero_le _, fun _ => ?_⟩
    show 0 + x.session.toDo source ≤ _
    omega

/-- Up to its end a schedule takes no more steps than there is to do, and one for its end. -/
theorem Live.stepsToEnd_le {requests : List Request} (h : x.Live config source left)
    (hdelivers : x.session.window.closed = true ∨ Delivers requests left) :
    x.stepsToEnd requests ≤ x.session.toDo source + 1 := by
  induction requests generalizing x left with
  | nil => exact Nat.zero_le _
  | cons request requests ih =>
    obtain ⟨hsteps, hpaid⟩ := h.stepsFor_le request
    rw [stepsToEnd, h.ended]
    show x.stepsFor request + (x.answer request).stepsToEnd requests ≤ _
    rcases h.answer hdelivers with ⟨left', hlive, hdelivers'⟩ | hfinished
    · have hrest := ih hlive hdelivers'
      have hrequest := hpaid hlive.ended
      omega
    · have hnone : (x.answer request).stepsToEnd requests = 0 := by
        cases requests <;> simp [stepsToEnd, hfinished.ended]
      omega

/-- A session that has all of its input from the start. -/
theorem live_ofSource (config : Config) (source : List UInt8) :
    Live config source [] { session := .ofSource config source } := by
  refine ⟨⟨Nat.le_refl _, Nat.zero_le _, ?_, fun _ => rfl⟩, rfl, rfl, by simp, by simp, rfl, rfl⟩
  simp [Session.ofSource, Session.ofWindow, Window.ofSource]

end Steps

end Dialogue

namespace Session

/-! ## Open and complete input -/

/-- A session that knows the end of its input has an answer at once. -/
theorem token_of_closed {s : Session} (h : s.window.closed = true) :
    ∃ result, s.token = (s.token.1, Resumable.ended result) := by
  unfold token
  split
  · rename_i error _
    exact ⟨.error error, rfl⟩
  · have hanswers := next_ne_pending h
    cases hnext : s.next with
    | mk t answer =>
      rw [hnext] at hanswers
      simp only [resumeToken, Resumable.start, hnext]
      cases answer with
      | done token => exact ⟨.ok token, rfl⟩
      | failed error => exact ⟨.error error, rfl⟩
      | pending => exact absurd rfl hanswers

/-- What is given on complete input ends with an end token or an error. -/
theorem output_of_closed (s : Session) (h : s.window.closed = true) :
    ∃ before last, s.output.outcomes = before ++ [last] ∧ isLast last = true := by
  have hwindow : s.step.1.window = s.window := stepOn_window s _
  induction s using stepInduction with
  | proceed s t hstep ih =>
    rw [hstep] at hwindow
    rw [output_of_proceed hstep]
    exact ih (by rw [hwindow, h]) (stepOn_window t _)
  | emit s t token hstep heof ih =>
    rw [hstep] at hwindow
    obtain ⟨before, last, houtcomes, hlast⟩ := ih (by rw [hwindow, h]) (stepOn_window t _)
    refine ⟨.ok token :: before, last, ?_, hlast⟩
    rw [output_of_emit hstep heof, List.cons_append, ← houtcomes]
    rfl
  | final s hfinal =>
    cases hstep : s.step with
    | mk t outcome =>
      rw [hstep] at hfinal
      cases outcome with
      | proceed => cases hfinal
      | emit token => exact ⟨[], .ok token, by rw [output_of_end hstep hfinal]; rfl, hfinal⟩
      | fail error => exact ⟨[], .error error, by rw [output_of_fail hstep]; rfl, rfl⟩
      | starved =>
        rcases s.stepOn_cases s.lookahead with ⟨-, hopen⟩ | hcommits
        · have hclosed : s.lookahead.closed = true := h
          rw [hclosed] at hopen
          cases hopen
        · exact absurd (by rw [← step, hstep]) hcommits.answers

/-- What a session whose input is open does not say: that the input has ended, or that something has
no end. -/
def SaysNoEnd (answer : Poll LexError Token) : Prop :=
  (∀ token, answer = .done token → token.kind.isEof = false) ∧
    ∀ error, answer = .failed error → error.fault.isUnterminated = false

theorem view_ne_of_open {s : Session} (hopen : s.window.closed = false) :
    s.lookahead ≠ ⟨[], true⟩ := by
  intro hview
  have hclosed : s.window.closed = true := congrArg Lookahead.closed hview
  rw [hopen] at hclosed
  cases hclosed

theorem run_open {s : Session} (hkeywords : s.keywords.NoEof) (hopen : s.window.closed = false) :
    SaysNoEnd s.run.2 := by
  have hwindow : s.step.1.window = s.window := stepOn_window s _
  have hsame : s.step.1.keywords = s.keywords := stepOn_keywords s _
  induction s using run.induct with
  | case1 s s' hstep ih =>
    rw [hstep] at hwindow hsame
    rw [run_of_proceed hstep]
    exact ih (by rw [hsame]; exact hkeywords) (by rw [hwindow, hopen]) (stepOn_window s' _)
      (stepOn_keywords s' _)
  | case2 s s' token hstep =>
    rw [run_of_emit hstep]
    refine ⟨?_, fun error herror => by cases herror⟩
    intro other hother
    cases hother
    by_contra heof
    obtain ⟨-, -, hview, -⟩ := stepOn_emit_eof hkeywords hstep (by simpa using heof)
    exact view_ne_of_open hopen hview
  | case3 s s' error hstep =>
    rw [run_of_fail hstep]
    refine ⟨fun token htoken => (by cases htoken), ?_⟩
    intro other hother
    cases hother
    have hadvances := step_advances s
    rw [hstep] at hadvances
    cases hadvances with
    | waits same => cases same
    | takes _ _ _ terminated => exact terminated error rfl
    | header _ _ _ _ proceeds => cases proceeds
    | ends view => exact absurd view (view_ne_of_open hopen)
  | case4 s s' hstep =>
    rw [run_of_starved hstep]
    exact ⟨fun token htoken => (by cases htoken), fun error herror => (by cases herror)⟩

/-- A request to a session that has not failed answers as the session does. -/
theorem token_open {s : Session} (hkeywords : s.keywords.NoEof) (hopen : s.window.closed = false)
    (hhealthy : s.failure = none) :
    (∀ token, s.token.2 = .done token → token.kind.isEof = false) ∧
      ∀ error, s.token.2 = .failed error → error.fault.isUnterminated = false := by
  obtain ⟨htoken, herror⟩ : SaysNoEnd s.next.2 := by
    have hrun := run_open hkeywords hopen
    unfold next
    split
    · rename_i t error hanswer
      rw [hanswer] at hrun
      exact hrun
    · exact hrun
  simp only [Session.token, hhealthy, resumeToken, Resumable.start]
  cases hnext : s.next with
  | mk t answer =>
    rw [hnext] at htoken herror
    cases answer with
    | done token => simpa using htoken
    | failed error => simpa using herror
    | pending => simp

end Session

/-- Sessions make progress and come to an end. -/
structure Progresses (config : Config) : Prop where
  /-- A step waits and changes nothing, takes a byte, decides about the header, or stands at the end
  of the input. -/
  advances : ∀ s : Session, s.Advances s.step
  /-- The header is decided about once. -/
  decided : ∀ s : Session, s.headerPending = false → s.step.1.headerPending = false
  /-- The steps that are counted are those of the run, none of which waits. -/
  counted : ∀ s : Session, s.run.1 = (fun t : Session => t.step.1)^[s.stepsTaken] s ∧
    ∀ k < s.stepsTaken, ((fun t : Session => t.step.1)^[k] s).step.2 ≠ .starved
  /-- From the start of a session to its first end token or error there are at most two more steps
  than bytes, whichever way the input is cut and the session asked. -/
  bounded : ∀ source requests, Delivers requests source →
    (Dialogue.new config).stepsToEnd requests ≤ source.length + 2
  bounded_whole : ∀ source requests,
    Dialogue.stepsToEnd { session := .ofSource config source } requests ≤ source.length + 2
  /-- On complete input a request is answered at once, and whatever drives it is not asked for more.
  -/
  complete : ∀ s : Session, s.window.closed = true →
    ∃ result, ∀ {ρ : Type} (refill : ρ → Session → ρ × Session) (kept : ρ),
      Resumable.Ends refill kept s.token ⟨result, s.token.1, kept, []⟩
  /-- Lexing ends with an end token or an error. -/
  lex_ends : ∀ source, ∃ before last,
    (lex source config).outcomes = before ++ [last] ∧ isLast last = true
  /-- On open input a session that has not failed does not say that the input has ended, nor that
  something has no end. -/
  opened : ∀ s : Session, s.Reachable config → s.window.closed = false → s.failure = none →
    (∀ token, s.token.2 = .done token → token.kind.isEof = false) ∧
      ∀ error, s.token.2 = .failed error → error.fault.isUnterminated = false

/-- No keyword may stand for an end token: that would be one on open input. -/
theorem sessions_progress (config : Config) (h : config.keywords.NoEof) : Progresses config := by
  have hstart : ∀ (s : Session) (source : List UInt8), s.pos.offset = 0 →
      s.toDo source + 1 ≤ source.length + 2 := by
    intro s source hoffset
    have hpending : s.headerPending.toNat ≤ 1 := Bool.toNat_le _
    rw [Session.toDo, hoffset]
    omega
  refine ⟨Session.step_advances, fun s hdecided => ?_, Session.run_eq_iterate, ?_, ?_, ?_, ?_, ?_⟩
  · cases s.step_advances with
    | waits same => rw [same]; exact hdecided
    | takes _ pending => rw [pending, hdecided]
    | header _ _ decided => exact decided
    | ends _ _ pending => rw [pending, hdecided]
  · intro source requests hdelivers
    exact ((Dialogue.live_new config source).stepsToEnd_le (.inr hdelivers)).trans
      (hstart _ source rfl)
  · intro source requests
    exact ((Dialogue.live_ofSource config source).stepsToEnd_le (.inl rfl)).trans
      (hstart _ source rfl)
  · intro s hclosed
    obtain ⟨result, hresult⟩ := Session.token_of_closed hclosed
    refine ⟨result, fun refill kept => ?_⟩
    rw [hresult]
    exact Resumable.ends_ended_iff.mpr rfl
  · exact fun source => (Session.ofSource config source).output_of_closed rfl
  · intro s hreachable hopen hhealthy
    refine Session.token_open ?_ hopen hhealthy
    rw [hreachable.keywords]
    exact h

/-- A table with a word of its own. -/
theorem sessions_progress_async :
    let config : Config := { keywords := .ofList [("async", .lident "async")] }
    config.keywords.NoEof ∧ Progresses config := by
  intro config
  have hkeywords : config.keywords.NoEof := by
    intro entry hentry
    obtain rfl : entry = ("async", .lident "async") := List.mem_singleton.mp hentry
    rfl
  exact ⟨hkeywords, sessions_progress config hkeywords⟩

end StreamLexer
