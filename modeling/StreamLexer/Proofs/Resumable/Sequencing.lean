import StreamLexer.Resumable.Basic

/-!
# Waiting does not show in sequencing

A stage that is attached to a computation acts at once on one that has come to its end, and is kept
for later by one that waits. `Ends` says how a computation ends that is driven by calling a refill
function before each time it goes on: with which result and in which state, and on which states the
refill function has been called. `Continues.ends_iff` says what every way of attaching a stage comes
to: the computation is driven to its end first, and then the stage from there, by the same refill
function with what it kept. When the stage was attached does not matter (`Resumes.ends_iff`), and
the laws of sequencing follow.
-/
namespace StreamLexer.Resumable

variable {ρ σ ε τ υ ω ι : Type}

/-- A computation that has been started, with the state that it left. -/
abbrev Started (σ ε τ : Type) : Type 1 :=
  σ × Progress σ ε τ

/-- What is seen of a computation that has been driven to its end. -/
structure Ending (ρ σ ε τ : Type) where
  result : Except ε τ
  state : σ
  /-- What the refill function keeps for its next call. -/
  kept : ρ
  /-- The states that the refill function was called on, in order. -/
  refilled : List σ

/-- The ending as it is seen from before some further calls. -/
def Ending.behind (calls : List σ) (ending : Ending ρ σ ε τ) : Ending ρ σ ε τ :=
  { ending with refilled := calls ++ ending.refilled }

@[simp] theorem Ending.behind_nil (ending : Ending ρ σ ε τ) : ending.behind [] = ending := rfl

@[simp] theorem Ending.behind_behind (first second : List σ) (ending : Ending ρ σ ε τ) :
    (ending.behind second).behind first = ending.behind (first ++ second) := by
  simp [behind]

/-- Driving a started computation with a refill function, which is called before each time the
computation goes on, comes to an end. The refill function may change what it keeps from one call to
the next. -/
inductive Ends (refill : ρ → σ → ρ × σ) : ρ → Started σ ε τ → Ending ρ σ ε τ → Prop where
  | done {kept : ρ} {s : σ} {value : τ} : Ends refill kept (s, .done value) ⟨.ok value, s, kept, []⟩
  | failed {kept : ρ} {s : σ} {error : ε} :
      Ends refill kept (s, .failed error) ⟨.error error, s, kept, []⟩
  | needMore {kept : ρ} {s : σ} {rest : Resumable σ ε τ} {ending : Ending ρ σ ε τ} :
      Ends refill (refill kept s).1 (rest.start (refill kept s).2) ending →
      Ends refill kept (s, .needMore rest) (ending.behind [s])

/-- Driving a started computation part of the way, with the states on which the refill function was
called. -/
inductive Resumes (refill : ρ → σ → ρ × σ) :
    ρ → Started σ ε τ → List σ → ρ → Started σ ε τ → Prop where
  | refl {kept : ρ} {x : Started σ ε τ} : Resumes refill kept x [] kept x
  | step {kept kept' : ρ} {s : σ} {rest : Resumable σ ε τ} {calls : List σ} {y : Started σ ε τ} :
      Resumes refill (refill kept s).1 (rest.start (refill kept s).2) calls kept' y →
      Resumes refill kept (s, .needMore rest) (s :: calls) kept' y

/-- Driven from here, the computation ends so, as it is seen from before `calls`. -/
def EndsBehind (refill : ρ → σ → ρ × σ) (calls : List σ) (kept : ρ) (x : Started σ ε τ)
    (ending : Ending ρ σ ε τ) : Prop :=
  ∃ later, Ends refill kept x later ∧ ending = later.behind calls

/-- The first computation is driven to its end, and then what `next` gives for its result and the
state at that end. -/
def EndsInTurn (refill : ρ → σ → ρ × σ) (kept : ρ) (x : Started σ ε τ)
    (next : Except ε τ → σ → Started σ ε υ) (ending : Ending ρ σ ε υ) : Prop :=
  ∃ first, Ends refill kept x first ∧
    EndsBehind refill first.refilled first.kept (next first.result first.state) ending

/-- Two started computations cannot be told apart by driving them. -/
def SameRuns (x y : Started σ ε τ) : Prop :=
  ∀ (ρ : Type) (refill : ρ → σ → ρ × σ) (kept : ρ) (ending : Ending ρ σ ε τ),
    Ends refill kept x ending ↔ Ends refill kept y ending

section Driving

variable {refill : ρ → σ → ρ × σ} {kept kept' : ρ} {s : σ} {x y : Started σ ε τ}
  {calls : List σ} {ending : Ending ρ σ ε τ}

@[simp] theorem ends_done_iff {value : τ} :
    Ends refill kept (s, .done value) ending ↔ ending = ⟨.ok value, s, kept, []⟩ := by
  constructor
  · intro h
    cases h
    rfl
  · rintro rfl
    exact .done

@[simp] theorem ends_failed_iff {error : ε} :
    Ends refill kept (s, .failed error) ending ↔ ending = ⟨.error error, s, kept, []⟩ := by
  constructor
  · intro h
    cases h
    rfl
  · rintro rfl
    exact .failed

theorem ends_needMore_iff {rest : Resumable σ ε τ} :
    Ends refill kept (s, .needMore rest) ending ↔
      EndsBehind refill [s] (refill kept s).1 (rest.start (refill kept s).2) ending := by
  constructor
  · intro h
    cases h with
    | needMore hrest => exact ⟨_, hrest, rfl⟩
  · rintro ⟨later, hlater, rfl⟩
    exact .needMore hlater

/-- There is one ending at most. -/
theorem Ends.unique {first second : Ending ρ σ ε τ} (h : Ends refill kept x first)
    (h' : Ends refill kept x second) : first = second := by
  induction h generalizing second with
  | done => exact (ends_done_iff.mp h').symm
  | failed => exact (ends_failed_iff.mp h').symm
  | needMore _ ih =>
    cases h' with
    | needMore hrest => rw [ih hrest]

/-- A computation that has been driven part of the way ends as it would have from the start. -/
theorem Resumes.ends_iff (h : Resumes refill kept x calls kept' y) :
    Ends refill kept x ending ↔ EndsBehind refill calls kept' y ending := by
  induction h generalizing ending with
  | refl => simp [EndsBehind]
  | @step _ _ s rest calls _ _ ih =>
    rw [ends_needMore_iff]
    constructor
    · rintro ⟨later, hlater, rfl⟩
      obtain ⟨last, hlast, rfl⟩ := ih.mp hlater
      exact ⟨last, hlast, Ending.behind_behind [s] calls last⟩
    · rintro ⟨last, hlast, rfl⟩
      exact ⟨last.behind calls, ih.mpr ⟨last, hlast, rfl⟩,
        (Ending.behind_behind [s] calls last).symm⟩

end Driving

/-- `attach` puts a stage behind started computations: it goes on with `next` where they have come
to their end, and with itself where they wait. -/
structure Continues (attach : Started σ ε τ → Started σ ε υ)
    (next : Except ε τ → σ → Started σ ε υ) : Prop where
  done : ∀ (s : σ) (value : τ), attach (s, .done value) = next (.ok value) s
  failed : ∀ (s : σ) (error : ε), attach (s, .failed error) = next (.error error) s
  waits : ∀ (s : σ) (rest : Resumable σ ε τ), ∃ rest',
    attach (s, .needMore rest) = (s, .needMore rest') ∧ ∀ t, rest'.start t = attach (rest.start t)

namespace Continues

variable {attach : Started σ ε τ → Started σ ε υ} {next : Except ε τ → σ → Started σ ε υ}
  {refill : ρ → σ → ρ × σ} {kept kept' : ρ} {x y : Started σ ε τ} {calls : List σ}

/-- A stage attached before the computation has gone on is still attached afterwards. -/
theorem resumes (h : Continues attach next) (hx : Resumes refill kept x calls kept' y) :
    Resumes refill kept (attach x) calls kept' (attach y) := by
  induction hx with
  | refl => exact .refl
  | @step kept _ s rest _ _ _ ih =>
    obtain ⟨rest', hattach, hstart⟩ := h.waits s rest
    rw [hattach]
    apply Resumes.step
    rw [hstart]
    exact ih

/-- A computation that ends has been driven to where the stage takes over. -/
theorem resumes_next (h : Continues attach next) {first : Ending ρ σ ε τ}
    (hx : Ends refill kept x first) :
    Resumes refill kept (attach x) first.refilled first.kept (next first.result first.state) := by
  induction hx with
  | done =>
    rw [h.done]
    exact .refl
  | failed =>
    rw [h.failed]
    exact .refl
  | @needMore kept s rest _ _ ih =>
    obtain ⟨rest', hattach, hstart⟩ := h.waits s rest
    rw [hattach]
    apply Resumes.step
    rw [hstart]
    exact ih

/-- Where the whole ends, the computation has ended first. -/
theorem exists_ends (h : Continues attach next) {z : Started σ ε υ} {ending : Ending ρ σ ε υ}
    (hz : Ends refill kept z ending) (hx : attach x = z) : ∃ first, Ends refill kept x first := by
  induction hz generalizing x with
  | done | failed =>
    obtain ⟨s, _ | _ | rest⟩ := x
    · exact ⟨_, .done⟩
    · exact ⟨_, .failed⟩
    · obtain ⟨rest', hattach, -⟩ := h.waits s rest
      rw [hattach] at hx
      cases hx
  | @needMore _ t _ _ _ ih =>
    obtain ⟨s, _ | _ | rest⟩ := x
    · exact ⟨_, .done⟩
    · exact ⟨_, .failed⟩
    · obtain ⟨rest', hattach, hstart⟩ := h.waits s rest
      rw [hattach] at hx
      cases hx
      obtain ⟨first, hfirst⟩ := ih (hstart _).symm
      exact ⟨first.behind [t], .needMore hfirst⟩

/-- A computation with a stage attached ends as the two driven one after the other. -/
theorem ends_iff (h : Continues attach next) {ending : Ending ρ σ ε υ} :
    Ends refill kept (attach x) ending ↔ EndsInTurn refill kept x next ending := by
  constructor
  · intro hends
    obtain ⟨first, hfirst⟩ := h.exists_ends hends rfl
    exact ⟨first, hfirst, (h.resumes_next hfirst).ends_iff.mp hends⟩
  · rintro ⟨first, hfirst, hnext⟩
    exact (h.resumes_next hfirst).ends_iff.mpr hnext

/-- Stages that go on alike cannot be told apart. -/
theorem sameRuns {attach' : Started σ ε τ → Started σ ε υ} (h : Continues attach next)
    (h' : Continues attach' next) (x : Started σ ε τ) : SameRuns (attach x) (attach' x) := by
  intro ρ refill kept ending
  rw [h.ends_iff, h'.ends_iff]

/-- Two stages are one that goes on with the second behind what the first gives. -/
theorem comp {attach' : Started σ ε υ → Started σ ε ω} {next' : Except ε υ → σ → Started σ ε ω}
    (h : Continues attach next) (h' : Continues attach' next') :
    Continues (fun x => attach' (attach x)) (fun result s => attach' (next result s)) where
  done s value := congrArg attach' (h.done s value)
  failed s error := congrArg attach' (h.failed s error)
  waits s rest := by
    obtain ⟨first, hfirst, hstart⟩ := h.waits s rest
    obtain ⟨second, hsecond, hstart'⟩ := h'.waits s first
    refine ⟨second, ?_, fun t => ?_⟩
    · rw [hfirst, hsecond]
    · rw [hstart', hstart]

end Continues

/-! ## The three stages -/

/-- Goes on with a value, and leaves an error. -/
def onValue (next : τ → Resumable σ ε υ) : Except ε τ → σ → Started σ ε υ
  | .ok value, s => (next value).start s
  | .error error, s => (s, .failed error)

/-- Goes on with an error, and leaves a value. -/
def onError (handler : ε → Resumable σ ε τ) : Except ε τ → σ → Started σ ε τ
  | .ok value, s => (s, .done value)
  | .error error, s => (handler error).start s

theorem start_andThen (first : Resumable σ ε τ) (next : τ → Resumable σ ε υ) (s : σ) :
    (first.andThen next).start s = (first.start s).2.andThen (first.start s).1 next := by
  cases h : first.start s with
  | mk t p => cases p <;> simp [start, h, Progress.andThen]

theorem start_rescue (first : Resumable σ ε τ) (handler : ε → Resumable σ ε τ) (s : σ) :
    (first.rescue handler).start s = (first.start s).2.rescue (first.start s).1 handler := by
  cases h : first.start s with
  | mk t p => cases p <;> simp [start, h, Progress.rescue]

theorem start_map (first : Resumable σ ε τ) (f : τ → υ) (s : σ) :
    (first.map f).start s = ((first.start s).1, (first.start s).2.map f) := by
  cases h : first.start s with
  | mk t p => cases p <;> simp [start, h, Progress.map]

theorem continues_andThen (next : τ → Resumable σ ε υ) :
    Continues (fun x : Started σ ε τ => x.2.andThen x.1 next) (onValue next) where
  done _ _ := rfl
  failed _ _ := rfl
  waits _ rest := ⟨.andThen rest next, rfl, start_andThen rest next⟩

theorem continues_rescue (handler : ε → Resumable σ ε τ) :
    Continues (fun x : Started σ ε τ => x.2.rescue x.1 handler) (onError handler) where
  done _ _ := rfl
  failed _ _ := rfl
  waits _ rest := ⟨.rescue rest handler, rfl, start_rescue rest handler⟩

/-- Changing the value goes on as a computation that is finished with the new value. -/
theorem continues_map (f : τ → υ) :
    Continues (fun x : Started σ ε τ => (x.1, x.2.map f))
      (onValue fun value => done (f value)) where
  done _ _ := rfl
  failed _ _ := rfl
  waits _ rest := ⟨.map rest f, rfl, start_map rest f⟩

/-- No stage at all goes on as a computation that is finished with the value. -/
theorem continues_id : Continues (fun x : Started σ ε τ => x) (onValue done) where
  done _ _ := rfl
  failed _ _ := rfl
  waits _ rest := ⟨rest, rfl, fun _ => rfl⟩

/-- Two stages that take values are one. -/
theorem continues_andThen_andThen (next : τ → Resumable σ ε υ) (after : υ → Resumable σ ε ω) :
    Continues
      (fun x : Started σ ε τ => (x.2.andThen x.1 next).2.andThen (x.2.andThen x.1 next).1 after)
      (onValue fun value => .andThen (next value) after) := by
  have hnext : (fun result s => (onValue next result s).2.andThen (onValue next result s).1 after) =
      onValue fun value => .andThen (next value) after := by
    funext result s
    cases result with
    | ok value => exact (start_andThen (next value) after s).symm
    | error error => rfl
  rw [← hnext]
  exact (continues_andThen next).comp (continues_andThen after)

/-- The computation that comes this far when it is started. -/
def ofProgress : Progress σ ε τ → Resumable σ ε τ
  | .done value => done value
  | .failed error => failed error
  | .needMore rest => .pause rest

theorem start_ofProgress (p : Progress σ ε τ) (s : σ) : (ofProgress p).start s = (s, p) := by
  cases p <;> rfl

/-- Every function from a state to a started computation is what some computation does when it is
started. -/
theorem exists_start_eq (k : σ → Started σ ε τ) : ∃ m : Resumable σ ε τ, ∀ s, m.start s = k s := by
  refine ⟨.andThen (.poll fun s => ((k s).1, .done s)) fun s => ofProgress (k s).2, fun s => ?_⟩
  exact start_ofProgress (k s).2 (k s).1

/-! ## Computations that go on as themselves -/

section Starts

variable {first second : Resumable σ ε τ}

/-- Two computations that start alike, or wait and then go on as themselves, end alike. -/
theorem Ends.of_start {refill : ρ → σ → ρ × σ} {kept : ρ} {s : σ} {x : Started σ ε τ}
    {ending : Ending ρ σ ε τ}
    (h : ∀ s, first.start s = second.start s ∨
      ∃ t, first.start s = (t, .needMore first) ∧ second.start s = (t, .needMore second))
    (hends : Ends refill kept x ending) (hx : first.start s = x) :
    Ends refill kept (second.start s) ending := by
  induction hends generalizing s with
  | done =>
    obtain heq | ⟨t, hwait, -⟩ := h s
    · rw [← heq, hx]
      exact .done
    · rw [hwait] at hx
      cases hx
  | failed =>
    obtain heq | ⟨t, hwait, -⟩ := h s
    · rw [← heq, hx]
      exact .failed
    · rw [hwait] at hx
      cases hx
  | needMore hrest ih =>
    obtain heq | ⟨t, hwait, hwait'⟩ := h s
    · rw [← heq, hx]
      exact .needMore hrest
    · rw [hwait] at hx
      cases hx
      rw [hwait']
      exact .needMore (ih rfl)

theorem sameRuns_start
    (h : ∀ s, first.start s = second.start s ∨
      ∃ t, first.start s = (t, .needMore first) ∧ second.start s = (t, .needMore second))
    (s : σ) : SameRuns (first.start s) (second.start s) := by
  intro ρ refill kept ending
  have hsymm : ∀ s, second.start s = first.start s ∨
      ∃ t, second.start s = (t, .needMore second) ∧ first.start s = (t, .needMore first) := by
    intro s
    rcases h s with heq | ⟨t, hfirst, hsecond⟩
    · exact .inl heq.symm
    · exact .inr ⟨t, hsecond, hfirst⟩
  exact ⟨fun hends => hends.of_start h rfl, fun hends => hends.of_start hsymm rfl⟩

end Starts

/-! ## Supplies from a list -/

/-- Gives the state the next supply, while there is one. -/
def deal (give : σ → ι → σ) : List ι → σ → List ι × σ
  | [], s => ([], s)
  | supply :: supplies, s => (supplies, give s supply)

/-- A computation that has come to its end with a result. -/
def ended : Except ε τ → Progress σ ε τ
  | .ok value => .done value
  | .error error => .failed error

@[simp] theorem drive_ended (give : σ → ι → σ) (supplies : List ι) (s : σ) (result : Except ε τ) :
    (ended result).drive give supplies s = (s, ended result, supplies) := by
  cases result <;> cases supplies <;> rfl

theorem ends_ended_iff {refill : ρ → σ → ρ × σ} {kept : ρ} {s : σ} {result : Except ε τ}
    {ending : Ending ρ σ ε τ} :
    Ends refill kept (s, ended result) ending ↔ ending = ⟨result, s, kept, []⟩ := by
  cases result <;> simp [ended]

theorem ended_injective : Function.Injective (ended : Except ε τ → Progress σ ε τ) := by
  intro first second h
  cases first <;> cases second <;> cases h <;> rfl

/-- Driving on a list of supplies comes to an end where driving with the refill function that deals
them out does, if the supplies last. -/
theorem drive_eq_iff (give : σ → ι → σ) (supplies : List ι) (s t : σ) (p : Progress σ ε τ)
    (result : Except ε τ) (left : List ι) :
    p.drive give supplies s = (t, ended result, left) ↔
      ∃ calls, Ends (deal give) supplies (s, p) ⟨result, t, left, calls⟩ ∧
        calls.length + left.length = supplies.length := by
  -- On a computation that has ended both sides say that `result`, `t` and `left` are what it has.
  have hended : ∀ (supplies : List ι) (s : σ) (last : Except ε τ),
      ((ended last).drive give supplies s = (t, ended result, left) ↔
        ∃ calls, Ends (deal give) supplies (s, ended last) ⟨result, t, left, calls⟩ ∧
          calls.length + left.length = supplies.length) := by
    intro supplies s last
    simp only [drive_ended, Prod.mk.injEq, ends_ended_iff, Ending.mk.injEq, ended_injective.eq_iff]
    constructor
    · rintro ⟨rfl, rfl, rfl⟩
      exact ⟨[], ⟨rfl, rfl, rfl, rfl⟩, by simp⟩
    · rintro ⟨_, ⟨rfl, rfl, rfl, -⟩, -⟩
      exact ⟨rfl, rfl, rfl⟩
  induction supplies generalizing s p with
  | nil =>
    cases p with
    | done value => exact hended [] s (.ok value)
    | failed error => exact hended [] s (.error error)
    | needMore rest =>
      constructor
      · intro h
        cases result <;> cases h
      · rintro ⟨calls, hends, hlength⟩
        obtain ⟨later, -, heq⟩ := ends_needMore_iff.mp hends
        have hcalls : calls = s :: later.refilled := congrArg Ending.refilled heq
        simp [hcalls] at hlength
  | cons supply supplies ih =>
    cases p with
    | done value => exact hended _ s (.ok value)
    | failed error => exact hended _ s (.error error)
    | needMore rest =>
      show (rest.start (give s supply)).2.drive give supplies (rest.start (give s supply)).1 = _ ↔ _
      refine (ih _ _).trans ?_
      constructor
      · rintro ⟨calls, hends, hlength⟩
        exact ⟨s :: calls, ends_needMore_iff.mpr ⟨_, hends, rfl⟩, by simp; omega⟩
      · rintro ⟨calls, hends, hlength⟩
        obtain ⟨⟨result', t', left', calls'⟩, hlater, heq⟩ := ends_needMore_iff.mp hends
        simp only [Ending.behind, Ending.mk.injEq] at heq
        obtain ⟨rfl, rfl, rfl, rfl⟩ := heq
        exact ⟨calls', hlater, by simp at hlength; omega⟩

/-! ## The laws -/

/-- The waits of computations do not show in how they are sequenced. A computation that has been
started is any `x`, so it may have been resumed any number of times when a stage is attached. -/
structure SequencesAlike (σ ε : Type) : Prop where
  /-- A stage may be any function of the value and the state. -/
  general : ∀ {τ : Type} (k : σ → Started σ ε τ), ∃ m : Resumable σ ε τ, ∀ s, m.start s = k s
  /-- A computation with a stage for its value ends as it does alone and then as the stage does; an
  error is the end. -/
  andThen : ∀ {ρ τ υ : Type} (refill : ρ → σ → ρ × σ) (kept : ρ) (x : Started σ ε τ)
    (next : τ → Resumable σ ε υ) (ending : Ending ρ σ ε υ),
    Ends refill kept (x.2.andThen x.1 next) ending ↔ EndsInTurn refill kept x (onValue next) ending
  /-- The same of a stage for the error; a value is the end. -/
  rescue : ∀ {ρ τ : Type} (refill : ρ → σ → ρ × σ) (kept : ρ) (x : Started σ ε τ)
    (handler : ε → Resumable σ ε τ) (ending : Ending ρ σ ε τ),
    Ends refill kept (x.2.rescue x.1 handler) ending ↔
      EndsInTurn refill kept x (onError handler) ending
  /-- Driving comes to one end at most. -/
  unique : ∀ {ρ τ : Type} {refill : ρ → σ → ρ × σ} {kept : ρ} {x : Started σ ε τ}
    {first second : Ending ρ σ ε τ}, Ends refill kept x first → Ends refill kept x second →
    first = second
  /-- What has been driven part of the way ends as it would have from the start. -/
  resumed : ∀ {ρ τ : Type} {refill : ρ → σ → ρ × σ} {kept kept' : ρ} {x y : Started σ ε τ}
    {calls : List σ} (ending : Ending ρ σ ε τ), Resumes refill kept x calls kept' y →
    (Ends refill kept x ending ↔ EndsBehind refill calls kept' y ending)
  /-- To attach a stage and resume comes to the same as to resume and attach the stage. -/
  andThen_late : ∀ {ρ τ υ : Type} {refill : ρ → σ → ρ × σ} {kept kept' : ρ} {x y : Started σ ε τ}
    {calls : List σ} (next : τ → Resumable σ ε υ), Resumes refill kept x calls kept' y →
    Resumes refill kept (x.2.andThen x.1 next) calls kept' (y.2.andThen y.1 next)
  rescue_late : ∀ {ρ τ : Type} {refill : ρ → σ → ρ × σ} {kept kept' : ρ} {x y : Started σ ε τ}
    {calls : List σ} (handler : ε → Resumable σ ε τ), Resumes refill kept x calls kept' y →
    Resumes refill kept (x.2.rescue x.1 handler) calls kept' (y.2.rescue y.1 handler)
  map_late : ∀ {ρ τ υ : Type} {refill : ρ → σ → ρ × σ} {kept kept' : ρ} {x y : Started σ ε τ}
    {calls : List σ} (f : τ → υ), Resumes refill kept x calls kept' y →
    Resumes refill kept (x.1, x.2.map f) calls kept' (y.1, y.2.map f)
  /-- A computation that is finished is nothing before a stage. -/
  done_andThen : ∀ {τ υ : Type} (s : σ) (value : τ) (next : τ → Resumable σ ε υ),
    (Progress.done value).andThen s next = (next value).start s
  /-- A stage that is finished with the value it is given is nothing. -/
  andThen_done : ∀ {τ : Type} (x : Started σ ε τ), SameRuns (x.2.andThen x.1 done) x
  /-- Two stages are one. -/
  andThen_assoc : ∀ {τ υ ω : Type} (x : Started σ ε τ) (next : τ → Resumable σ ε υ)
    (after : υ → Resumable σ ε ω),
    SameRuns ((x.2.andThen x.1 next).2.andThen (x.2.andThen x.1 next).1 after)
      (x.2.andThen x.1 fun value => .andThen (next value) after)
  /-- Changing the value is a stage that is finished with the new one. -/
  map : ∀ {τ υ : Type} (x : Started σ ε τ) (f : τ → υ),
    SameRuns (x.1, x.2.map f) (x.2.andThen x.1 fun value => done (f value))
  /-- Driving on a list of supplies comes to an end where driving with the function that deals them
  out does, if the supplies last. -/
  drive : ∀ {ι τ : Type} (give : σ → ι → σ) (supplies : List ι) (s t : σ) (p : Progress σ ε τ)
    (result : Except ε τ) (left : List ι),
    p.drive give supplies s = (t, ended result, left) ↔
      ∃ calls, Ends (deal give) supplies (s, p) ⟨result, t, left, calls⟩ ∧
        calls.length + left.length = supplies.length

/-- How computations are sequenced does not show where they have waited. -/
theorem sequencing_hides_waits (σ ε : Type) : SequencesAlike σ ε where
  general := exists_start_eq
  andThen _ _ _ next _ := (continues_andThen next).ends_iff
  rescue _ _ _ handler _ := (continues_rescue handler).ends_iff
  unique := Ends.unique
  resumed _ h := h.ends_iff
  andThen_late next h := (continues_andThen next).resumes h
  rescue_late handler h := (continues_rescue handler).resumes h
  map_late f h := (continues_map f).resumes h
  done_andThen _ _ _ := rfl
  andThen_done x := (continues_andThen done).sameRuns continues_id x
  andThen_assoc x next after :=
    (continues_andThen_andThen next after).sameRuns (continues_andThen _) x
  map x f := (continues_map f).sameRuns (continues_andThen _) x
  drive := drive_eq_iff

end StreamLexer.Resumable
