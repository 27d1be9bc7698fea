/-!
Computations over a state that may need more input.

A step over partly held input finishes with a value, fails with an error, or finds that it cannot
decide without more. The third outcome is a value too: the rest of the computation, which whoever
drives it starts again once the state has been given more. The progress of a session lives in its
state, so what is left of a request to it holds nothing of that; other computations may keep
something from one wait to the next.

`Resumable.start` runs a computation on a state; `Progress.andThen`, `Progress.rescue` and
`Progress.map` attach further stages to one that has already been started; `Progress.drive` runs one
to its end on a list of supplies.
-/
namespace StreamLexer

/-- The answer of a step that is asked for its result. -/
inductive Poll (ε τ : Type) where
  | done (value : τ)
  | failed (error : ε)
  /-- Undecided: ask again when there is more input. -/
  | pending

/-- A computation over states `σ` that gives a `τ` or fails with an `ε`. -/
inductive Resumable (σ ε : Type) : Type → Type 1 where
  /-- Asks a step, and asks it again after each supply until it has decided. -/
  | poll {τ : Type} (step : σ → σ × Poll ε τ) : Resumable σ ε τ
  /-- The same for a step that keeps something for the next time when it has not decided. -/
  | pollFrom {κ τ : Type} (kept : κ) (step : κ → σ → σ × κ × Poll ε τ) : Resumable σ ε τ
  /-- Waits for one supply, then goes on. -/
  | pause {τ : Type} (next : Resumable σ ε τ) : Resumable σ ε τ
  /-- Goes on with the value. -/
  | andThen {τ υ : Type} (first : Resumable σ ε τ) (next : τ → Resumable σ ε υ) : Resumable σ ε υ
  /-- Goes on with the error. -/
  | rescue {τ : Type} (first : Resumable σ ε τ) (handler : ε → Resumable σ ε τ) : Resumable σ ε τ
  /-- Changes the value. -/
  | map {τ υ : Type} (first : Resumable σ ε τ) (f : τ → υ) : Resumable σ ε υ

/-- How far a computation has come. -/
inductive Progress (σ ε τ : Type) : Type 1 where
  | done (value : τ)
  | failed (error : ε)
  /-- Waits for more input, and then goes on with `rest`. -/
  | needMore (rest : Resumable σ ε τ)

variable {σ ε τ υ ι : Type}

namespace Resumable

/-- A computation that is finished from the start. -/
def done (value : τ) : Resumable σ ε τ :=
  .poll fun s => (s, .done value)

/-- A computation that has failed from the start. -/
def failed (error : ε) : Resumable σ ε τ :=
  .poll fun s => (s, .failed error)

/-- Runs a computation as far as the state allows. -/
def start {τ : Type} : Resumable σ ε τ → σ → σ × Progress σ ε τ
  | .poll step, s =>
    match step s with
    | (s, .done value) => (s, .done value)
    | (s, .failed error) => (s, .failed error)
    | (s, .pending) => (s, .needMore (.poll step))
  | .pollFrom kept step, s =>
    match step kept s with
    | (s, _, .done value) => (s, .done value)
    | (s, _, .failed error) => (s, .failed error)
    | (s, kept, .pending) => (s, .needMore (.pollFrom kept step))
  | .pause next, s => (s, .needMore next)
  | .andThen first next, s =>
    match first.start s with
    | (s, .done value) => (next value).start s
    | (s, .failed error) => (s, .failed error)
    | (s, .needMore rest) => (s, .needMore (.andThen rest next))
  | .rescue first handler, s =>
    match first.start s with
    | (s, .done value) => (s, .done value)
    | (s, .failed error) => (handler error).start s
    | (s, .needMore rest) => (s, .needMore (.rescue rest handler))
  | .map first f, s =>
    match first.start s with
    | (s, .done value) => (s, .done (f value))
    | (s, .failed error) => (s, .failed error)
    | (s, .needMore rest) => (s, .needMore (.map rest f))

end Resumable

namespace Progress

/-- Sequences `next` after a started computation. A value is passed on at once, a failure is kept,
and what is still waiting will pass its value on. -/
def andThen (p : Progress σ ε τ) (s : σ) (next : τ → Resumable σ ε υ) : σ × Progress σ ε υ :=
  match p with
  | .done value => (next value).start s
  | .failed error => (s, .failed error)
  | .needMore rest => (s, .needMore (.andThen rest next))

/-- Handles the failure of a started computation, at once or when it arises. -/
def rescue (p : Progress σ ε τ) (s : σ) (handler : ε → Resumable σ ε τ) : σ × Progress σ ε τ :=
  match p with
  | .done value => (s, .done value)
  | .failed error => (handler error).start s
  | .needMore rest => (s, .needMore (.rescue rest handler))

/-- Changes the value of a started computation, at once or when it arises. -/
def map (p : Progress σ ε τ) (f : τ → υ) : Progress σ ε υ :=
  match p with
  | .done value => .done (f value)
  | .failed error => .failed error
  | .needMore rest => .needMore (.map rest f)

/-- The computation waits for more input. -/
def isWaiting : Progress σ ε τ → Bool
  | .needMore _ => true
  | _ => false

/-- The result of a computation that has come to its end. -/
def finished? : Progress σ ε τ → Option (Except ε τ)
  | .done value => some (.ok value)
  | .failed error => some (.error error)
  | .needMore _ => none

/-- Debug text, given the texts of values and errors. -/
def describe (value : τ → String) (error : ε → String) : Progress σ ε τ → String
  | .done v => s!"Done({value v})"
  | .failed e => s!"Failed({error e})"
  | .needMore _ => "NeedMore(Resume(..))"

/-- Drives a started computation: before each time it goes on, the state is given the next of the
supplies. Ends with the computation, or when the supplies run out; returns those that are left. -/
def drive (give : σ → ι → σ) : List ι → σ → Progress σ ε τ → σ × Progress σ ε τ × List ι
  | supply :: supplies, s, .needMore rest =>
    let (s, p) := rest.start (give s supply)
    drive give supplies s p
  | supplies, s, p => (s, p, supplies)

end Progress

end StreamLexer
