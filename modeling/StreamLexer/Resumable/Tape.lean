import StreamLexer.Resumable.Basic

/-!
A small instance of resumable computations: a tape of numbers that arrive one at a time, and
computations written as `Plan`s that take numbers from it.
-/
namespace StreamLexer

/-- Numbers that have arrived and wait to be taken, and numbers still to come. -/
structure Tape where
  buffered : List Int := []
  incoming : List Int
  /-- Nothing more can arrive. -/
  closed : Bool := false
  /-- How often the tape was asked for more. -/
  refills : Nat := 0

namespace Tape

/-- Lets the next number arrive, or closes the tape when there is none. -/
def refill (t : Tape) : Tape :=
  match t.incoming with
  | n :: incoming =>
    { t with buffered := t.buffered ++ [n], incoming, refills := t.refills + 1 }
  | [] => { t with closed := true, refills := t.refills + 1 }

/-- Takes the first number that has arrived, and waits for one if the tape is open. -/
def take : Resumable Tape String Int :=
  .poll fun t =>
    match t.buffered with
    | n :: buffered => ({ t with buffered }, .done n)
    | [] => (t, if t.closed then .failed "end of tape" else .pending)

/-- How often the tape was asked for more so far. -/
def countRefills : Resumable Tape String Int :=
  .poll fun t => (t, .done t.refills)

end Tape

/-- A computation over a tape, as data. -/
inductive Plan where
  | take
  | refills
  | done (value : Int)
  | fail (error : String)
  | pause (next : Plan)
  /-- Doubles the value. -/
  | double (first : Plan)
  /-- Adds a number taken from the tape. -/
  | addNext (first : Plan)
  | add (first : Plan) (n : Int)
  /-- Appends the value of a second plan as a decimal digit. -/
  | andThen (first second : Plan)
  /-- Replaces a failure by a second plan. -/
  | rescue (first second : Plan)
  /-- Puts a label before the text of a failure. -/
  | relabel (first : Plan) (label : String)

namespace Plan

/-- The computation that a plan stands for. -/
def toResumable : Plan → Resumable Tape String Int
  | .take => Tape.take
  | .refills => Tape.countRefills
  | .done value => .done value
  | .fail error => .failed error
  | .pause next => .pause next.toResumable
  | .double first => .andThen first.toResumable fun v => .done (2 * v)
  | .addNext first => .andThen first.toResumable fun v => .map Tape.take fun w => v + w
  | .add first n => .map first.toResumable (· + n)
  | .andThen first second =>
    .andThen first.toResumable fun v => .map second.toResumable fun w => 10 * v + w
  | .rescue first second => .rescue first.toResumable fun _ => second.toResumable
  | .relabel first label => .rescue first.toResumable fun e => .failed (label ++ ":" ++ e)

/-- More refills than a plan can wait for: each of its parts waits at most once. -/
def maxWaits : Plan → Nat
  | .take | .refills | .done _ | .fail _ => 1
  | .pause next => next.maxWaits + 1
  | .double first | .add first _ | .relabel first _ => first.maxWaits
  | .addNext first => first.maxWaits + 1
  | .andThen first second | .rescue first second => first.maxWaits + second.maxWaits

end Plan

end StreamLexer
