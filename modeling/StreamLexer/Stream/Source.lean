/-!
Where the chunks of an input come from: a list of chunks, or a reader that delivers at most so many
bytes at a time. `ChunkSource.next` gives the next chunk, the end of input, or an input error.

`ChunkSource.next_weight` says that a source never gives more bytes than it has, and that it runs
out.
-/
namespace StreamLexer

/-- The weights of some things together. -/
def totalWeight {α : Type} (weight : α → Nat) : List α → Nat
  | [] => 0
  | a :: rest => weight a + totalWeight weight rest

/-- What a reader has to offer next. -/
inductive ReadEvent where
  /-- Bytes, of which each read takes as many as it has room for. -/
  | data (bytes : List UInt8)
  /-- The read was interrupted; it is tried again. -/
  | interrupted
  /-- A read of no bytes, which is the end of input for whoever reads. -/
  | ended
  | failed (message : String)
  deriving DecidableEq

namespace ReadEvent

/-- Reads with room for `room` bytes, again after an interruption. An offer of no bytes is passed
over. Gives what is left of the events with the chunk, the end of input, or the error. -/
def pull (room : Nat) : List ReadEvent → List ReadEvent × Except String (Option (List UInt8))
  | [] => ([], .ok none)
  | .data [] :: events => pull room events
  | .data bytes :: events =>
    match bytes.drop room with
    | [] => (events, .ok (some bytes))
    | left => (.data left :: events, .ok (some (bytes.take room)))
  | .interrupted :: events => pull room events
  | .ended :: events => (events, .ok none)
  | .failed message :: events => (events, .error message)

/-- Bytes that an event offers, and one for the event itself. -/
def weight : ReadEvent → Nat
  | .data bytes => bytes.length + 1
  | _ => 1

theorem pull_weight {room : Nat} (hroom : 0 < room) {events rest : List ReadEvent}
    {chunk : List UInt8} (h : pull room events = (rest, .ok (some chunk))) :
    totalWeight weight rest + chunk.length ≤ totalWeight weight events ∧
      totalWeight weight rest < totalWeight weight events := by
  fun_induction pull room events with
  | case1 => cases h
  | case2 events ih =>
    have := ih h
    simp only [totalWeight, weight]
    omega
  | case3 bytes events _ _ =>
    cases h
    simp only [totalWeight, weight]
    omega
  | case4 bytes events _ hdrop =>
    cases h
    have hlen : 0 < (bytes.drop room).length := List.length_pos_iff.2 hdrop
    simp only [List.length_drop] at hlen
    simp only [totalWeight, weight, List.length_drop, List.length_take]
    omega
  | case5 events ih =>
    have := ih h
    simp only [totalWeight, weight]
    omega
  | case6 => cases h
  | case7 => cases h

theorem pull_weight_le (room : Nat) (events : List ReadEvent) :
    totalWeight weight (pull room events).1 ≤ totalWeight weight events := by
  fun_induction pull room events with
  | case4 bytes events _ hdrop =>
    simp only [totalWeight, weight, List.length_drop]
    omega
  | _ =>
    simp only [totalWeight]
    omega

end ReadEvent

/-- Room of a read unless another one is asked for. -/
def defaultChunkSize : Nat := 8192

/-- A source of chunks. -/
inductive ChunkSource where
  /-- These chunks, one after the other. -/
  | chunks (rest : List (List UInt8))
  /-- What a reader offers, read with room for `chunkSize` bytes, or for one if that is zero. After
  the last event a read gives no bytes. -/
  | reader (chunkSize : Nat) (events : List ReadEvent)
  deriving DecidableEq

namespace ChunkSource

/-- The next chunk, none at the end of input. -/
def next : ChunkSource → ChunkSource × Except String (Option (List UInt8))
  | .chunks [] => (.chunks [], .ok none)
  | .chunks (chunk :: rest) => (.chunks rest, .ok (some chunk))
  | .reader chunkSize events =>
    let (events, result) := ReadEvent.pull (max chunkSize 1) events
    (.reader chunkSize events, result)

/-- Bytes still to come, and one for each chunk or event. -/
def weight : ChunkSource → Nat
  | .chunks rest => totalWeight (fun chunk => chunk.length + 1) rest
  | .reader _ events => totalWeight ReadEvent.weight events

theorem next_weight {source rest : ChunkSource} {chunk : List UInt8}
    (h : source.next = (rest, .ok (some chunk))) :
    rest.weight + chunk.length ≤ source.weight ∧ rest.weight < source.weight := by
  match source with
  | .chunks [] => cases h
  | .chunks (c :: cs) =>
    cases h
    simp only [weight, totalWeight]
    omega
  | .reader chunkSize events =>
    simp only [next, Prod.mk.injEq] at h
    obtain ⟨rfl, hresult⟩ := h
    exact ReadEvent.pull_weight (by omega) (Prod.ext rfl hresult)

theorem next_weight_le (source : ChunkSource) : source.next.1.weight ≤ source.weight := by
  match source with
  | .chunks [] => exact Nat.le_refl _
  | .chunks (c :: cs) =>
    simp only [next, weight, totalWeight]
    omega
  | .reader chunkSize events => exact ReadEvent.pull_weight_le _ events

end ChunkSource

end StreamLexer
