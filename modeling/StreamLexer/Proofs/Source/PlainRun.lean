import StreamLexer.Source.Cursor

/-!
# Runs of plain bytes

Most bytes of a comment or a string mean nothing by themselves, and a cursor skips them: it moves to
the first stop byte that is held, or to the end of what is held. `Cursor.StopsFirst` says so without
a word about how the stop byte is found.

It can be found by trying one byte after another, as `Cursor.skipUntil` does, or by a search for a
few given bytes at once. `ByteSearch` stands for such a search, of which only `FindsFirst` is
known. Four stop bytes take two searches, and the earlier answer counts: `IsFirst.getD_earlier`.

The main statement is `plain_runs_agree`: from wherever a cursor stands, all these ways lead to the
same place.
-/
namespace StreamLexer

/-! ## First occurrences -/

/-- The answer to a search is the index of the first byte with the property, or none if no byte has
it. -/
def IsFirst (p : UInt8 → Bool) (bytes : List UInt8) : Option Nat → Prop
  | some n => (∃ b, bytes[n]? = some b ∧ p b = true) ∧
      ∀ i b, i < n → bytes[i]? = some b → p b = false
  | none => ∀ b ∈ bytes, p b = false

/-- The earlier one of two answers. -/
def earlier : Option Nat → Option Nat → Option Nat
  | some m, some n => some (min m n)
  | some n, none | none, some n => some n
  | none, none => none

theorem length_takeWhile_not (isStop : UInt8 → Bool) (bytes : List UInt8) :
    (bytes.takeWhile fun b => !isStop b).length = bytes.findIdx isStop := by
  rw [List.takeWhile_eq_take_findIdx_not, List.length_take]
  simp only [Bool.not_not]
  exact Nat.min_eq_left List.findIdx_le_length

theorem findIdx_or (p q : UInt8 → Bool) (bytes : List UInt8) :
    bytes.findIdx (fun b => p b || q b) = min (bytes.findIdx p) (bytes.findIdx q) := by
  induction bytes with
  | nil => rfl
  | cons b bytes ih =>
    simp only [List.findIdx_cons, ih]
    cases p b <;> cases q b <;> simp

theorem isFirst_findIdx? (p : UInt8 → Bool) (bytes : List UInt8) :
    IsFirst p bytes (bytes.findIdx? p) := by
  cases hfound : bytes.findIdx? p with
  | none => exact List.findIdx?_eq_none_iff.mp hfound
  | some n =>
    obtain ⟨hn, hstop, hbefore⟩ := List.findIdx?_eq_some_iff_getElem.mp hfound
    refine ⟨⟨_, List.getElem?_eq_getElem hn, hstop⟩, ?_⟩
    intro i b hi hb
    obtain ⟨hlt, rfl⟩ := List.getElem?_eq_some_iff.mp hb
    exact Bool.eq_false_iff.mpr (hbefore i hi)

namespace IsFirst

variable {p q : UInt8 → Bool} {bytes : List UInt8} {m n : Option Nat}

/-- There is only one first occurrence. -/
theorem getD_eq (h : IsFirst p bytes n) : n.getD bytes.length = bytes.findIdx p := by
  cases n with
  | none => exact (List.findIdx_eq_length.mpr h).symm
  | some n =>
    obtain ⟨⟨b, hb, hstop⟩, hbefore⟩ := h
    obtain ⟨hn, rfl⟩ := List.getElem?_eq_some_iff.mp hb
    refine ((List.findIdx_eq hn).mpr ⟨hstop, ?_⟩).symm
    intro i hi
    exact hbefore i _ hi (List.getElem?_eq_getElem (Nat.lt_trans hi hn))

/-- The earlier one of two first occurrences is the first occurrence of either. -/
theorem getD_earlier (hp : IsFirst p bytes m) (hq : IsFirst q bytes n) :
    (earlier m n).getD bytes.length = bytes.findIdx fun b => p b || q b := by
  have hm : m.getD bytes.length ≤ bytes.length := hp.getD_eq ▸ List.findIdx_le_length
  have hn : n.getD bytes.length ≤ bytes.length := hq.getD_eq ▸ List.findIdx_le_length
  rw [findIdx_or, ← hp.getD_eq, ← hq.getD_eq]
  cases m with
  | none =>
    cases n with
    | none => exact (Nat.min_self _).symm
    | some n => exact (Nat.min_eq_right hn).symm
  | some m =>
    cases n with
    | none => exact (Nat.min_eq_left hm).symm
    | some n => rfl

end IsFirst

/-! ## Searches -/

/-- The byte is one of three. -/
def isOneOf (x y z : UInt8) (b : UInt8) : Bool :=
  b == x || b == y || b == z

theorem isStringStop_eq : Byte.isStringStop = fun b =>
    isOneOf '"'.toUInt8 '\\'.toUInt8 '\n'.toUInt8 b || b == '\r'.toUInt8 := by
  funext b
  simp [Byte.isStringStop, Byte.isAny, isOneOf, Bool.or_assoc]

/-- A search through bytes, for one byte or for any of three. -/
structure ByteSearch where
  one : UInt8 → List UInt8 → Option Nat
  three : UInt8 → UInt8 → UInt8 → List UInt8 → Option Nat

namespace ByteSearch

/-- The search finds first occurrences. -/
structure FindsFirst (search : ByteSearch) : Prop where
  one : ∀ x bytes, IsFirst (· == x) bytes (search.one x bytes)
  three : ∀ x y z bytes, IsFirst (isOneOf x y z) bytes (search.three x y z bytes)

/-- The search that tries one byte after another. -/
def linear : ByteSearch where
  one x bytes := bytes.findIdx? (· == x)
  three x y z bytes := bytes.findIdx? (isOneOf x y z)

theorem linear_findsFirst : linear.FindsFirst where
  one x bytes := isFirst_findIdx? (· == x) bytes
  three x y z bytes := isFirst_findIdx? (isOneOf x y z) bytes

end ByteSearch

namespace Cursor

/-! ## Skips -/

/-- The held bytes from the cursor on; none if it has passed them all. -/
def ahead (c : Cursor) : List UInt8 :=
  c.view.bytes.drop (min c.pos c.view.bytes.length)

/-- Moves over held bytes up to the first of three, as a search finds it. -/
def searchTo (c : Cursor) (search : ByteSearch) (x y z : UInt8) : Nat × Cursor :=
  let n := (search.three x y z c.ahead).getD c.ahead.length
  (n, c.advance n)

/-- Moves over the plain bytes of a string: up to the earlier one of what two searches find. -/
def searchStringBody (c : Cursor) (search : ByteSearch) : Nat × Cursor :=
  let n := (earlier (search.three '"'.toUInt8 '\\'.toUInt8 '\n'.toUInt8 c.ahead)
    (search.one '\r'.toUInt8 c.ahead)).getD c.ahead.length
  (n, c.advance n)

/-- What a skip comes to: the cursor has moved over plain bytes only, and stands at a stop byte or
past the held bytes. It sees what it saw before, and has starved only if it had before. -/
structure StopsFirst (c : Cursor) (isStop : UInt8 → Bool) (skip : Nat × Cursor) : Prop where
  pos_eq : skip.2.pos = c.pos + skip.1
  view_eq : skip.2.view = c.view
  starved_eq : skip.2.starved = c.starved
  plain : ∀ i, i < skip.1 → ∃ b, c.view.bytes[c.pos + i]? = some b ∧ isStop b = false
  stopped : (∃ b, c.view.bytes[c.pos + skip.1]? = some b ∧ isStop b = true) ∨
    c.view.bytes.length ≤ c.pos + skip.1

section Skips

variable (c : Cursor)

theorem ahead_eq_rest : c.ahead = c.rest 0 := by
  rw [ahead, rest, Nat.add_zero]
  rcases Nat.le_total c.pos c.view.bytes.length with hle | hle
  · rw [Nat.min_eq_left hle]
  · rw [Nat.min_eq_right hle, List.drop_length, List.drop_eq_nil_of_le hle]

theorem skipUntil_eq (isStop : UInt8 → Bool) :
    c.skipUntil isStop = ((c.rest 0).findIdx isStop, c.advance ((c.rest 0).findIdx isStop)) := by
  rw [skipUntil, length_takeWhile_not]

theorem skipTo_eq (x y z : UInt8) : c.skipTo x y z = c.skipUntil (isOneOf x y z) := by
  rw [skipUntil_eq]
  rfl

theorem skipStringBody_eq : c.skipStringBody = c.skipUntil Byte.isStringStop := by
  rw [isStringStop_eq, skipUntil_eq, findIdx_or]
  rfl

/-- A skip that tries one byte after another stops at the first stop byte. -/
theorem skipUntil_stopsFirst (isStop : UInt8 → Bool) :
    c.StopsFirst isStop (c.skipUntil isStop) := by
  rw [skipUntil_eq]
  have hget : ∀ i, c.view.bytes[c.pos + i]? = (c.rest 0)[i]? := by
    intro i
    rw [rest, Nat.add_zero, List.getElem?_drop]
  refine ⟨rfl, rfl, rfl, ?_, ?_⟩
  · intro i hi
    have hlt : i < (c.rest 0).length := Nat.lt_of_lt_of_le hi List.findIdx_le_length
    exact ⟨_, (hget i).trans (List.getElem?_eq_getElem hlt), List.not_of_lt_findIdx hi⟩
  · have hle : (c.rest 0).findIdx isStop ≤ (c.rest 0).length := List.findIdx_le_length
    rcases Nat.lt_or_eq_of_le hle with hlt | heq
    · exact .inl ⟨_, (hget _).trans (List.getElem?_eq_getElem hlt), List.findIdx_getElem⟩
    · right
      show _ ≤ c.pos + (c.rest 0).findIdx isStop
      rw [heq, rest, List.length_drop]
      omega

variable {search : ByteSearch} (h : search.FindsFirst)
include h

theorem searchTo_eq (x y z : UInt8) :
    c.searchTo search x y z = c.skipUntil (isOneOf x y z) := by
  have hfirst := (h.three x y z c.ahead).getD_eq
  rw [skipUntil_eq, searchTo, hfirst, ahead_eq_rest]

theorem searchStringBody_eq : c.searchStringBody search = c.skipUntil Byte.isStringStop := by
  have hfirst := (h.three '"'.toUInt8 '\\'.toUInt8 '\n'.toUInt8 c.ahead).getD_earlier
    (h.one '\r'.toUInt8 c.ahead)
  rw [isStringStop_eq, skipUntil_eq, searchStringBody, hfirst, ahead_eq_rest]

end Skips

end Cursor

/-- Wherever a cursor stands, also past the held bytes, a skip by searches goes as far as one that
tries byte after byte and leaves the same cursor, and so does the skip that scans run; and that skip
stops at the first stop byte and starves nothing. -/
theorem plain_runs_agree {search : ByteSearch} (h : search.FindsFirst) (c : Cursor) :
    (c.searchStringBody search = c.skipUntil Byte.isStringStop ∧
      c.skipStringBody = c.skipUntil Byte.isStringStop) ∧
    (∀ x y z, c.searchTo search x y z = c.skipUntil (isOneOf x y z) ∧
      c.skipTo x y z = c.skipUntil (isOneOf x y z)) ∧
    ∀ isStop, c.StopsFirst isStop (c.skipUntil isStop) :=
  ⟨⟨c.searchStringBody_eq h, c.skipStringBody_eq⟩,
    fun x y z => ⟨c.searchTo_eq h x y z, c.skipTo_eq x y z⟩, c.skipUntil_stopsFirst⟩

/-- The carriage return is found by the second search and comes first; then a cursor that has passed
the held bytes of an open lookahead, and has starved. -/
theorem plain_runs_agree_linear :
    let view : Lookahead := ⟨"ab\rc\"".toList.map Char.toUInt8, false⟩
    let c : Cursor := { view, pos := 1 }
    let past : Cursor := { view, pos := 9, starved := true }
    ByteSearch.linear.FindsFirst ∧
      c.searchStringBody ByteSearch.linear = (1, { c with pos := 2 }) ∧
      c.searchStringBody ByteSearch.linear = c.skipUntil Byte.isStringStop ∧
      past.searchStringBody ByteSearch.linear = (0, past) ∧
      past.searchStringBody ByteSearch.linear = past.skipUntil Byte.isStringStop := by
  intro view c past
  have h := ByteSearch.linear_findsFirst
  exact ⟨h, by decide, (plain_runs_agree h c).1.1, by decide, (plain_runs_agree h past).1.1⟩

end StreamLexer
