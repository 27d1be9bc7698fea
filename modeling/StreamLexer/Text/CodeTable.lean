/-!
Sets of characters as tables of code points, for the properties of the Unicode standard. The main
statement says that membership, which stops at the first range past the code point, finds every
range that holds it.
-/
namespace StreamLexer

/-- Closed ranges, each below the next. -/
def isAscending : List (Nat × Nat) → Bool
  | [] => true
  | [r] => r.1 ≤ r.2
  | r :: s :: rest => r.1 ≤ r.2 && r.2 < s.1 && isAscending (s :: rest)

/-- A set of code points, as closed ranges in ascending order. -/
structure CodeTable where
  ranges : List (Nat × Nat)
  ascending : isAscending ranges = true

/-- Whether one of the ranges holds the code point. -/
def inRanges : List (Nat × Nat) → Nat → Bool
  | [], _ => false
  | r :: rest, n => if n < r.1 then false else n ≤ r.2 || inRanges rest n

/-- Whether the character is in the set. -/
def CodeTable.contains (t : CodeTable) (c : Char) : Bool :=
  inRanges t.ranges c.toNat

theorem isAscending_tail {r : Nat × Nat} {rest : List (Nat × Nat)}
    (h : isAscending (r :: rest) = true) : isAscending rest = true := by
  cases rest with
  | nil => rfl
  | cons s rest =>
    simp only [isAscending, Bool.and_eq_true] at h
    exact h.2

theorem lt_of_mem_tail {r : Nat × Nat} {rest : List (Nat × Nat)}
    (h : isAscending (r :: rest) = true) {s : Nat × Nat} (hs : s ∈ rest) : r.1 < s.1 := by
  induction rest generalizing r with
  | nil => simp at hs
  | cons t rest ih =>
    have ht : r.1 < t.1 := by
      simp only [isAscending, Bool.and_eq_true, decide_eq_true_eq] at h
      omega
    rcases List.mem_cons.mp hs with rfl | hs
    · exact ht
    · exact Nat.lt_trans ht (ih (isAscending_tail h) hs)

theorem inRanges_iff {ranges : List (Nat × Nat)} (h : isAscending ranges = true) (n : Nat) :
    inRanges ranges n = true ↔ ∃ r ∈ ranges, r.1 ≤ n ∧ n ≤ r.2 := by
  induction ranges with
  | nil => simp [inRanges]
  | cons r rest ih =>
    by_cases hn : n < r.1
    · have hrest : ∀ s ∈ rest, ¬ s.1 ≤ n := fun s hs => by
        have := lt_of_mem_tail h hs
        omega
      simp only [inRanges, hn, if_true, Bool.false_eq_true, List.mem_cons, false_iff]
      rintro ⟨s, rfl | hs, hlo, -⟩
      · omega
      · exact hrest s hs hlo
    · have hr : r.1 ≤ n := Nat.le_of_not_lt hn
      simp [inRanges, hn, ih (isAscending_tail h), hr]

/-- A character is in the set exactly if one of the ranges holds it. -/
theorem CodeTable.contains_iff (t : CodeTable) (c : Char) :
    t.contains c = true ↔ ∃ r ∈ t.ranges, r.1 ≤ c.toNat ∧ c.toNat ≤ r.2 :=
  inRanges_iff t.ascending c.toNat

end StreamLexer
