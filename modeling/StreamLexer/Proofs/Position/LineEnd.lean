import StreamLexer.Proofs.Scan.WordBytes

/-!
# Newlines in lexemes

Where a newline can stand in a lexeme. The patterns of most rules have no newline in any piece, so
that none is in their lexemes: `newline_not_mem`. The others have the pattern of line ends in them
once, which leaves one newline with its place: `exists_lineEnd`.
-/
namespace StreamLexer

/-- The newline. -/
def newline : UInt8 := '\n'.toUInt8

namespace Pattern

theorem accepts_lineEnd {w : List UInt8} (h : lineEnd.Accepts w) :
    ∃ u, w = u ++ [newline] ∧ ∀ b ∈ u, b = '\r'.toUInt8 := by
  obtain ⟨u, _, rfl, hu, b, _, rfl, hb, rfl⟩ := h
  obtain rfl := eq_of_beq hb
  exact ⟨u, rfl, fun b hb => eq_of_beq (hu b hb)⟩

theorem newline_not_mem_returns {u : List UInt8} (h : ∀ b ∈ u, b = '\r'.toUInt8) :
    newline ∉ u := by
  intro hmem
  have hreturn := h newline hmem
  cases hreturn

/-- A line end between patterns without a newline. -/
theorem exists_lineEnd {p q : Pattern} (hp : p.avoids [newline] = true)
    (hq : q.avoids [newline] = true) {w : List UInt8} (h : (p ++ (lineEnd ++ q)).Accepts w) :
    ∃ u v, w = u ++ newline :: v ∧ newline ∉ u ∧ newline ∉ v ∧ q.Accepts v := by
  obtain ⟨u, _, rfl, hu, hrest⟩ := accepts_append h
  obtain ⟨ends, v, rfl, hends, hv⟩ := accepts_append hrest
  obtain ⟨returns, rfl, hreturns⟩ := accepts_lineEnd hends
  refine ⟨u ++ returns, v, by simp, ?_, ?_, hv⟩
  · rw [List.mem_append, not_or]
    exact ⟨not_mem_of_avoids hp hu newline (by simp), newline_not_mem_returns hreturns⟩
  · exact not_mem_of_avoids hq hv newline (by simp)

end Pattern

open Pattern

/-! ## Rules without a newline -/

section Rules

variable {ρ : Type} [DecidableEq ρ]

/-- All rules but those listed have no newline in their patterns. -/
def avoidNewline (rows : List (ρ × Pattern)) (others : List ρ) : Bool :=
  rows.all fun row => others.contains row.1 || row.2.avoids [newline]

theorem newline_not_mem {rows : List (ρ × Pattern)} {others : List ρ}
    (hrows : avoidNewline rows others = true) {rule : ρ} (hrule : rule ∉ others)
    {lexeme : List UInt8} (h : firstAccepting? rows lexeme = some rule) : newline ∉ lexeme := by
  obtain ⟨p, hp, haccepts⟩ := exists_of_firstAccepting? h
  have hrow := List.all_eq_true.mp hrows _ hp
  have havoids : p.avoids [newline] = true := by simpa [hrule] using hrow
  exact not_mem_of_avoids havoids haccepts newline (List.mem_singleton_self _)

end Rules

/-- A byte that no row accepts is not a newline, if line ends are a row. -/
theorem ne_newline_of_none {ρ : Type} {rows : List (ρ × Pattern)} {rule : ρ}
    (hrow : (rule, Pattern.lineEnd) ∈ rows) {b : UInt8} (h : firstAccepting? rows [b] = none) :
    newline ∉ [b] := by
  rw [firstAccepting?_eq_none_iff] at h
  intro hmem
  obtain rfl := List.mem_singleton.mp hmem
  exact h _ hrow ⟨[], [newline], rfl, by simp, newline, [], rfl, rfl, rfl⟩

/-- In a body, all lexemes but those of the listed rules are without a newline. -/
theorem newline_not_mem_body {ρ : Type} [DecidableEq ρ] {scan : Lookahead → Verdict ρ}
    {isStop : UInt8 → Bool} {skip : Cursor → Nat × Cursor} {endOfInput plain rule : ρ}
    {rows : List (ρ × Pattern)} {others : List ρ}
    (hbody : scan = bodyScan isStop skip endOfInput plain rows)
    (htable : BodyTable isStop skip rows) (hstop : isStop newline = true) (lineRule : ρ)
    (hline : (lineRule, Pattern.lineEnd) ∈ rows) (hrows : avoidNewline rows others = true)
    (hrule : rule ∉ others) {lexeme later : List UInt8}
    (h : scan ⟨lexeme ++ later, true⟩ = .found rule lexeme.length) : newline ∉ lexeme := by
  rcases first_cases_of_body hbody htable h with
    ⟨-, rfl⟩ | ⟨-, hplain⟩ | ⟨-, ⟨b, rfl⟩, hnone⟩ | hfirst
  · exact List.not_mem_nil
  · intro hmem
    rw [hplain newline hmem] at hstop
    cases hstop
  · exact ne_newline_of_none hline hnone
  · exact newline_not_mem hrows hrule hfirst

end StreamLexer
