import StreamLexer.Proofs.Scan.Pattern
import StreamLexer.Scan.Matcher

/-!
# Maximal munch

A table lists rules with their patterns, in order of precedence; the longest prefix of the input
that some pattern accepts is the lexeme, and of the rules that accept it the first one wins. `munch`
reads each byte once, keeping what is left of every pattern that still fits.

It decides as soon as nothing longer can match. If the held bytes run out before that, and more may
follow, it answers `undecided`. The scans know nothing of tables; that they answer as `munch` does
by the tables of `StreamLexer.Proofs.Scan.Table` is shown in `StreamLexer.Proofs.Scan.SourceArms`
and `StreamLexer.Proofs.Scan.BodyArms`.
-/
namespace StreamLexer

variable {ρ : Type}

/-- The rows after a byte, still in order of precedence. -/
def rowsAfter (b : UInt8) (rows : List (ρ × Pattern)) : List (ρ × Pattern) :=
  rows.flatMap fun row => (row.2.after b).map (row.1, ·)

/-- The first rule whose pattern ends here. -/
def firstEnding? (rows : List (ρ × Pattern)) : Option ρ :=
  (rows.find? (·.2.acceptsEmpty)).map (·.1)

/-- No row can match another byte. -/
def exhausted (rows : List (ρ × Pattern)) : Bool :=
  rows.all (·.2.isEmpty)

theorem rowsAfter_of_exhausted {rows : List (ρ × Pattern)} (h : exhausted rows = true)
    (b : UInt8) : rowsAfter b rows = [] := by
  simp only [exhausted, List.all_eq_true, List.isEmpty_iff] at h
  simp only [rowsAfter, List.flatMap_eq_nil_iff]
  intro row hrow
  rw [h row hrow]
  rfl

/-- Goes on from `n` bytes read, with `best` the longest lexeme so far and `rows` what is left. -/
def munchFrom (closed : Bool) (best : ρ × Nat) (n : Nat) (rows : List (ρ × Pattern)) :
    List UInt8 → Verdict ρ
  | [] => if closed || exhausted rows then .found best.1 best.2 else .undecided
  | b :: bytes =>
    if exhausted rows then .found best.1 best.2
    else
      let rows := rowsAfter b rows
      let best := match firstEnding? rows with
        | some rule => (rule, n + 1)
        | none => best
      munchFrom closed best (n + 1) rows bytes

/-- The lexeme at the start of a lookahead. Where nothing matches, in particular at the end of the
input, it is the empty one of the rule `fallback`. -/
def munch (fallback : ρ) (rows : List (ρ × Pattern)) (view : Lookahead) : Verdict ρ :=
  munchFrom view.closed (fallback, 0) 0 rows view.bytes

theorem munchFrom_found {closed : Bool} {best : ρ × Nat} {n : Nat} {rows : List (ρ × Pattern)}
    {bytes : List UInt8} {rule : ρ} {length : Nat}
    (h : munchFrom closed best n rows bytes = .found rule length) :
    (rule, length) = best ∨ n < length ∧ length ≤ n + bytes.length := by
  induction bytes generalizing best n rows with
  | nil =>
    simp only [munchFrom] at h
    split at h
    · cases h
      exact .inl rfl
    · cases h
  | cons b bytes ih =>
    simp only [munchFrom] at h
    split at h
    · cases h
      exact .inl rfl
    · rcases ih h with hbest | ⟨hlt, hle⟩
      · split at hbest
        · cases hbest
          exact .inr (by simp only [List.length_cons]; omega)
        · exact .inl hbest
      · exact .inr (by simp only [List.length_cons]; omega)

theorem munchFrom_answers (best : ρ × Nat) (n : Nat) (rows : List (ρ × Pattern))
    (bytes : List UInt8) : munchFrom true best n rows bytes ≠ .undecided := by
  induction bytes generalizing best n rows with
  | nil => simp [munchFrom]
  | cons b bytes ih =>
    simp only [munchFrom]
    split
    · simp
    · exact ih _ _ _

/-- The scan answers where nothing more may come. A lexeme lies within the held bytes, and only that
of the rule `last` can be empty. -/
structure Bounded (scan : Lookahead → Verdict ρ) (last : ρ) : Prop where
  answers : ∀ view, view.closed = true → scan view ≠ .undecided
  found : ∀ view rule n, scan view = .found rule n →
    rule = last ∧ n = 0 ∨ 0 < n ∧ n ≤ view.bytes.length

theorem munch_bounded (fallback : ρ) (rows : List (ρ × Pattern)) :
    Bounded (munch fallback rows) fallback := by
  refine ⟨?_, ?_⟩
  · rintro ⟨bytes, closed⟩ rfl
    exact munchFrom_answers _ _ _ _
  · intro view rule n h
    rcases munchFrom_found h with hbest | hbounds
    · exact .inl (by simpa using hbest)
    · exact .inr (by omega)

end StreamLexer
