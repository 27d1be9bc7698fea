import StreamLexer.Proofs.Scan.Starvation

/-!
# The row behind a lexeme

A lexeme that a scan finds in a complete source is a word of some row, and its rule is that of the
first such row: `munch_first`, `first_cases_of_body`. What is to be known of the lexemes of a rule
is read off its patterns, `patternsOf`.
-/
namespace StreamLexer

variable {ρ : Type}

/-- The first row that accepts a word is one of the rows. -/
theorem exists_of_firstAccepting? {rows : List (ρ × Pattern)} {w : List UInt8} {rule : ρ}
    (h : firstAccepting? rows w = some rule) : ∃ p, (rule, p) ∈ rows ∧ p.Accepts w := by
  obtain ⟨row, hrow, rfl⟩ := Option.map_eq_some_iff.mp h
  refine ⟨row.2, List.mem_of_find?_eq_some hrow, ?_⟩
  exact (Pattern.accepts_iff _ _).mp (by simpa using List.find?_some hrow)

/-! ## Munch -/

/-- Only the fallback rule has an empty lexeme; another one is that of the first row that accepts
it. -/
theorem munch_first {fallback rule : ρ} {rows : List (ρ × Pattern)} {lexeme later : List UInt8}
    (h : munch fallback rows ⟨lexeme ++ later, true⟩ = .found rule lexeme.length) :
    rule = fallback ∧ lexeme = [] ∨
      lexeme ≠ [] ∧ firstAccepting? rows lexeme = some rule := by
  obtain ⟨rule', n, hfound, hcases⟩ := munch_closed fallback rows (lexeme ++ later)
  rw [h] at hfound
  cases hfound
  rcases hcases with ⟨hpos, -, hfirst, -⟩ | ⟨hrule, hlength, -⟩
  · rw [List.take_left] at hfirst
    exact .inr ⟨List.ne_nil_of_length_pos hpos, hfirst⟩
  · exact .inl ⟨hrule, List.length_eq_zero_iff.mp hlength⟩

/-- No row accepts a longer prefix than the lexeme. -/
theorem munch_longest {fallback rule : ρ} {rows : List (ρ × Pattern)} {source : List UInt8}
    {n m : Nat} (h : munch fallback rows ⟨source, true⟩ = .found rule n) (hlt : n < m)
    (hle : m ≤ source.length) : firstAccepting? rows (source.take m) = none := by
  obtain ⟨rule', k, hfound, ⟨-, -, -, hlongest⟩ | ⟨-, -, hnone⟩⟩ :=
    munch_closed fallback rows source
  · rw [h] at hfound
    cases hfound
    exact hlongest m hlt hle
  · exact hnone m (by omega) hle

/-- On open input too the lexeme of another rule than the fallback is that of the first row that
accepts it. -/
theorem munch_row {fallback rule : ρ} {rows : List (ρ × Pattern)} {view : Lookahead} {n : Nat}
    (h : munch fallback rows view = .found rule n) (hrule : rule ≠ fallback) :
    firstAccepting? rows (view.bytes.take n) = some rule := by
  obtain ⟨bytes, closed⟩ := view
  have hclosed : munch fallback rows ⟨bytes, true⟩ = .found rule n := by
    cases closed with
    | true => exact h
    | false =>
      have hgrown := munch_append h [] true
      rwa [List.append_nil] at hgrown
  obtain ⟨rule', k, hfound, ⟨-, -, hfirst, -⟩ | ⟨hfallback, -⟩⟩ := munch_closed fallback rows bytes
  · rw [hclosed] at hfound
    cases hfound
    exact hfirst
  · rw [hclosed] at hfound
    cases hfound
    exact absurd hfallback hrule

/-- In source code only the end of input has an empty lexeme. -/
theorem TokenRule.scan_first {rule : TokenRule} {lexeme later : List UInt8}
    (h : TokenRule.scan ⟨lexeme ++ later, true⟩ = .found rule lexeme.length) :
    rule = .endOfInput ∧ lexeme = [] ∨
      lexeme ≠ [] ∧ firstAccepting? TokenRule.rows lexeme = some rule := by
  rw [scan_eq_munch] at h
  exact munch_first h

/-- On open input too every other rule has the lexeme of the first row that accepts it. -/
theorem TokenRule.scan_row {rule : TokenRule} {view : Lookahead} {n : Nat}
    (h : TokenRule.scan view = .found rule n) (hrule : rule ≠ .endOfInput) :
    firstAccepting? TokenRule.rows (view.bytes.take n) = some rule := by
  rw [scan_eq_munch] at h
  exact munch_row h hrule

/-! ## Bodies -/

section Bodies

variable {scan : Lookahead → Verdict ρ} {isStop : UInt8 → Bool} {skip : Cursor → Nat × Cursor}
  {endOfInput plain rule : ρ} {rows : List (ρ × Pattern)}
  (hbody : scan = bodyScan isStop skip endOfInput plain rows)
include hbody

/-- The three sorts of lexemes of a body: a run of bytes that start no rule, a single byte that
starts a rule which does not fit, and the lexeme of a rule. -/
theorem first_cases_of_body (htable : BodyTable isStop skip rows) {lexeme later : List UInt8}
    (h : scan ⟨lexeme ++ later, true⟩ = .found rule lexeme.length) :
    rule = endOfInput ∧ lexeme = [] ∨
      rule = plain ∧ (∀ b ∈ lexeme, isStop b = false) ∨
      rule = plain ∧ (∃ b, lexeme = [b]) ∧ firstAccepting? rows lexeme = none ∨
      firstAccepting? rows lexeme = some rule := by
  subst hbody
  by_cases hhead : ∀ b ∈ (lexeme ++ later).head?, isStop b = true
  · -- the scan is that of munch, with the row of any one byte behind the others
    rw [bodyScan_eq_munch (by simpa using hhead)] at h
    rcases munch_first h with hend | ⟨-, hfirst⟩
    · exact .inl hend
    rw [firstAccepting?_append] at hfirst
    cases hrows : firstAccepting? rows lexeme with
    | some rule' =>
      rw [hrows, Option.some_or] at hfirst
      exact .inr (.inr (.inr hfirst))
    | none =>
      rw [hrows, Option.none_or] at hfirst
      rw [firstAccepting?_cons, firstAccepting?_nil] at hfirst
      split at hfirst
      · rename_i haccepts
        obtain ⟨b, v, hlexeme, -, rfl⟩ := (Pattern.accepts_iff _ _).mp haccepts
        cases hfirst
        exact .inr (.inr (.inl ⟨rfl, ⟨b, hlexeme⟩, rfl⟩))
      · cases hfirst
  · push Not at hhead
    obtain ⟨b, hb, hstop⟩ := hhead
    obtain ⟨rest, hbytes⟩ := List.head?_eq_some_iff.mp hb
    rw [hbytes, htable.scan_plain (by simpa using hstop)] at h
    injection h with hrule hlength
    refine .inr (.inl ⟨hrule.symm, ?_⟩)
    intro c hc
    have hplain := (htable.plainRun (b :: rest)).plain c
    rw [hlength, ← hbytes, List.take_left, ← htable.stop_iff] at hplain
    simpa using hplain hc

/-- On open input too the lexeme of a rule other than plain content is that of a row. -/
theorem row_of_body {view : Lookahead} {n : Nat} (h : scan view = .found rule n)
    (hend : rule ≠ endOfInput) (hplain : rule ≠ plain) :
    firstAccepting? rows (view.bytes.take n) = some rule := by
  subst hbody
  by_cases hhead : ∀ b ∈ view.bytes.head?, isStop b = true
  · rw [bodyScan_eq_munch hhead] at h
    have hfirst := munch_row h hend
    rw [firstAccepting?_append] at hfirst
    cases hrows : firstAccepting? rows (view.bytes.take n) with
    | some rule' =>
      rw [hrows, Option.some_or] at hfirst
      exact hfirst
    | none =>
      rw [hrows, Option.none_or, firstAccepting?_cons, firstAccepting?_nil] at hfirst
      split at hfirst
      · cases hfirst
        exact absurd rfl hplain
      · cases hfirst
  · push Not at hhead
    obtain ⟨b, hb, hstop⟩ := hhead
    obtain ⟨rest, hbytes⟩ := List.head?_eq_some_iff.mp hb
    simp only [bodyScan, hbytes, hstop, Bool.false_eq_true, if_false] at h
    cases h
    exact absurd rfl hplain

/-- A rule of a body other than plain content has its lexeme by a row. -/
theorem first_of_body {lexeme later : List UInt8}
    (h : scan ⟨lexeme ++ later, true⟩ = .found rule lexeme.length) (hend : rule ≠ endOfInput)
    (hplain : rule ≠ plain) : firstAccepting? rows lexeme = some rule := by
  have hfirst := row_of_body hbody h hend hplain
  rwa [List.take_left] at hfirst

end Bodies

/-! ## Patterns of a rule -/

section Patterns

variable [DecidableEq ρ]

/-- The patterns of a rule. -/
def patternsOf (rows : List (ρ × Pattern)) (rule : ρ) : List Pattern :=
  (rows.filter fun row => row.1 = rule).map (·.2)

/-- The lexeme of a rule is a word of one of its patterns. -/
theorem exists_patternsOf {rows : List (ρ × Pattern)} {rule : ρ} {w : List UInt8}
    (h : firstAccepting? rows w = some rule) : ∃ p ∈ patternsOf rows rule, p.Accepts w := by
  obtain ⟨p, hp, hw⟩ := exists_of_firstAccepting? h
  refine ⟨p, List.mem_map.mpr ⟨(rule, p), List.mem_filter.mpr ⟨hp, ?_⟩, rfl⟩, hw⟩
  simp

end Patterns

/-! ## The header -/

/-- Without a `#` at the start there is no header. -/
theorem HeaderRule.scan_absent_of_ne {b : UInt8} (hb : b ≠ '#'.toUInt8) (rest : List UInt8) :
    HeaderRule.scan ⟨b :: rest, true⟩ = .found .absent 0 := by
  have hrows : rowsAfter b HeaderRule.rows = [] := by
    simp [rowsAfter, HeaderRule.rows, Pattern.literal, Pattern.after, Piece.char, hb]
  have hlive : exhausted HeaderRule.rows = false := rfl
  rw [scan_eq_munch]
  simp only [munch, munchFrom, hrows, hlive, Bool.false_eq_true, if_false]
  cases rest <;> rfl

end StreamLexer
