import StreamLexer.Proofs.Byte.Class
import StreamLexer.Proofs.Scan.Table

/-!
# Candidates of a table

What the rows of a table come to on given bytes, told by the derivative with respect to the first
byte: `longest?` is the longest candidate and `goesOn` says whether a longer one may come with more
bytes. A maximal munch is no more than these two (`munchFrom_eq`), and each of them splits along
`++` and does not look at the names of the rules, so that the rules can be tried one by one.
-/
namespace StreamLexer

variable {ρ σ α : Type} {n : Nat} {rows : List (ρ × Pattern)}

/-- The longest candidate of rows of which `n` bytes have been read; the first one of these. -/
def longest? (n : Nat) (rows : List (ρ × Pattern)) : List UInt8 → Option (ρ × Nat)
  | [] => (firstEnding? rows).map (·, n)
  | b :: bytes =>
    (longest? (n + 1) (rowsAfter b rows) bytes).or ((firstEnding? rows).map (·, n))

/-- Some row fits all of the bytes and can take more. -/
def goesOn : List (ρ × Pattern) → List UInt8 → Bool
  | rows, [] => !exhausted rows
  | rows, b :: bytes => goesOn (rowsAfter b rows) bytes

@[simp] theorem rowsAfter_nil (b : UInt8) : rowsAfter b ([] : List (ρ × Pattern)) = [] := rfl

theorem rowsAfter_cons (b : UInt8) (row : ρ × Pattern) (rows : List (ρ × Pattern)) :
    rowsAfter b (row :: rows) = (row.2.after b).map (row.1, ·) ++ rowsAfter b rows := rfl

@[simp] theorem longest?_no_rows (bytes : List UInt8) :
    longest? n ([] : List (ρ × Pattern)) bytes = none := by
  induction bytes generalizing n with
  | nil => rfl
  | cons b bytes ih => simp [longest?, ih, firstEnding?]

@[simp] theorem goesOn_no_rows (bytes : List UInt8) :
    goesOn ([] : List (ρ × Pattern)) bytes = false := by
  induction bytes with
  | nil => rfl
  | cons b bytes ih => exact ih

theorem goesOn_of_exhausted (h : exhausted rows = true) (bytes : List UInt8) :
    goesOn rows bytes = false := by
  cases bytes with
  | nil => simp [goesOn, h]
  | cons b bytes => rw [goesOn, rowsAfter_of_exhausted h, goesOn_no_rows]

theorem le_of_longest? {bytes : List UInt8} {found : ρ × Nat}
    (h : longest? n rows bytes = some found) : n ≤ found.2 := by
  induction bytes generalizing n rows with
  | nil =>
    obtain ⟨rule, -, rfl⟩ := Option.map_eq_some_iff.mp h
    exact Nat.le_refl n
  | cons b bytes ih =>
    rcases Option.or_eq_some_iff.mp h with hlater | ⟨-, hhere⟩
    · exact Nat.le_of_succ_le (ih hlater)
    · obtain ⟨rule, -, rfl⟩ := Option.map_eq_some_iff.mp hhere
      exact Nat.le_refl n

theorem lt_of_longest? {bytes : List UInt8} {found : ρ × Nat} (hend : firstEnding? rows = none)
    (h : longest? n rows bytes = some found) : n < found.2 := by
  cases bytes with
  | nil => simp [longest?, hend] at h
  | cons b bytes =>
    rw [longest?, hend, Option.map_none, Option.or_none] at h
    exact le_of_longest? h

/-- Rows of which one ends here have a candidate. -/
theorem longest?_isSome {rule : ρ} (h : firstEnding? rows = some rule) (bytes : List UInt8) :
    (longest? n rows bytes).isSome = true := by
  cases bytes <;> simp [longest?, h]

/-- What munch finds, given that `best` is what ends here, if something does. -/
theorem munchFrom_eq (closed : Bool) {best : ρ × Nat}
    (hbest : ∀ rule, firstEnding? rows = some rule → best = (rule, n)) (bytes : List UInt8) :
    munchFrom closed best n rows bytes =
      if !closed && goesOn rows bytes then .undecided
      else .found ((longest? n rows bytes).getD best).1 ((longest? n rows bytes).getD best).2 := by
  have hhere : ((firstEnding? rows).map (·, n)).getD best = best := by
    cases hend : firstEnding? rows with
    | none => rfl
    | some rule => exact (hbest rule hend).symm
  induction bytes generalizing best n rows with
  | nil =>
    cases closed <;> cases h : exhausted rows <;>
      simp [munchFrom, goesOn, longest?, h, hhere]
  | cons b bytes ih =>
    have hlater : (longest? n rows (b :: bytes)).getD best =
        (longest? (n + 1) (rowsAfter b rows) bytes).getD best := by
      rw [longest?]
      cases longest? (n + 1) (rowsAfter b rows) bytes <;> simp [hhere]
    by_cases hex : exhausted rows = true
    · simp [munchFrom, hex, hlater, goesOn_of_exhausted hex, rowsAfter_of_exhausted hex]
    · rw [hlater, goesOn]
      simp only [munchFrom, hex, Bool.false_eq_true, if_false]
      cases hend : firstEnding? (rowsAfter b rows) with
      | none => exact ih (by simp [hend]) (by simp [hend])
      | some rule =>
        -- a row ends with `b`, so there is a candidate, and it does not matter what `best` was
        obtain ⟨found, hfound⟩ :=
          Option.isSome_iff_exists.mp (longest?_isSome (n := n + 1) hend bytes)
        have h : munchFrom closed (rule, n + 1) (n + 1) (rowsAfter b rows) bytes = _ :=
          ih (by simp [hend]) (by simp [hend])
        simpa [hfound] using h

/-! ## Several tables, other names -/

@[simp] theorem rowsAfter_append (b : UInt8) (rows rows' : List (ρ × Pattern)) :
    rowsAfter b (rows ++ rows') = rowsAfter b rows ++ rowsAfter b rows' :=
  List.flatMap_append

theorem firstEnding?_append (rows rows' : List (ρ × Pattern)) :
    firstEnding? (rows ++ rows') = (firstEnding? rows).or (firstEnding? rows') := by
  simp only [firstEnding?, List.find?_append]
  cases rows.find? (·.2.acceptsEmpty) <;> rfl

/-- The longer one of two candidates, the first one if they are of the same length. -/
def longer? : Option (ρ × Nat) → Option (ρ × Nat) → Option (ρ × Nat)
  | some found, some found' => if found.2 < found'.2 then some found' else some found
  | some found, none => some found
  | none, found' => found'

/-- The candidates of two lists of rows, the first of which takes precedence. -/
theorem longest?_append (rows rows' : List (ρ × Pattern)) (bytes : List UInt8) :
    longest? n (rows ++ rows') bytes =
      longer? (longest? n rows bytes) (longest? n rows' bytes) := by
  induction bytes generalizing n rows rows' with
  | nil =>
    simp only [longest?, firstEnding?_append]
    cases firstEnding? rows <;> cases firstEnding? rows' <;> simp [longer?]
  | cons b bytes ih =>
    simp only [longest?, rowsAfter_append, ih, firstEnding?_append]
    -- what ends later is longer than what ends here
    cases hlater : longest? (n + 1) (rowsAfter b rows) bytes with
    | none =>
      cases hlater' : longest? (n + 1) (rowsAfter b rows') bytes with
      | none => cases firstEnding? rows <;> cases firstEnding? rows' <;> simp [longer?]
      | some found' =>
        have hlt : n < found'.2 := le_of_longest? hlater'
        cases firstEnding? rows <;> simp [longer?, hlt]
    | some found =>
      have hlt : n < found.2 := le_of_longest? hlater
      cases hlater' : longest? (n + 1) (rowsAfter b rows') bytes with
      | none => cases firstEnding? rows' <;> simp [longer?, Nat.not_lt_of_lt hlt]
      | some found' =>
        simp only [longer?, Option.some_or]
        split <;> rfl

theorem goesOn_append (rows rows' : List (ρ × Pattern)) (bytes : List UInt8) :
    goesOn (rows ++ rows') bytes = (goesOn rows bytes || goesOn rows' bytes) := by
  induction bytes generalizing rows rows' with
  | nil => simp [goesOn, exhausted, Bool.not_and]
  | cons b bytes ih => simp only [goesOn, rowsAfter_append, ih]

theorem rowsAfter_map (name : ρ → σ) (b : UInt8) (rows : List (ρ × Pattern)) :
    rowsAfter b (rows.map (Prod.map name id)) = (rowsAfter b rows).map (Prod.map name id) := by
  simp only [rowsAfter, List.flatMap_map, List.map_flatMap, List.map_map]
  rfl

theorem firstEnding?_map (name : ρ → σ) (rows : List (ρ × Pattern)) :
    firstEnding? (rows.map (Prod.map name id)) = (firstEnding? rows).map name := by
  simp only [firstEnding?, List.find?_map, Option.map_map]
  rfl

theorem longest?_map (name : ρ → σ) (rows : List (ρ × Pattern)) (bytes : List UInt8) :
    longest? n (rows.map (Prod.map name id)) bytes =
      (longest? n rows bytes).map (Prod.map name id) := by
  induction bytes generalizing n rows with
  | nil =>
    simp only [longest?, firstEnding?_map, Option.map_map]
    rfl
  | cons b bytes ih =>
    simp only [longest?, firstEnding?_map, rowsAfter_map, ih]
    cases longest? (n + 1) (rowsAfter b rows) bytes <;> cases firstEnding? rows <;> rfl

theorem goesOn_map (name : ρ → σ) (rows : List (ρ × Pattern)) (bytes : List UInt8) :
    goesOn (rows.map (Prod.map name id)) bytes = goesOn rows bytes := by
  induction bytes generalizing rows with
  | nil =>
    simp only [goesOn, exhausted, List.all_map]
    rfl
  | cons b bytes ih => simp only [goesOn, rowsAfter_map, ih]

/-- Rows that a byte excludes can be left out. -/
theorem rowsAfter_filter {b : UInt8} {rows : List (ρ × Pattern)} (keep : ρ × Pattern → Bool)
    (h : rowsAfter b (rows.filter fun row => !keep row) = []) :
    rowsAfter b rows = rowsAfter b (rows.filter keep) := by
  simp only [rowsAfter, List.flatMap_eq_nil_iff, List.mem_filter] at h
  induction rows with
  | nil => rfl
  | cons row rows ih =>
    have ih := ih fun row hrow => h row ⟨List.mem_cons_of_mem _ hrow.1, hrow.2⟩
    cases hkeep : keep row with
    | true => rw [List.filter_cons_of_pos hkeep, rowsAfter_cons, rowsAfter_cons, ih]
    | false =>
      have hnone := h row ⟨List.mem_cons_self, by rw [hkeep]; rfl⟩
      rw [List.filter_cons_of_neg (by simp [hkeep]), rowsAfter_cons, hnone, ih]
      rfl

/-! ## Rows that start alike -/

/-- The rows with a piece in front of each. -/
def led (piece : Piece) (tails : List (ρ × Pattern)) : List (ρ × Pattern) :=
  tails.map fun row => (row.1, piece :: row.2)

theorem rowsAfter_one (set : UInt8 → Bool) (b : UInt8) (tails : List (ρ × Pattern)) :
    rowsAfter b (led (.one set) tails) = if set b then tails else [] := by
  induction tails with
  | nil => simp [led]
  | cons row tails ih =>
    rw [led, List.map_cons, rowsAfter_cons, ← led, ih]
    by_cases hb : set b = true <;> simp [Pattern.after, hb]

theorem rowsAfter_many {set : UInt8 → Bool} {b : UInt8} {tails : List (ρ × Pattern)}
    (hdead : set b = true → rowsAfter b tails = []) :
    rowsAfter b (led (.many set) tails) =
      if set b then led (.many set) tails else rowsAfter b tails := by
  induction tails with
  | nil => simp [led]
  | cons row tails ih =>
    rw [rowsAfter_cons] at hdead
    rw [led, List.map_cons, rowsAfter_cons, ← led, rowsAfter_cons,
      ih fun hb => (List.append_eq_nil_iff.mp (hdead hb)).2]
    by_cases hb : set b = true
    · have hafter : row.2.after b = [] := by simpa using (List.append_eq_nil_iff.mp (hdead hb)).1
      simp [Pattern.after, hb, hafter]
    · simp [Pattern.after, hb]

theorem firstEnding?_one (set : UInt8 → Bool) (tails : List (ρ × Pattern)) :
    firstEnding? (led (.one set) tails) = none := by
  simp [led, firstEnding?, Pattern.acceptsEmpty, List.find?_eq_none]

theorem firstEnding?_many (set : UInt8 → Bool) (tails : List (ρ × Pattern)) :
    firstEnding? (led (.many set) tails) = firstEnding? tails := by
  simp only [led, firstEnding?, List.find?_map, Option.map_map]
  rfl

theorem exhausted_led (piece : Piece) {tails : List (ρ × Pattern)} (hne : tails ≠ []) :
    exhausted (led piece tails) = false := by
  obtain ⟨row, tails, rfl⟩ := List.exists_cons_of_ne_nil hne
  simp [led, exhausted]

section Run

variable {n : Nat} {set : UInt8 → Bool} {tails : List (ρ × Pattern)}
  (hdead : ∀ b, set b = true → rowsAfter b tails = [])

include hdead in
/-- Rows that start with a run go on behind it. -/
theorem longest?_run (bytes : List UInt8) :
    longest? n (led (.many set) tails) bytes =
      longest? (n + (bytes.takeWhile set).length) tails (bytes.dropWhile set) := by
  induction bytes generalizing n with
  | nil => simp [longest?, firstEnding?_many]
  | cons b bytes ih =>
    rw [longest?, rowsAfter_many (hdead b), firstEnding?_many]
    cases hb : set b with
    | true =>
      simp only [if_true, ih, List.takeWhile_cons, hb, List.dropWhile_cons, List.length_cons]
      have hlen :
          n + 1 + (bytes.takeWhile set).length = n + ((bytes.takeWhile set).length + 1) := by
        omega
      rw [hlen]
      -- what ends here ends behind the run too
      cases hend : firstEnding? tails with
      | none => simp
      | some rule =>
        obtain ⟨found, hfound⟩ := Option.isSome_iff_exists.mp
          (longest?_isSome (n := n + ((bytes.takeWhile set).length + 1)) hend (bytes.dropWhile set))
        simp [hfound]
    | false => simp [hb, longest?]

include hdead in
theorem goesOn_run (hne : tails ≠ []) (bytes : List UInt8) :
    goesOn (led (.many set) tails) bytes =
      ((bytes.dropWhile set).isEmpty || goesOn tails (bytes.dropWhile set)) := by
  induction bytes with
  | nil =>
    simp [goesOn, exhausted_led _ hne]
  | cons b bytes ih =>
    rw [goesOn, rowsAfter_many (hdead b)]
    cases hb : set b with
    | true => simp only [if_true, ih, List.dropWhile_cons, hb]
    | false => simp [hb, goesOn]

end Run

theorem longest?_ended (rule : ρ) (bytes : List UInt8) :
    longest? n [(rule, [])] bytes = some (rule, n) := by
  cases bytes <;> simp [longest?, rowsAfter, Pattern.after, firstEnding?, Pattern.acceptsEmpty]

theorem goesOn_ended (rule : ρ) (bytes : List UInt8) : goesOn [(rule, [])] bytes = false :=
  goesOn_of_exhausted rfl bytes

/-- A fixed spelling is found in its full length. -/
theorem longest?_literal {rule : ρ} {chars : List Char} {bytes : List UInt8}
    {found : ρ × Nat} (h : longest? n [(rule, Pattern.literal chars)] bytes = some found) :
    found = (rule, n + chars.length) := by
  induction chars generalizing n bytes with
  | nil =>
    cases bytes <;> simp_all [longest?, Pattern.literal, firstEnding?, Pattern.acceptsEmpty,
      rowsAfter, Pattern.after]
  | cons c chars ih =>
    cases bytes with
    | nil => simp [longest?, Pattern.literal, firstEnding?, Piece.char, Pattern.acceptsEmpty] at h
    | cons b bytes =>
      have hend : firstEnding? [(rule, Pattern.literal (c :: chars))] = none := rfl
      have hafter : rowsAfter b [(rule, Pattern.literal (c :: chars))] =
          if b == c.toUInt8 then [(rule, Pattern.literal chars)] else [] :=
        rowsAfter_one (· == c.toUInt8) b [(rule, Pattern.literal chars)]
      rw [longest?, hend, hafter] at h
      by_cases hb : (b == c.toUInt8) = true
      · simp only [hb, if_true, Option.map_none, Option.or_none] at h
        rw [ih h, List.length_cons, Nat.add_assoc, Nat.add_comm 1]
      · simp [hb] at h

/-- No row can start with a byte of the set. -/
def deadOn (set : UInt8 → Bool) (rows : List (ρ × Pattern)) : Bool :=
  (List.range 256).all fun n => !set (UInt8.ofNat n) || (rowsAfter (UInt8.ofNat n) rows).isEmpty

theorem rowsAfter_of_deadOn {set : UInt8 → Bool} {rows : List (ρ × Pattern)}
    (h : deadOn set rows = true) (b : UInt8) (hb : set b = true) : rowsAfter b rows = [] := by
  have hdead := Byte.forall_of_range (p := fun b => !set b || (rowsAfter b rows).isEmpty) h b
  simpa [hb] using hdead

end StreamLexer
