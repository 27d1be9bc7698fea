import StreamLexer.Proofs.Scan.Candidates

/-!
# What a matcher finds

A matcher looks for the words of some patterns; `Finds` says that it does so rightly. On given
lookaheads it answers by the longest candidate of rows that stand some bytes ahead, and it starves
exactly if these rows can take more than the held bytes. So no look is wasted: each is one that the
rows ask for.

There is a rule for each operation of a matcher, in the form of a bind: what follows the operation
is to find the rows that are left. `Finds.offer` is the one for candidates that are looked for one
after the other.
-/
namespace StreamLexer

variable {ρ σ α β : Type}

/-- Whether the byte `n` ahead is in a set. -/
def Lookahead.has (view : Lookahead) (n : Nat) (set : UInt8 → Bool) : Bool :=
  (view.bytes.drop n).head?.any set

theorem Lookahead.has_iff {view : Lookahead} {n : Nat} {set : UInt8 → Bool} :
    view.has n set = true ↔ ∃ b, (view.bytes.drop n).head? = some b ∧ set b = true :=
  Option.any_eq_true _ _

/-- The lookaheads that start with a byte. -/
def StartsWith (b : UInt8) (view : Lookahead) : Prop :=
  (view.bytes.drop 0).head? = some b

/-- What a matcher gives that has looked at the bytes from `n` ahead on only for their longest
candidate. -/
def found (answer : Option (ρ × Nat) → α × Nat) (n : Nat) (rows : List (ρ × Pattern))
    (bytes : List UInt8) (view : Lookahead) (starved : Bool) : α × Cursor :=
  ((answer (longest? n rows bytes)).1,
    ⟨view, (answer (longest? n rows bytes)).2, starved || (!view.closed && goesOn rows bytes)⟩)

/-- On these lookaheads, what the matcher gives and how far it moves is told by the longest
candidate of rows that stand `n` ahead, and the matcher starves exactly if the rows go on. -/
def Finds (on : Lookahead → Prop) (m : Matcher α) (n : Nat) (rows : List (ρ × Pattern))
    (answer : Option (ρ × Nat) → α × Nat) : Prop :=
  ∀ view, on view → ∀ starved,
    m ⟨view, 0, starved⟩ = found answer n rows (view.bytes.drop n) view starved

/-- The answer of a probe, which does not move: the length of the candidate. -/
def asLength (candidate : Option (Unit × Nat)) : Option Nat × Nat :=
  (candidate.map (·.2), 0)

/-- The answer of a matcher that moves over the longest candidate, `best` included. -/
def Longest.answer (best : Longest ρ) (candidate : Option (ρ × Nat)) : ρ × Nat :=
  ((best.orLonger candidate).rule, (best.orLonger candidate).length)

/-! ## Looks at a cursor -/

namespace Matcher

theorem bind_apply (m : Matcher α) (k : α → Matcher β) (c : Cursor) :
    (m >>= k) c = k (m c).1 (m c).2 := rfl

theorem pure_apply (a : α) (c : Cursor) : (pure a : Matcher α) c = (a, c) := rfl

theorem take_apply (rule : ρ) (length : Nat) (view : Lookahead) (starved : Bool) :
    take rule length ⟨view, 0, starved⟩ = (rule, ⟨view, length, starved⟩) := by
  simp [take, bind_apply, advance, Cursor.advance, pure_apply]

theorem accept_apply (best : Longest ρ) (view : Lookahead) (starved : Bool) :
    accept best ⟨view, 0, starved⟩ =
      ((best.answer none).1, ⟨view, (best.answer none).2, starved⟩) :=
  take_apply _ _ _ _

/-- The cursor after a look at what comes first behind `n` bytes. -/
theorem looked_eq (view : Lookahead) (starved : Bool) (n : Nat) :
    Cursor.looked ⟨view, 0, starved⟩ n =
      ⟨view, 0, starved || (!view.closed && (view.bytes.drop n).isEmpty)⟩ := by
  rw [Cursor.looked, Cursor.rest, Nat.zero_add]
  cases view.closed <;> cases (view.bytes.drop n).isEmpty <;> simp

theorem peekAt_apply (view : Lookahead) (starved : Bool) (n : Nat) :
    peekAt n ⟨view, 0, starved⟩ = ((view.bytes.drop n).head?,
      ⟨view, 0, starved || (!view.closed && (view.bytes.drop n).isEmpty)⟩) := by
  simp [peekAt, Cursor.peekAt, Cursor.rest, looked_eq]

theorem isAtIn_apply (view : Lookahead) (starved : Bool) (n : Nat) (set : UInt8 → Bool) :
    isAtIn n set ⟨view, 0, starved⟩ = (view.has n set,
      ⟨view, 0, starved || (!view.closed && (view.bytes.drop n).isEmpty)⟩) := by
  simp [isAtIn, Cursor.isAtIn, Cursor.rest, looked_eq, Lookahead.has]

theorem drop_succ {bytes rest : List UInt8} {n : Nat} {b : UInt8} (h : bytes.drop n = b :: rest) :
    bytes.drop (n + 1) = rest := by
  rw [← List.drop_drop, h]
  rfl

theorem drop_run (bytes : List UInt8) (n : Nat) (set : UInt8 → Bool) :
    bytes.drop (n + ((bytes.drop n).takeWhile set).length) = (bytes.drop n).dropWhile set := by
  rw [← List.drop_drop]
  conv => lhs; arg 2; rw [← List.takeWhile_append_dropWhile (p := set) (l := bytes.drop n)]
  exact List.drop_left

theorem runLength_apply (view : Lookahead) (starved : Bool) (n : Nat) (set : UInt8 → Bool) :
    runLength n set ⟨view, 0, starved⟩ = (((view.bytes.drop n).takeWhile set).length,
      ⟨view, 0, starved || (!view.closed && ((view.bytes.drop n).dropWhile set).isEmpty)⟩) := by
  simp [runLength, Cursor.runLength, Cursor.rest, looked_eq, drop_run]

/-- A look for a line end is one for a run of carriage returns, then one for a newline. -/
theorem bind_lineEndLength (n : Nat) (k : Option Nat → Matcher α) :
    lineEndLength n >>= k = (do
      let returns ← runLength n (· == '\r'.toUInt8)
      if ← isAtIn (n + returns) (· == '\n'.toUInt8) then k (some (returns + 1)) else k none) := by
  have hlength : ∀ c, Cursor.newlineLength c n = (do
      let returns ← runLength n (· == '\r'.toUInt8)
      if ← isAtIn (n + returns) (· == '\n'.toUInt8) then pure (some (returns + 1)) else pure none :
        Matcher (Option Nat)) c := by
    intro c
    rw [bind_apply, bind_apply]
    change (match isAtIn (n + (runLength n (· == '\r'.toUInt8) c).1) (· == '\n'.toUInt8)
        (runLength n (· == '\r'.toUInt8) c).2 with
      | (true, c') => (some ((runLength n (· == '\r'.toUInt8) c).1 + 1), c')
      | (false, c') => (none, c')) = _
    rcases isAtIn (n + (runLength n (· == '\r'.toUInt8) c).1) (· == '\n'.toUInt8)
      (runLength n (· == '\r'.toUInt8) c).2 with ⟨isNewline, c'⟩
    cases isNewline <;> rfl
  rw [show lineEndLength n = _ from funext hlength, bind_assoc]
  congr 1
  funext returns
  rw [bind_assoc]
  congr 1
  funext isNewline
  cases isNewline <;> rfl

/-- A look for some bytes in a row is one for the first of them, then one for the others. -/
theorem bind_areAtIn_cons (n : Nat) (set : UInt8 → Bool) (sets : List (UInt8 → Bool))
    (m₁ m₂ : Matcher α) :
    (do if ← areAtIn n (set :: sets) then m₁ else m₂) = (do
      if ← isAtIn n set then if ← areAtIn (n + 1) sets then m₁ else m₂ else m₂) := by
  rw [areAtIn, bind_assoc]
  congr 1
  funext there
  cases there <;> rfl

end Matcher

/-- A run ends in front of a byte that is not in its set. -/
theorem Lookahead.has_run (view : Lookahead) (n : Nat) (set : UInt8 → Bool) :
    view.has (n + ((view.bytes.drop n).takeWhile set).length) set = false := by
  rw [Lookahead.has, Matcher.drop_run]
  have hnot := List.head?_dropWhile_not set (view.bytes.drop n)
  cases h : (view.bytes.drop n).dropWhile set with
  | nil => rfl
  | cons b bytes => simpa [h] using hnot

/-! ## What is found -/

section

variable {n : Nat} {rows : List (ρ × Pattern)} {answer : Option (ρ × Nat) → α × Nat}
  {view : Lookahead} {starved : Bool}

theorem found_no_rows (bytes : List UInt8) :
    found answer n [] bytes view starved = ((answer none).1, ⟨view, (answer none).2, starved⟩) := by
  simp [found]

theorem found_at_end (hend : firstEnding? rows = none) (hrows : exhausted rows = false) :
    found answer n rows [] view starved =
      ((answer none).1, ⟨view, (answer none).2, starved || !view.closed⟩) := by
  simp [found, longest?, hend, goesOn, hrows]

theorem found_cons (hend : firstEnding? rows = none) (b : UInt8) (bytes : List UInt8) :
    found answer n rows (b :: bytes) view starved =
      found answer (n + 1) (rowsAfter b rows) bytes view starved := by
  simp [found, longest?, hend, goesOn]

/-- What ends here is no longer than the best candidate so far. -/
theorem found_cons_best {best : Longest ρ} (hlength : best.length = n) (b : UInt8)
    (bytes : List UInt8) :
    found best.answer n rows (b :: bytes) view starved =
      found best.answer (n + 1) (rowsAfter b rows) bytes view starved := by
  have hbest : best.orLonger (longest? n rows (b :: bytes)) =
      best.orLonger (longest? (n + 1) (rowsAfter b rows) bytes) := by
    rw [longest?]
    cases longest? (n + 1) (rowsAfter b rows) bytes with
    | none => cases firstEnding? rows <;> simp [Longest.orLonger, hlength]
    | some candidate => rfl
  simp only [found, Longest.answer, hbest, goesOn]

theorem found_starved (bytes : List UInt8) :
    found answer n rows bytes view (starved || !view.closed) =
      ((answer (longest? n rows bytes)).1,
        ⟨view, (answer (longest? n rows bytes)).2, starved || !view.closed⟩) := by
  cases starved <;> cases hc : view.closed <;> simp [found, hc]

theorem found_run {set : UInt8 → Bool} (hdead : ∀ b, set b = true → rowsAfter b rows = [])
    (hne : rows ≠ []) (bytes : List UInt8) :
    found answer n (led (.many set) rows) bytes view starved =
      found answer (n + (bytes.takeWhile set).length) rows (bytes.dropWhile set) view
        (starved || (!view.closed && (bytes.dropWhile set).isEmpty)) := by
  simp only [found, longest?_run hdead, goesOn_run hdead hne, Bool.and_or_distrib_left,
    Bool.or_assoc]

end

/-! ## Rules -/

namespace Finds

variable {on on' : Lookahead → Prop} {m m₁ m₂ : Matcher α} {n : Nat} {rows : List (ρ × Pattern)}
  {answer : Option (ρ × Nat) → α × Nat} {set : UInt8 → Bool}

theorem weaken (h : Finds on m n rows answer) (hon : ∀ view, on' view → on view) :
    Finds on' m n rows answer :=
  fun view hview => h view (hon view hview)

/-- On these lookaheads the matcher is as good as another one. -/
theorem congr {m' : Matcher α} (h : Finds on m' n rows answer)
    (hsame : ∀ view, on view → ∀ starved, m ⟨view, 0, starved⟩ = m' ⟨view, 0, starved⟩) :
    Finds on m n rows answer := by
  intro view hview starved
  rw [hsame view hview, h view hview]

/-- Nothing is left to find. -/
theorem missed (h : ∀ view starved,
    m ⟨view, 0, starved⟩ = ((answer none).1, ⟨view, (answer none).2, starved⟩)) :
    Finds on m n [] answer := by
  intro view _ starved
  rw [h, found_no_rows]

/-- A rule has been found, and nothing longer is looked for. -/
theorem done (rule : ρ) (h : ∀ view starved, m ⟨view, 0, starved⟩ =
    ((answer (some (rule, n))).1, ⟨view, (answer (some (rule, n))).2, starved⟩)) :
    Finds on m n [(rule, [])] answer := by
  intro view _ starved
  simp [h, found, longest?_ended, goesOn_ended]

/-- What has been found leads to a move. -/
theorem bind {probe : Matcher β} {k : β → Matcher α} {f : Option (ρ × Nat) → β}
    (hprobe : Finds on probe n rows fun candidate => (f candidate, 0))
    (hk : ∀ candidate view starved, k (f candidate) ⟨view, 0, starved⟩ =
      ((answer candidate).1, ⟨view, (answer candidate).2, starved⟩)) :
    Finds on (probe >>= k) n rows answer := by
  intro view hview starved
  rw [Matcher.bind_apply, hprobe view hview starved]
  exact hk _ _ _

/-- Where the next byte makes no difference to other rows, these can be looked for instead. -/
theorem byHead {rows' : List (ρ × Pattern)} (h : Finds on m n rows answer)
    (hend : firstEnding? rows' = firstEnding? rows) (hrows : exhausted rows' = exhausted rows)
    (hafter : ∀ view b, on view → (view.bytes.drop n).head? = some b →
      rowsAfter b rows' = rowsAfter b rows) : Finds on m n rows' answer := by
  intro view hview starved
  rw [h view hview starved]
  cases hbytes : view.bytes.drop n with
  | nil => simp [found, longest?, goesOn, hend, hrows]
  | cons b bytes => simp [found, longest?, goesOn, hend, hafter view b hview (by simp [hbytes])]

/-- Where the next byte excludes all rows, nothing is found, however far ahead. -/
theorem dead {n' : Nat} (h : Finds on m n rows answer) (hend : firstEnding? rows = none)
    (hdead : ∀ view, on view → ∃ b, (view.bytes.drop n).head? = some b ∧ rowsAfter b rows = []) :
    Finds on m n' ([] : List (ρ × Pattern)) answer := by
  intro view hview starved
  obtain ⟨b, hb, hafter⟩ := hdead view hview
  obtain ⟨bytes, hbytes⟩ := List.head?_eq_some_iff.mp hb
  rw [h view hview starved, hbytes, found_cons hend, hafter, found_no_rows, found_no_rows]

/-- A look at the next byte, whatever it is. -/
theorem peek {k : Option UInt8 → Matcher α}
    (hsome : ∀ b, Finds (fun view => on view ∧ (view.bytes.drop n).head? = some b) (k (some b))
      (n + 1) (rowsAfter b rows) answer)
    (hnone : ∀ view starved, k none ⟨view, 0, starved⟩ =
      ((answer none).1, ⟨view, (answer none).2, starved⟩))
    (hend : firstEnding? rows = none) (hrows : exhausted rows = false) :
    Finds on (Matcher.peekAt n >>= k) n rows answer := by
  intro view hview starved
  rw [Matcher.bind_apply, Matcher.peekAt_apply]
  cases hbytes : view.bytes.drop n with
  | nil =>
    rw [found_at_end hend hrows]
    simpa using hnone view (starved || !view.closed)
  | cons b bytes =>
    rw [found_cons hend, ← Matcher.drop_succ hbytes]
    simpa using hsome b view ⟨hview, by simp [hbytes]⟩ starved

/-- A look whether the next byte is in a set. The rows that start with a byte of the set are
followed up, the others are left to the other case. -/
theorem ite (yes no : List (ρ × Pattern))
    (hyes : Finds (fun view => on view ∧ view.has n set = true) m₁ (n + 1) yes answer)
    (hno : Finds (fun view => on view ∧ view.has n set = false) m₂ n no answer)
    (hne : yes ≠ []) (hend : firstEnding? no = none)
    (hdead : ∀ b, set b = true → rowsAfter b no = []) :
    Finds on (do if ← Matcher.isAtIn n set then m₁ else m₂) n (led (.one set) yes ++ no)
      answer := by
  have hends : firstEnding? (led (.one set) yes ++ no) = none := by
    rw [firstEnding?_append, firstEnding?_one, hend]
    rfl
  have hrows : exhausted (led (.one set) yes ++ no) = false := by
    rw [exhausted, List.all_append, ← exhausted, exhausted_led _ hne, Bool.false_and]
  intro view hview starved
  rw [Matcher.bind_apply, Matcher.isAtIn_apply]
  cases hbytes : view.bytes.drop n with
  | nil =>
    have hhas : view.has n set = false := by simp [Lookahead.has, hbytes]
    have hlongest : longest? n no [] = none := by simp [longest?, hend]
    rw [found_at_end hends hrows, hhas]
    simpa [hbytes, found_starved, hlongest] using hno view ⟨hview, hhas⟩ (starved || !view.closed)
  | cons b bytes =>
    have hhas : view.has n set = set b := by simp [Lookahead.has, hbytes]
    have htail := Matcher.drop_succ hbytes
    rw [found_cons hends, rowsAfter_append, rowsAfter_one]
    cases hb : set b with
    | true => simpa [hhas, hb, hdead b hb, htail] using hyes view ⟨hview, hhas.trans hb⟩ starved
    | false =>
      simpa [hhas, hb, hbytes, found_cons hend] using hno view ⟨hview, hhas.trans hb⟩ starved

/-- A look that the rest depends on: all rows start with a byte of the set. -/
theorem need (yes : List (ρ × Pattern))
    (hyes : Finds (fun view => on view ∧ view.has n set = true) m₁ (n + 1) yes answer)
    (hmissed : ∀ view starved,
      m₂ ⟨view, 0, starved⟩ = ((answer none).1, ⟨view, (answer none).2, starved⟩))
    (hne : yes ≠ []) :
    Finds on (do if ← Matcher.isAtIn n set then m₁ else m₂) n (led (.one set) yes) answer := by
  have h := ite yes [] hyes (missed hmissed) hne rfl fun _ _ => rfl
  rwa [List.append_nil] at h

/-- A look at a byte that is known to be in the set. -/
theorem known {n' : Nat} (hon : ∀ view, on view → view.has n set = true)
    (h : Finds on m₁ n' rows answer) :
    Finds on (do if ← Matcher.isAtIn n set then m₁ else m₂) n' rows answer := by
  intro view hview starved
  obtain ⟨b, hb, hset⟩ := Lookahead.has_iff.mp (hon view hview)
  obtain ⟨bytes, hbytes⟩ := List.head?_eq_some_iff.mp hb
  rw [Matcher.bind_apply, Matcher.isAtIn_apply]
  simpa [Lookahead.has, hbytes, hset] using h view hview starved

/-- Looks for some bytes in a row. -/
theorem all (rule : ρ) (sets : List (UInt8 → Bool))
    (h₁ : ∀ view starved, m₁ ⟨view, 0, starved⟩ = ((answer (some (rule, n + sets.length))).1,
      ⟨view, (answer (some (rule, n + sets.length))).2, starved⟩))
    (h₂ : ∀ view starved,
      m₂ ⟨view, 0, starved⟩ = ((answer none).1, ⟨view, (answer none).2, starved⟩)) :
    Finds on (do if ← Matcher.areAtIn n sets then m₁ else m₂) n [(rule, sets.map Piece.one)]
      answer := by
  induction sets generalizing n on with
  | nil => exact done rule h₁
  | cons set sets ih =>
    rw [Matcher.bind_areAtIn_cons]
    refine need [(rule, sets.map Piece.one)] (ih ?_) h₂ (List.cons_ne_nil _ _)
    intro view starved
    rw [h₁, List.length_cons, Nat.add_assoc, Nat.add_comm 1]

theorem areAtIn (sets : List (UInt8 → Bool)) :
    Finds on (Matcher.areAtIn n sets) n [((), sets.map Piece.one)]
      fun candidate => (candidate.isSome, 0) := by
  have h : Finds on (do if ← Matcher.areAtIn n sets then pure true else pure false) n
      [((), sets.map Piece.one)] fun candidate => (candidate.isSome, 0) :=
    all () sets (fun _ _ => rfl) fun _ _ => rfl
  have hsame : (do if ← Matcher.areAtIn n sets then pure true else pure false) =
      Matcher.areAtIn n sets := by
    conv => rhs; rw [← bind_pure (Matcher.areAtIn n sets)]
    congr 1
    funext there
    cases there <;> rfl
  rwa [hsame] at h

/-- The length of a run. Other rows than those that start with the run are left to the case that it
is empty. -/
theorem run (yes no : List (ρ × Pattern)) {k : Nat → Matcher α}
    (hzero : Finds (fun view => on view ∧ view.has n set = false) (k 0) n (yes ++ no) answer)
    (hpos : ∀ len, Finds (fun view => on view ∧ view.has n set = true ∧
      view.has (n + (len + 1)) set = false) (k (len + 1)) (n + (len + 1)) yes answer)
    (hne : yes ≠ []) (hend : firstEnding? no = none)
    (hdead : ∀ b, set b = true → rowsAfter b (yes ++ no) = []) :
    Finds on (Matcher.runLength n set >>= k) n (led (.many set) yes ++ no) answer := by
  have hyes : ∀ b, set b = true → rowsAfter b yes = [] := fun b hb =>
    (List.append_eq_nil_iff.mp (rowsAfter_append b yes no ▸ hdead b hb)).1
  have hno : ∀ b, set b = true → rowsAfter b no = [] := fun b hb =>
    (List.append_eq_nil_iff.mp (rowsAfter_append b yes no ▸ hdead b hb)).2
  intro view hview starved
  rw [Matcher.bind_apply, Matcher.runLength_apply]
  have hbehind := Lookahead.has_run view n set
  cases hbytes : view.bytes.drop n with
  | nil =>
    have hhas : view.has n set = false := by simp [Lookahead.has, hbytes]
    have hlongest : longest? n (led (.many set) yes ++ no) [] = longest? n (yes ++ no) [] := by
      simp only [longest?, firstEnding?_append, firstEnding?_many]
    have hgoes : goesOn (led (.many set) yes ++ no) [] = true := by
      rw [goesOn_append, goesOn, exhausted_led _ hne]
      rfl
    have h := hzero view ⟨hview, hhas⟩ (starved || !view.closed)
    rw [hbytes, found_starved] at h
    simpa [found, hlongest, hgoes] using h
  | cons b bytes =>
    have hhas : view.has n set = set b := by simp [Lookahead.has, hbytes]
    cases hb : set b with
    | true =>
      have hrun : found answer n (led (.many set) yes ++ no) (b :: bytes) view starved =
          found answer n (led (.many set) yes) (b :: bytes) view starved := by
        simp only [found, longest?, goesOn, firstEnding?_append, hend, Option.or_none,
          rowsAfter_append, hno b hb, List.append_nil]
      have hlen : ((b :: bytes).takeWhile set).length = (bytes.takeWhile set).length + 1 := by
        simp [hb]
      rw [hbytes, hlen] at hbehind
      have h := hpos (bytes.takeWhile set).length view ⟨hview, hhas.trans hb, hbehind⟩
        (starved || (!view.closed && ((b :: bytes).dropWhile set).isEmpty))
      rw [← hlen, ← hbytes, Matcher.drop_run, hbytes] at h
      rw [hrun, found_run hyes hne]
      simpa only [hlen] using h
    | false =>
      have h := hzero view ⟨hview, hhas.trans hb⟩ starved
      have hafter : rowsAfter b (led (.many set) yes) = rowsAfter b yes := by
        rw [rowsAfter_many (hyes b), hb]
        rfl
      rw [hbytes] at h
      simpa [hb, found, longest?, goesOn, firstEnding?_append, firstEnding?_many, hafter] using h

/-- The length of a run that all rows start with. -/
theorem runAll (yes : List (ρ × Pattern)) {k : Nat → Matcher α}
    (hyes : ∀ len, Finds on (k len) (n + len) yes answer) (hne : yes ≠ [])
    (hdead : ∀ b, set b = true → rowsAfter b yes = []) :
    Finds on (Matcher.runLength n set >>= k) n (led (.many set) yes) answer := by
  have hzero : Finds on (k 0) n (yes ++ []) answer := by
    rw [List.append_nil]
    exact hyes 0
  have h : Finds on (Matcher.runLength n set >>= k) n (led (.many set) yes ++ []) answer :=
    run yes [] (hzero.weaken fun _ h => h.1) (fun len => (hyes (len + 1)).weaken fun _ h => h.1)
      hne rfl (by rwa [List.append_nil])
  rwa [List.append_nil] at h

/-- A run of at least one byte. -/
theorem someRun (tails : List (ρ × Pattern)) {k : Nat → Matcher α}
    (hzero : ∀ view starved, k 0 ⟨view, 0, starved⟩ =
      ((answer none).1, ⟨view, (answer none).2, starved⟩))
    (hpos : ∀ len, Finds (fun view => on view ∧ view.has (n + (len + 1)) set = false) (k (len + 1))
      (n + (len + 1)) tails answer)
    (hne : tails ≠ []) (hdead : ∀ b, set b = true → rowsAfter b tails = []) :
    Finds on (Matcher.runLength n set >>= k) n (led (.one set) (led (.many set) tails)) answer := by
  have hrows : exhausted (led (.one set) (led (.many set) tails)) = false :=
    exhausted_led _ (by simpa [led] using hne)
  have hend : firstEnding? (led (.one set) (led (.many set) tails)) = none := firstEnding?_one _ _
  intro view hview starved
  rw [Matcher.bind_apply, Matcher.runLength_apply]
  cases hbytes : view.bytes.drop n with
  | nil => simpa [found_at_end hend hrows] using hzero view (starved || !view.closed)
  | cons b bytes =>
    rw [found_cons hend, rowsAfter_one]
    cases hb : set b with
    | true =>
      have hlen : ((b :: bytes).takeWhile set).length = (bytes.takeWhile set).length + 1 := by
        simp [hb]
      have hrest := Matcher.drop_run view.bytes n set
      rw [hbytes, hlen] at hrest
      have hbehind := Lookahead.has_run view n set
      rw [hbytes, hlen] at hbehind
      have h := hpos (bytes.takeWhile set).length view ⟨hview, hbehind⟩
        (starved || (!view.closed && ((b :: bytes).dropWhile set).isEmpty))
      rw [if_pos rfl, found_run hdead hne, show n + 1 + (bytes.takeWhile set).length =
        n + ((bytes.takeWhile set).length + 1) by omega]
      rw [hrest] at h
      simpa only [hlen, List.dropWhile_cons, hb, if_true] using h
    | false => simpa [hb, found_no_rows] using hzero view starved

/-- The length of a line end. What stands behind it may fall back on the other rows, which are those
of no line end. -/
theorem lineEnd (yes no : List (ρ × Pattern)) {k : Option Nat → Matcher α}
    (hyes : ∀ len, Finds (fun view => on view ∧ view.has n Byte.isLineEnd = true)
      (k (some (len + 1))) (n + (len + 1)) yes answer)
    (hno : Finds on (k none) n no answer) (hne : yes ≠ []) (hend : firstEnding? no = none)
    (hdead : ∀ b, Byte.isLineEnd b = true → rowsAfter b no = []) :
    Finds on (Matcher.lineEndLength n >>= k) n
      (led (.many (· == '\r'.toUInt8)) (led (.char '\n') yes) ++ no) answer := by
  rw [Matcher.bind_lineEndLength]
  have hlineEnd : ∀ {view : Lookahead} {c : Char}, c = '\r' ∨ c = '\n' →
      view.has n (· == c.toUInt8) = true → view.has n Byte.isLineEnd = true := by
    rintro view c hc h
    obtain ⟨b, hb, hset⟩ := Lookahead.has_iff.mp h
    rcases hc with rfl | rfl <;> exact Lookahead.has_iff.mpr ⟨b, hb, by rw [eq_of_beq hset]; rfl⟩
  have hreturn : ∀ b, (b == '\r'.toUInt8) = true →
      rowsAfter b (led (.char '\n') yes ++ no) = [] := by
    intro b hb
    obtain rfl := eq_of_beq hb
    rw [rowsAfter_append, Piece.char, rowsAfter_one, hdead _ rfl]
    rfl
  have hnewline : ∀ b, (b == '\n'.toUInt8) = true → rowsAfter b no = [] := by
    intro b hb
    obtain rfl := eq_of_beq hb
    exact hdead _ rfl
  have hled : led (.char '\n') yes ≠ [] := by simpa [led] using hne
  refine run _ _ ?_ (fun len => ?_) hled hend hreturn
  · -- the newline comes at once, or there is no line end here
    refine ite yes no ((hyes 0).weaken ?_) (hno.weaken fun _ h => h.1.1) hne hend hnewline
    rintro view ⟨⟨hview, -⟩, h⟩
    exact ⟨hview, hlineEnd (.inr rfl) h⟩
  · -- behind carriage returns there is only the newline
    have hnone : Finds (fun view => (on view ∧ view.has n (· == '\r'.toUInt8) = true ∧
        view.has (n + (len + 1)) (· == '\r'.toUInt8) = false) ∧
        view.has (n + (len + 1)) (· == '\n'.toUInt8) = false) (k none) (n + (len + 1))
        ([] : List (ρ × Pattern)) answer := by
      refine (hno.weaken fun _ h => h.1.1).dead hend ?_
      rintro view ⟨⟨-, h, -⟩, -⟩
      obtain ⟨b, hb, hset⟩ := Lookahead.has_iff.mp h
      obtain rfl := eq_of_beq hset
      exact ⟨_, hb, hdead _ rfl⟩
    have h := ite yes [] ((hyes (len + 1)).weaken ?_) hnone hne rfl fun _ _ => rfl
    · rwa [List.append_nil] at h
    · rintro view ⟨⟨hview, h, -⟩, -⟩
      exact ⟨hview, hlineEnd (.inl rfl) h⟩

end Finds

/-! ## One candidate after the other -/

theorem Longest.orLonger_longer? (best : Longest ρ) (first second : Option (ρ × Nat)) :
    best.orLonger (longer? first second) = (best.orLonger first).orLonger second := by
  rcases first with _ | ⟨rule, length⟩
  · rfl
  rcases second with _ | ⟨rule', length'⟩
  · rfl
  simp only [longer?]
  by_cases h : length < length'
  · simp only [h, if_true, Longest.orLonger]
    by_cases hbest : best.length < length
    · simp [hbest, h, Nat.lt_trans hbest h]
    · simp [hbest]
  · simp only [h, if_false, Longest.orLonger]
    by_cases hbest : best.length < length
    · simp [hbest, h]
    · have hbest' : ¬ best.length < length' := by omega
      simp [hbest, hbest']

theorem Longest.orLonger_same (rule : ρ) {length length' : Nat} (hle : length ≤ length') :
    (⟨rule, length⟩ : Longest ρ).orLonger (some (rule, length')) = ⟨rule, length'⟩ := by
  by_cases hlt : length < length'
  · simp [Longest.orLonger, hlt]
  · obtain rfl : length = length' := by omega
    simp [Longest.orLonger]

namespace Finds

open Matcher

variable {on : Lookahead → Prop} {n : Nat} {tails : List (ρ × Pattern)} {best : Longest ρ}

/-- A rule that has ended is the best one so far. -/
theorem ended {m : Matcher α} {rows : List (ρ × Pattern)} {rule : ρ} (answer : Longest ρ → α × Nat)
    (hbest : best.orLonger (some (rule, n)) = ⟨rule, n⟩)
    (h : Finds on m n rows fun candidate => answer ((⟨rule, n⟩ : Longest ρ).orLonger candidate)) :
    Finds on m n ((rule, []) :: rows) fun candidate => answer (best.orLonger candidate) := by
  intro view hview starved
  rw [h view hview starved, ← List.singleton_append]
  simp only [found, longest?_append, goesOn_append, longest?_ended, goesOn_ended, Bool.false_or,
    Longest.orLonger_longer?, hbest]

/-- The same if it comes after the others, none of which has ended. -/
theorem endedLast {m : Matcher α} {rule : ρ} (rows : List (ρ × Pattern))
    (answer : Longest ρ → α × Nat) (hbest : best.orLonger (some (rule, n)) = ⟨rule, n⟩)
    (hend : firstEnding? rows = none)
    (h : Finds on m n rows fun candidate => answer ((⟨rule, n⟩ : Longest ρ).orLonger candidate)) :
    Finds on m n (rows ++ [(rule, [])]) fun candidate => answer (best.orLonger candidate) := by
  have hlast : ∀ bytes, (best.orLonger (longest? n rows bytes)).orLonger (some (rule, n)) =
      (⟨rule, n⟩ : Longest ρ).orLonger (longest? n rows bytes) := by
    intro bytes
    cases hlongest : longest? n rows bytes with
    | none => exact hbest
    | some candidate =>
      have hlt := lt_of_longest? hend hlongest
      have hle : ¬ candidate.2 < n := by omega
      by_cases h : best.length < candidate.2
      · simp [Longest.orLonger, h, hlt, hle]
      · have hlength : ¬ best.length < n := by omega
        simp only [Longest.orLonger, hlength, if_false] at hbest
        rw [hbest] at h
        exact absurd hlt h
  intro view hview starved
  rw [h view hview starved]
  simp only [found, longest?_append, goesOn_append, longest?_ended, goesOn_ended, Bool.or_false,
    Longest.orLonger_longer?, hlast]

/-- All candidates have been looked for. -/
theorem accept : Finds on (accept best) n [] best.answer :=
  missed (accept_apply best)

/-- Candidates are looked for, and taken into account, before the ones that are left. -/
theorem offer {rows : List (σ × Pattern)} {probe : Matcher β} {k : β → Matcher ρ}
    {f : Option (σ × Nat) → β} (name : σ → ρ)
    (hprobe : Finds on probe n rows fun candidate => (f candidate, 0))
    (hk : ∀ bytes, Finds on (k (f (longest? n rows bytes))) n tails
      (best.orLonger ((longest? n rows bytes).map (Prod.map name id))).answer) :
    Finds on (probe >>= k) n (rows.map (Prod.map name id) ++ tails) best.answer := by
  intro view hview starved
  have h := hk (view.bytes.drop n) view hview
    (starved || (!view.closed && goesOn rows (view.bytes.drop n)))
  rw [bind_apply, hprobe view hview starved, found, h]
  simp only [found, Longest.answer, longest?_append, Longest.orLonger_longer?, longest?_map,
    goesOn_append, goesOn_map, Bool.and_or_distrib_left, Bool.or_assoc]

/-- The candidates of one rule, which are told by their lengths. -/
theorem offerLength (patterns : List Pattern) {probe : Matcher (Option Nat)}
    {k : Option Nat → Matcher ρ} (rule : ρ)
    (hprobe : Finds on probe n (patterns.map ((), ·)) asLength)
    (hk : ∀ length?, Finds on (k length?) n tails (best.offer rule length?).answer) :
    Finds on (probe >>= k) n (patterns.map (rule, ·) ++ tails) best.answer := by
  have hbest : ∀ bytes, Finds on (k ((longest? n (patterns.map ((), ·)) bytes).map (·.2))) n tails
      (best.orLonger
        ((longest? n (patterns.map ((), ·)) bytes).map (Prod.map (fun _ => rule) id))).answer := by
    intro bytes
    have h := hk ((longest? n (patterns.map ((), ·)) bytes).map (·.2))
    rw [Longest.offer, Option.map_map] at h
    exact h
  have h := offer (fun _ => rule) hprobe hbest
  rw [List.map_map] at h
  exact h

/-- Texts that start with the first byte. -/
theorem spelled {c : Char} {texts : List (List Char × ρ)} {single : ρ} {k : Longest ρ → Matcher ρ}
    (htexts : ∀ text ∈ texts, text.1.head? = some c)
    (hk : ∀ best, Finds (StartsWith c.toUInt8) (k best) 1 tails best.answer) :
    Finds (StartsWith c.toUInt8) (spelled texts single >>= k) 1
      (texts.map (fun text => (text.2, Pattern.literal text.1.tail)) ++ tails)
      (Longest.answer ⟨single, 1⟩) := by
  unfold Matcher.spelled
  generalize (⟨single, 1⟩ : Longest ρ) = best
  induction texts generalizing best with
  | nil => exact hk best
  | cons text texts ih =>
    obtain ⟨chars, rule⟩ := text
    obtain ⟨chars, rfl⟩ : ∃ chars', chars = c :: chars' :=
      List.head?_eq_some_iff.mp (htexts _ List.mem_cons_self)
    have hthere : Finds (StartsWith c.toUInt8) (isSpelled 0 (c :: chars)) 1
        [((), Pattern.literal chars)] fun candidate => (candidate.isSome, 0) := by
      have hchars : Finds (StartsWith c.toUInt8) _ 1 _ _ :=
        Finds.areAtIn (chars.map fun char b => b == char.toUInt8)
      rw [List.map_map] at hchars
      exact known (fun _ h => Lookahead.has_iff.mpr ⟨_, h, by simp⟩) hchars
    have h := ih fun text htext => htexts text (List.mem_cons_of_mem _ htext)
    rw [List.foldlM_cons, bind_assoc, bind_assoc]
    refine offer (fun _ => rule) hthere fun bytes => ?_
    cases hlongest : longest? 1 [((), Pattern.literal chars)] bytes with
    | none => exact h best
    | some found =>
      rw [longest?_literal hlongest]
      have hoffer :
          best.orLonger ((some ((), 1 + chars.length)).map (Prod.map (fun _ => rule) id)) =
          best.offer rule (some (c :: chars).length) := by
        simp [Longest.offer, Nat.add_comm]
      rw [hoffer]
      exact h _

end Finds

end StreamLexer
