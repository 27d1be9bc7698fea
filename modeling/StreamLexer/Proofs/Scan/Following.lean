import StreamLexer.Literal.Value
import StreamLexer.Proofs.Comment.Reader
import StreamLexer.Proofs.Scan.Starvation

/-!
# Following a row through a complete source

`munchFrom` with few rows left, by the shape of these rows: single bytes, a run and what ends it,
line ends and escapes. What the rows find is put in the words of the recursive reader.
-/
namespace StreamLexer

open Reader (after? afterLineEnd? escape? afterChar?)

variable {ρ : Type}

/-! ## Following a row -/

/-- The bytes start with one byte of each set. -/
def startsIn : List (UInt8 → Bool) → List UInt8 → Bool
  | [], _ => true
  | _ :: _, [] => false
  | set :: sets, b :: bytes => set b && startsIn sets bytes

theorem munchFrom_exhausted {rows : List (ρ × Pattern)} (h : exhausted rows = true)
    (best : ρ × Nat) (n : Nat) (bytes : List UInt8) :
    munchFrom true best n rows bytes = .found best.1 best.2 := by
  cases bytes <;> simp [munchFrom, h]

/-- A row that has been matched to its end plays no part any more. -/
theorem munchFrom_append_ended (rule : ρ) (best : ρ × Nat) (n : Nat) (rows : List (ρ × Pattern))
    (bytes : List UInt8) :
    munchFrom true best n (rows ++ [(rule, [])]) bytes = munchFrom true best n rows bytes := by
  have hrows : ∀ b, rowsAfter b (rows ++ [(rule, [])]) = rowsAfter b rows := by
    simp [rowsAfter, Pattern.after]
  have hexhausted : exhausted (rows ++ [(rule, [])]) = exhausted rows := by simp [exhausted]
  cases bytes <;> simp [munchFrom, hrows, hexhausted]

/-- A row of any one byte is the best one if no row before it matches. -/
theorem munchFrom_append_any (rule : ρ) (best : ρ × Nat) (n : Nat) {rows : List (ρ × Pattern)}
    (hrows : exhausted rows = false) (b : UInt8) (bytes : List UInt8) :
    munchFrom true best n (rows ++ [(rule, [.one fun _ => true])]) (b :: bytes) =
      munchFrom true (rule, n + 1) n rows (b :: bytes) := by
  have hafter : rowsAfter b (rows ++ [(rule, [.one fun _ => true])]) =
      rowsAfter b rows ++ [(rule, [])] := by simp [rowsAfter, Pattern.after]
  have hexhausted : exhausted (rows ++ [(rule, [Piece.one fun _ => true])]) = false := by
    simp [exhausted]
  simp only [munchFrom, hrows, hexhausted, hafter, munchFrom_append_ended]
  simp only [firstEnding?, List.find?_append]
  cases (rowsAfter b rows).find? (·.2.acceptsEmpty) <;> rfl

/-- Only what is left of the rows after the next byte matters. -/
theorem munchFrom_congr {rows rows' : List (ρ × Pattern)} {b : UInt8}
    (h : rowsAfter b rows = rowsAfter b rows') (hrows : exhausted rows = false)
    (hrows' : exhausted rows' = false) (best : ρ × Nat) (n : Nat) (bytes : List UInt8) :
    munchFrom true best n rows (b :: bytes) = munchFrom true best n rows' (b :: bytes) := by
  simp [munchFrom, hrows, hrows', h]

/-- A row of single bytes is matched by as many bytes of its sets. -/
theorem munchFrom_ones (rule : ρ) (best : ρ × Nat) (n : Nat) (set : UInt8 → Bool)
    (sets : List (UInt8 → Bool)) (bytes : List UInt8) :
    munchFrom true best n [(rule, (set :: sets).map .one)] bytes =
      if startsIn (set :: sets) bytes then .found rule (n + sets.length + 1)
      else .found best.1 best.2 := by
  -- on the sets: a byte leaves what comes after the first one
  induction sets generalizing best n set bytes with
  | nil =>
    cases bytes with
    | nil => rfl
    | cons b bytes =>
      by_cases hb : set b = true
      · have hrows : rowsAfter b [(rule, [Piece.one set])] = [(rule, [])] := by
          simp [rowsAfter, Pattern.after, hb]
        simp [munchFrom, exhausted, hrows, startsIn, hb, munchFrom_exhausted, firstEnding?,
          Pattern.acceptsEmpty]
      · have hrows : rowsAfter b [(rule, [Piece.one set])] = [] := by
          simp [rowsAfter, Pattern.after, hb]
        have hstep : munchFrom true best n [(rule, [Piece.one set])] (b :: bytes) =
            munchFrom true best (n + 1) [] bytes := by
          simp only [munchFrom, hrows]
          rfl
        rw [List.map_singleton, hstep, munchFrom_exhausted rfl]
        simp [startsIn, hb]
  | cons next sets ih =>
    cases bytes with
    | nil => rfl
    | cons b bytes =>
      by_cases hb : set b = true
      · have hrows : rowsAfter b [(rule, (set :: next :: sets).map .one)] =
            [(rule, (next :: sets).map .one)] := by
          simp [rowsAfter, Pattern.after, hb]
        have hending : firstEnding? [(rule, (next :: sets).map Piece.one)] = none := by
          simp [firstEnding?, Pattern.acceptsEmpty]
        have hstep : munchFrom true best n [(rule, (set :: next :: sets).map .one)] (b :: bytes) =
            munchFrom true best (n + 1) [(rule, (next :: sets).map .one)] bytes := by
          simp only [munchFrom, hrows, hending]
          rfl
        rw [hstep, ih]
        have hcount : n + 1 + sets.length + 1 = n + (next :: sets).length + 1 := by
          simp only [List.length_cons]
          omega
        simp [startsIn, hb, hcount]
      · have hrows : rowsAfter b [(rule, (set :: next :: sets).map .one)] = [] := by
          simp [rowsAfter, Pattern.after, hb]
        have hstep : munchFrom true best n [(rule, (set :: next :: sets).map .one)] (b :: bytes) =
            munchFrom true best (n + 1) [] bytes := by
          simp only [munchFrom, hrows]
          rfl
        rw [hstep, munchFrom_exhausted rfl]
        simp [startsIn, hb]

/-- A run of a set, then single bytes of which the first one is not in the set. -/
theorem munchFrom_run (rule : ρ) (best : ρ × Nat) (n : Nat) {set stop : UInt8 → Bool}
    (hstop : ∀ b, set b = true → stop b = false) (sets : List (UInt8 → Bool))
    (bytes : List UInt8) :
    munchFrom true best n [(rule, .many set :: (stop :: sets).map .one)] bytes =
      if startsIn (stop :: sets) (bytes.dropWhile set) then
        .found rule (n + (bytes.takeWhile set).length + sets.length + 1)
      else .found best.1 best.2 := by
  -- a byte of the run leaves the row as it is, so the induction is on the bytes
  induction bytes generalizing n with
  | nil => rfl
  | cons b bytes ih =>
    by_cases hb : set b = true
    · have hrows : rowsAfter b [(rule, .many set :: (stop :: sets).map .one)] =
          [(rule, .many set :: (stop :: sets).map .one)] := by
        simp [rowsAfter, Pattern.after, hb, hstop b hb]
      have hending : firstEnding? [(rule, Piece.many set :: (stop :: sets).map .one)] = none := by
        simp [firstEnding?, Pattern.acceptsEmpty]
      have hstep :
          munchFrom true best n [(rule, .many set :: (stop :: sets).map .one)] (b :: bytes) =
            munchFrom true best (n + 1) [(rule, .many set :: (stop :: sets).map .one)] bytes := by
        simp only [munchFrom, hrows, hending]
        rfl
      rw [hstep, ih]
      have hcount : n + 1 + (bytes.takeWhile set).length + sets.length + 1 =
          n + ((bytes.takeWhile set).length + 1) + sets.length + 1 := by omega
      simp [hb, hcount]
    · -- here the run is over, and the row is one of single bytes
      have hrows : rowsAfter b [(rule, .many set :: (stop :: sets).map .one)] =
          rowsAfter b [(rule, (stop :: sets).map .one)] := by
        simp [rowsAfter, Pattern.after, hb]
      rw [munchFrom_congr hrows rfl rfl, munchFrom_ones]
      simp [hb]

/-- A run of a set at the end of a rule. -/
theorem munchFrom_many (rule : ρ) (n : Nat) (set : UInt8 → Bool) (bytes : List UInt8) :
    munchFrom true (rule, n) n [(rule, [.many set])] bytes =
      .found rule (n + (bytes.takeWhile set).length) := by
  induction bytes generalizing n with
  | nil => rfl
  | cons b bytes ih =>
    by_cases hb : set b = true
    · have hrows : rowsAfter b [(rule, [Piece.many set])] = [(rule, [Piece.many set])] := by
        simp [rowsAfter, Pattern.after, hb]
      have hstep : munchFrom true (rule, n) n [(rule, [Piece.many set])] (b :: bytes) =
          munchFrom true (rule, n + 1) (n + 1) [(rule, [Piece.many set])] bytes := by
        simp only [munchFrom, hrows]
        rfl
      rw [hstep, ih]
      have hcount :
          n + 1 + (bytes.takeWhile set).length = n + ((bytes.takeWhile set).length + 1) := by omega
      simp [hb, hcount]
    · have hrows : rowsAfter b [(rule, [Piece.many set])] = [] := by
        simp [rowsAfter, Pattern.after, hb]
      have hstep : munchFrom true (rule, n) n [(rule, [Piece.many set])] (b :: bytes) =
          munchFrom true (rule, n) (n + 1) [] bytes := by
        simp only [munchFrom, hrows]
        rfl
      rw [hstep, munchFrom_exhausted rfl]
      simp [hb]

/-! ## Marks and line ends -/

theorem after?_cons (c : Char) (rest : List UInt8) : after? [c] (c.toUInt8 :: rest) = some rest :=
  Reader.after?_eq_some_iff.mpr rfl

theorem after?_of_ne {c : Char} {b : UInt8} (h : b ≠ c.toUInt8) (rest : List UInt8) :
    after? [c] (b :: rest) = none := by
  rw [Option.eq_none_iff_forall_ne_some]
  intro next hnext
  exact h (List.cons.inj (Reader.after?_eq_some_iff.mp hnext)).1

/-- A mark of one character is a set of one byte. -/
theorem startsIn_char (c : Char) (sets : List (UInt8 → Bool)) (bytes : List UInt8) :
    startsIn ((· == c.toUInt8) :: sets) bytes = (after? [c] bytes).any (startsIn sets) := by
  cases bytes with
  | nil => rfl
  | cons b rest =>
    by_cases hb : b = c.toUInt8
    · subst hb
      simp [startsIn, after?_cons]
    · simp [startsIn, after?_of_ne hb, hb]

theorem after?_isSome (c : Char) (bytes : List UInt8) :
    (after? [c] bytes).any (startsIn []) = (bytes.head? == some c.toUInt8) := by
  rw [← startsIn_char]
  cases bytes <;> simp [startsIn]

theorem lineEnd_disjoint (b : UInt8) (h : (b == '\r'.toUInt8) = true) :
    (b == '\n'.toUInt8) = false := by
  rw [eq_of_beq h]
  rfl

theorem afterLineEnd?_return (rest : List UInt8) :
    afterLineEnd? ('\r'.toUInt8 :: rest) = afterLineEnd? rest := rfl

theorem afterLineEnd?_newline (rest : List UInt8) :
    afterLineEnd? ('\n'.toUInt8 :: rest) = some rest := by
  show after? ['\n'] ('\n'.toUInt8 :: rest) = some rest
  exact after?_cons '\n' rest

theorem afterLineEnd?_of_ne {b : UInt8} (hreturn : b ≠ '\r'.toUInt8) (hnewline : b ≠ '\n'.toUInt8)
    (rest : List UInt8) : afterLineEnd? (b :: rest) = none := by
  rw [afterLineEnd?, List.dropWhile_cons_of_neg (by simpa using hreturn)]
  exact after?_of_ne hnewline rest

theorem afterLineEnd?_of_isLineEnd_eq_false {b : UInt8} (h : Byte.isLineEnd b = false)
    (rest : List UInt8) : afterLineEnd? (b :: rest) = none := by
  obtain ⟨hreturn, hnewline⟩ : b ≠ '\r'.toUInt8 ∧ b ≠ '\n'.toUInt8 := by
    simpa [Byte.isLineEnd, Byte.isAny] using h
  exact afterLineEnd?_of_ne hreturn hnewline rest

/-- What is read as a line end starts with a byte of one. -/
theorem isLineEnd_of_afterLineEnd? {b : UInt8} {rest next : List UInt8}
    (h : afterLineEnd? (b :: rest) = some next) : Byte.isLineEnd b = true := by
  cases hb : Byte.isLineEnd b with
  | true => rfl
  | false =>
    rw [afterLineEnd?_of_isLineEnd_eq_false hb rest] at h
    cases h

/-- The row of line ends. -/
theorem munchFrom_lineEnd (rule : ρ) (best : ρ × Nat) (n : Nat) (bytes : List UInt8) :
    munchFrom true best n [(rule, Pattern.lineEnd)] bytes =
      match afterLineEnd? bytes with
      | some next => .found rule (n + (bytes.length - next.length))
      | none => .found best.1 best.2 := by
  show munchFrom true best n [(rule, .many (· == '\r'.toUInt8) :: [(· == '\n'.toUInt8)].map .one)]
    bytes = _
  rw [munchFrom_run rule best n lineEnd_disjoint, startsIn_char]
  show (if (afterLineEnd? bytes).any (startsIn []) then _ else _) = _
  cases hnext : afterLineEnd? bytes with
  | some next =>
    have hlength := congrArg List.length (Reader.afterLineEnd?_eq_some hnext)
    simp only [List.length_append, List.length_cons] at hlength
    show Verdict.found _ _ = Verdict.found _ _
    congr 1
    simp only [List.length_nil]
    omega
  | none => rfl

theorem afterLineEnd?_suffix {rest next : List UInt8} (h : afterLineEnd? rest = some next) :
    next <:+ rest := by
  rw [Reader.afterLineEnd?_eq_some h]
  exact (List.suffix_cons _ _).trans (List.suffix_append _ _)

/-! ## Escapes -/

theorem namedByte?_eq (b : UInt8) : Reader.namedByte? b =
    if Byte.isNamedEscape b then some (ByteEscape.named b) else none := by
  have h := Byte.forall_of_range (p := fun b => Reader.namedByte? b ==
    if Byte.isNamedEscape b then some (ByteEscape.named b) else none) (by decide +kernel) b
  exact eq_of_beq h

/-- The three forms of escapes. -/
theorem escape?_eq_some {bytes next : List UInt8} {byte? : Option UInt8}
    (h : escape? bytes = some (byte?, next)) :
    (∃ c, bytes = c :: next ∧ Byte.isNamedEscape c = true ∧
        byte? = some (ByteEscape.named c)) ∨
      (∃ d₁ d₂ d₃, bytes = d₁ :: d₂ :: d₃ :: next ∧ Byte.isDecimal d₁ = true ∧
        Byte.isDecimal d₂ = true ∧ Byte.isDecimal d₃ = true ∧
        byte? = Reader.decimalByte? d₁ d₂ d₃) ∨
      (∃ d₁ d₂, bytes = 'x'.toUInt8 :: d₁ :: d₂ :: next ∧ Byte.isHex d₁ = true ∧
        Byte.isHex d₂ = true ∧ byte? = some (Reader.hexByte d₁ d₂)) := by
  unfold escape? at h
  split at h
  · cases h
  · rename_i c rest
    have hnamed := namedByte?_eq c
    split at h
    · rename_i byte hbyte
      rw [hbyte] at hnamed
      split at hnamed
      · rename_i hc
        cases h
        cases hnamed
        exact .inl ⟨c, rfl, hc, rfl⟩
      · cases hnamed
    · rename_i d₂ d₃ tail _
      split at h
      · rename_i hdigits
        cases h
        simp only [Bool.and_eq_true] at hdigits
        exact .inr (.inl ⟨c, d₂, d₃, rfl, hdigits.1.1, hdigits.1.2, hdigits.2, rfl⟩)
      · split at h
        · rename_i hdigits
          cases h
          simp only [Bool.and_eq_true, beq_iff_eq] at hdigits
          obtain ⟨⟨rfl, h₂⟩, h₃⟩ := hdigits
          exact .inr (.inr ⟨d₂, d₃, rfl, h₂, h₃, rfl⟩)
        · cases h
    · cases h

/-- Without an escape none of its forms fits, whatever would have to follow. -/
theorem escape?_eq_none {bytes : List UInt8} (h : escape? bytes = none)
    (sets : List (UInt8 → Bool)) :
    startsIn (Byte.isNamedEscape :: sets) bytes = false ∧
      startsIn (Byte.isDecimal :: Byte.isDecimal :: Byte.isDecimal :: sets) bytes = false ∧
      startsIn ((· == 'x'.toUInt8) :: Byte.isHex :: Byte.isHex :: sets) bytes = false := by
  unfold escape? at h
  split at h
  · exact ⟨rfl, rfl, rfl⟩
  · rename_i c rest
    have hnamed := namedByte?_eq c
    split at h
    · cases h
    · rename_i d₂ d₃ tail hbyte
      rw [hbyte] at hnamed
      have hc : Byte.isNamedEscape c = false := by
        by_contra hc
        simp [hc] at hnamed
      split at h
      · cases h
      · rename_i hdecimal
        split at h
        · cases h
        · rename_i hhex
          simp only [Bool.not_eq_true] at hdecimal hhex
          simp only [startsIn, hc, ← Bool.and_assoc, hdecimal, hhex, Bool.false_and, true_and]
    · rename_i tail _ _ hbyte hshort
      rw [hbyte] at hnamed
      have hc : Byte.isNamedEscape c = false := by
        by_contra hc
        simp [hc] at hnamed
      rcases tail with _ | ⟨d, _ | ⟨e, rest⟩⟩
      · simp [startsIn, hc]
      · simp [startsIn, hc]
      · exact absurd rfl (hshort d e rest)

theorem afterChar?_suffix {bytes next : List UInt8} (h : afterChar? bytes = some next) :
    next <:+ bytes := by
  have hquote : ∀ {bytes next : List UInt8}, after? ['\''] bytes = some next → next <:+ bytes := by
    intro bytes next hnext
    rw [Reader.after?_eq_some_iff.mp hnext]
    exact List.suffix_append _ _
  unfold afterChar? at h
  split at h
  · cases h
  · split at h
    · cases h
      exact List.suffix_cons _ _
    · split at h
      · obtain ⟨⟨byte?, rest⟩, hescape, hend⟩ := Option.bind_eq_some_iff.mp h
        refine ((hquote hend).trans ?_).trans (List.suffix_cons _ _)
        rcases escape?_eq_some hescape with ⟨c, rfl, -⟩ | ⟨d₁, d₂, d₃, rfl, -⟩ | ⟨d₁, d₂, rfl, -⟩
        · exact List.suffix_append [c] rest
        · exact List.suffix_append [d₁, d₂, d₃] rest
        · exact List.suffix_append ['x'.toUInt8, d₁, d₂] rest
      · split at h
        · obtain ⟨rest, hline, hend⟩ := Option.bind_eq_some_iff.mp h
          exact (hquote hend).trans (afterLineEnd?_suffix hline)
        · exact (hquote h).trans (List.suffix_cons _ _)

/-- The rows of the three forms of escapes, each before the same sets. -/
def escapeRows (named decimal hex : ρ) (sets : List (UInt8 → Bool)) : List (ρ × Pattern) :=
  [(named, (Byte.isNamedEscape :: sets).map .one),
   (decimal, (Byte.isDecimal :: Byte.isDecimal :: Byte.isDecimal :: sets).map .one),
   (hex, ((· == 'x'.toUInt8) :: Byte.isHex :: Byte.isHex :: sets).map .one)]

/-- At most one form of escapes fits. -/
theorem munchFrom_escapeRows (named decimal hex : ρ) (best : ρ × Nat) (n : Nat)
    (sets : List (UInt8 → Bool)) (bytes : List UInt8) :
    munchFrom true best n (escapeRows named decimal hex sets) bytes =
      if startsIn (Byte.isNamedEscape :: sets) bytes then .found named (n + sets.length + 1)
      else if startsIn (Byte.isDecimal :: Byte.isDecimal :: Byte.isDecimal :: sets) bytes then
        .found decimal (n + sets.length + 3)
      else if startsIn ((· == 'x'.toUInt8) :: Byte.isHex :: Byte.isHex :: sets) bytes then
        .found hex (n + sets.length + 3)
      else .found best.1 best.2 := by
  have hthree : n + (sets.length + 1 + 1) + 1 = n + sets.length + 3 := by omega
  cases bytes with
  | nil => rfl
  | cons b bytes =>
    obtain ⟨hnamed, hdecimal⟩ := Byte.escape_disjoint b
    -- the first byte leaves one row
    by_cases hb : Byte.isNamedEscape b = true
    · obtain ⟨hb₁, hb₂⟩ := hnamed hb
      have hrows : rowsAfter b (escapeRows named decimal hex sets) =
          rowsAfter b [(named, (Byte.isNamedEscape :: sets).map .one)] := by
        simp [escapeRows, rowsAfter, Pattern.after, hb, hb₁, hb₂]
      rw [munchFrom_congr hrows rfl rfl, munchFrom_ones]
      simp [startsIn, hb₁, hb₂]
    · by_cases hb' : Byte.isDecimal b = true
      · have hb₂ := hdecimal hb'
        have hrows : rowsAfter b (escapeRows named decimal hex sets) = rowsAfter b
            [(decimal, (Byte.isDecimal :: Byte.isDecimal :: Byte.isDecimal :: sets).map .one)] := by
          simp [escapeRows, rowsAfter, Pattern.after, hb, hb', hb₂]
        rw [munchFrom_congr hrows rfl rfl, munchFrom_ones]
        simp [startsIn, hb, hb₂, hthree]
      · have hrows : rowsAfter b (escapeRows named decimal hex sets) = rowsAfter b
            [(hex, ((· == 'x'.toUInt8) :: Byte.isHex :: Byte.isHex :: sets).map .one)] := by
          simp [escapeRows, rowsAfter, Pattern.after, hb, hb']
        rw [munchFrom_congr hrows rfl rfl, munchFrom_ones]
        simp [startsIn, hb, hb', hthree]

/-- The rows of escapes at the bytes of the reader. -/
theorem munchFrom_escape (named decimal hex : ρ) (best : ρ × Nat) (n : Nat)
    (sets : List (UInt8 → Bool)) (bytes : List UInt8) :
    munchFrom true best n (escapeRows named decimal hex sets) bytes =
      match escape? bytes with
      | some (_, next) =>
        if startsIn sets next then
          .found (if bytes.head?.any Byte.isNamedEscape then named
              else if bytes.head?.any Byte.isDecimal then decimal else hex)
            (n + (bytes.length - next.length) + sets.length)
        else .found best.1 best.2
      | none => .found best.1 best.2 := by
  rw [munchFrom_escapeRows]
  cases hescape : escape? bytes with
  | none =>
    obtain ⟨hnamed, hdecimal, hhex⟩ := escape?_eq_none hescape sets
    simp [hnamed, hdecimal, hhex]
  | some found =>
    obtain ⟨byte?, next⟩ := found
    rcases escape?_eq_some hescape with ⟨c, rfl, hc, -⟩ | ⟨d₁, d₂, d₃, rfl, h₁, h₂, h₃, -⟩ |
      ⟨d₁, d₂, rfl, h₁, h₂, -⟩
    · obtain ⟨hdecimal, hx⟩ := (Byte.escape_disjoint c).1 hc
      simp [startsIn, hc, hdecimal, hx, Nat.add_right_comm]
    · have hx := (Byte.escape_disjoint d₁).2 h₁
      have hnamed := Byte.isNamedEscape_of_isDecimal h₁
      have hcount : next.length + 3 - next.length = 3 := by omega
      simp [startsIn, h₁, h₂, h₃, hnamed, hx, hcount, Nat.add_right_comm]
    · have hnamed : Byte.isNamedEscape 'x'.toUInt8 = false := rfl
      have hdecimal : Byte.isDecimal 'x'.toUInt8 = false := rfl
      have hcount : next.length + 3 - next.length = 3 := by omega
      simp [startsIn, h₁, h₂, hnamed, hdecimal, hcount, Nat.add_right_comm]

end StreamLexer
