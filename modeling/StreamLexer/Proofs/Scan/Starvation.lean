import StreamLexer.Proofs.Scan.BodyArms
import StreamLexer.Proofs.Scan.LongestMatch
import StreamLexer.Proofs.Scan.SourceArms
import StreamLexer.Proofs.Source.PlainRun

/-!
# When a scan waits for more input

A scan of held bytes is right to answer if every complete input that starts with them has the same
answer, and right to wait if two of them have different ones. `StarvesExactly` says both of a scan
and some held bytes.

The bytes that start no rule of a body are the exception: a run of them is taken without waiting for
its end, which `BodyStarvesExactly` describes.

The main statement is `scans_starve_exactly`, about all six scans. That no probe of a scan looks
further than its table asks for is said there, where the scan is shown to be the munch of the table
(`Finds`). What is left are two facts about `munch`: what it has found stays when more bytes come
(`munchFrom_append`), and where it waits some longer input still matches as a whole
(`exists_accepting_of_undecided`). The second one needs patterns without dead ends, which the six
tables have.
-/
namespace StreamLexer

variable {ρ : Type}

/-! ## Patterns without dead ends -/

namespace Pattern

/-- Every piece of the pattern has a byte, so whatever is left of it can still be matched. -/
def IsLive (p : Pattern) : Prop :=
  ∀ piece ∈ p, ∃ b, piece.set b = true

/-- Tries all bytes for every piece. -/
def isLive (p : Pattern) : Bool :=
  p.all fun piece => (List.range 256).any fun n => piece.set (UInt8.ofNat n)

theorem isLive_of_check {p : Pattern} (h : p.isLive = true) : p.IsLive := by
  intro piece hpiece
  have hany := List.all_eq_true.mp h piece hpiece
  obtain ⟨n, -, hn⟩ := List.any_eq_true.mp hany
  exact ⟨UInt8.ofNat n, hn⟩

/-- What is left of a pattern after a byte is made of its own pieces. -/
theorem mem_of_mem_after {p q : Pattern} {b : UInt8} (hq : q ∈ p.after b) :
    ∀ piece ∈ q, piece ∈ p := by
  induction p with
  | nil => simp [after] at hq
  | cons head r ih =>
    intro piece hpiece
    cases head with
    | one set =>
      simp only [after] at hq
      split at hq
      · obtain rfl : q = r := by simpa using hq
        simp [hpiece]
      · simp at hq
    | many set =>
      have hcases : q = .many set :: r ∨ q ∈ after b r := by
        simp only [after] at hq
        split at hq
        · simpa using hq
        · exact .inr hq
      rcases hcases with rfl | hafter
      · exact hpiece
      · exact List.mem_cons_of_mem _ (ih hafter piece hpiece)

theorem IsLive.of_mem_after {p q : Pattern} {b : UInt8} (h : p.IsLive) (hq : q ∈ p.after b) :
    q.IsLive :=
  fun piece hpiece => h piece (mem_of_mem_after hq piece hpiece)

theorem IsLive.exists_accepts {p : Pattern} (h : p.IsLive) : ∃ w, p.Accepts w := by
  induction p with
  | nil => exact ⟨[], rfl⟩
  | cons head r ih =>
    obtain ⟨w, hw⟩ := ih fun piece hpiece => h piece (List.mem_cons_of_mem _ hpiece)
    obtain ⟨b, hb⟩ := h head (by simp)
    cases head with
    | one set => exact ⟨b :: w, b, w, rfl, hb, hw⟩
    | many set => exact ⟨w, [], w, rfl, by simp, hw⟩

/-- A pattern with a piece left can match one more byte at least. -/
theorem IsLive.exists_accepts_cons {p : Pattern} (h : p.IsLive) (hp : p ≠ []) :
    ∃ b w, p.Accepts (b :: w) := by
  cases p with
  | nil => exact absurd rfl hp
  | cons head r =>
    obtain ⟨b, hb⟩ := h head (by simp)
    have hr : IsLive r := fun piece hpiece => h piece (List.mem_cons_of_mem _ hpiece)
    obtain ⟨w, hw⟩ := hr.exists_accepts
    cases head with
    | one set => exact ⟨b, w, b, w, rfl, hb, hw⟩
    | many set => exact ⟨b, w, [b], w, rfl, by simpa [Piece.set] using hb, hw⟩

end Pattern

/-! ## Munch under growth -/

/-- What munch has found stays, whatever more bytes come and whether the input ends with them. -/
theorem munchFrom_append {best : ρ × Nat} {n : Nat} {rows : List (ρ × Pattern)}
    {held : List UInt8} {rule : ρ} {length : Nat}
    (h : munchFrom false best n rows held = .found rule length) (more : List UInt8)
    (closed : Bool) : munchFrom closed best n rows (held ++ more) = .found rule length := by
  induction held generalizing best n rows with
  | nil =>
    by_cases hex : exhausted rows = true
    · have hbest : Verdict.found best.1 best.2 = .found rule length := by
        simpa [munchFrom, hex] using h
      rw [← hbest]
      cases more <;> simp [munchFrom, hex]
    · simp [munchFrom, hex] at h
  | cons b held ih =>
    by_cases hex : exhausted rows = true
    · have hbest : Verdict.found best.1 best.2 = .found rule length := by
        simpa [munchFrom, hex] using h
      rw [← hbest]
      simp [munchFrom, hex]
    · simp only [munchFrom, hex, Bool.false_eq_true, if_false] at h
      simp only [List.cons_append, munchFrom, hex, Bool.false_eq_true, if_false]
      exact ih h

theorem munch_append {fallback : ρ} {rows : List (ρ × Pattern)} {held : List UInt8} {rule : ρ}
    {length : Nat} (h : munch fallback rows ⟨held, false⟩ = .found rule length)
    (more : List UInt8) (closed : Bool) :
    munch fallback rows ⟨held ++ more, closed⟩ = .found rule length :=
  munchFrom_append h more closed

/-- Where munch waits, some longer input is accepted as a whole. -/
theorem exists_accepting_of_undecided {best : ρ × Nat} {n : Nat} {rows : List (ρ × Pattern)}
    {held : List UInt8} (hlive : ∀ row ∈ rows, row.2.IsLive)
    (h : munchFrom false best n rows held = .undecided) :
    ∃ b more, (firstAccepting? rows (held ++ b :: more)).isSome := by
  induction held generalizing best n rows with
  | nil =>
    have hex : exhausted rows = false := by
      by_cases hex : exhausted rows = true
      · simp [munchFrom, hex] at h
      · simpa using hex
    obtain ⟨row, hrow, hne⟩ := List.all_eq_false.mp hex
    obtain ⟨b, w, hw⟩ := (hlive row hrow).exists_accepts_cons (by simpa using hne)
    refine ⟨b, w, ?_⟩
    rw [List.nil_append, Option.isSome_iff_ne_none, Ne, firstAccepting?_eq_none_iff]
    exact fun hnone => hnone row hrow hw
  | cons b held ih =>
    by_cases hex : exhausted rows = true
    · simp [munchFrom, hex] at h
    · simp only [munchFrom, hex, Bool.false_eq_true, if_false] at h
      -- the rows after a byte are made of the pieces of the rows before it
      have hlive' : ∀ row ∈ rowsAfter b rows, row.2.IsLive := by
        intro row hrow
        obtain ⟨row', hrow', hafter⟩ := List.mem_flatMap.mp hrow
        obtain ⟨q, hq, rfl⟩ := List.mem_map.mp hafter
        exact (hlive row' hrow').of_mem_after hq
      obtain ⟨c, more, hacc⟩ := ih hlive' h
      refine ⟨c, more, ?_⟩
      rw [List.cons_append, firstAccepting?_rowsAfter]
      exact hacc

/-- A source that is accepted as a whole is taken as a whole. -/
theorem munch_whole (fallback : ρ) {rows : List (ρ × Pattern)} {source : List UInt8}
    (hne : source ≠ []) (h : (firstAccepting? rows source).isSome) :
    ∃ rule, munch fallback rows ⟨source, true⟩ = .found rule source.length := by
  have hpos : 0 < source.length := List.length_pos_iff.mpr hne
  obtain ⟨rule, n, hfound, ⟨-, hle, -, hlongest⟩ | ⟨-, -, hnone⟩⟩ :=
    munch_closed fallback rows source
  · have hn : n = source.length := by
      by_contra hn
      have := hlongest source.length (by omega) (Nat.le_refl _)
      rw [List.take_length] at this
      simp [this] at h
    exact ⟨rule, hn ▸ hfound⟩
  · have := hnone source.length hpos (Nat.le_refl _)
    rw [List.take_length] at this
    simp [this] at h

/-! ## Exact starvation -/

/-- On these held bytes the scan answers if every complete input that starts with them has that
answer, and waits if two of them have different ones. -/
structure StarvesExactly (scan : Lookahead → Verdict ρ) (held : List UInt8) : Prop where
  found_iff : ∀ rule n, scan ⟨held, false⟩ = .found rule n ↔
    ∀ more, scan ⟨held ++ more, true⟩ = .found rule n
  undecided_iff : scan ⟨held, false⟩ = .undecided ↔
    ∃ more more', scan ⟨held ++ more, true⟩ ≠ scan ⟨held ++ more', true⟩

/-- It is enough that an answer stays and that waiting has a reason. -/
theorem starvesExactly_of_append {scan : Lookahead → Verdict ρ} {held : List UInt8}
    (hfound : ∀ rule n, scan ⟨held, false⟩ = .found rule n →
      ∀ more, scan ⟨held ++ more, true⟩ = .found rule n)
    (hundecided : scan ⟨held, false⟩ = .undecided →
      ∃ more more', scan ⟨held ++ more, true⟩ ≠ scan ⟨held ++ more', true⟩) :
    StarvesExactly scan held := by
  refine ⟨fun rule n => ⟨hfound rule n, ?_⟩, hundecided, ?_⟩
  · intro hall
    cases hscan : scan ⟨held, false⟩ with
    | undecided =>
      obtain ⟨more, more', hne⟩ := hundecided hscan
      exact absurd ((hall more).trans (hall more').symm) hne
    | found rule' n' => rw [← hfound rule' n' hscan [], hall []]
  · rintro ⟨more, more', hne⟩
    cases hscan : scan ⟨held, false⟩ with
    | undecided => rfl
    | found rule n =>
      exact absurd ((hfound rule n hscan more).trans (hfound rule n hscan more').symm) hne

/-- Munch waits exactly where it has to, by a table without dead ends. -/
theorem munch_starvesExactly (fallback : ρ) {rows : List (ρ × Pattern)}
    (hlive : ∀ row ∈ rows, row.2.IsLive) (held : List UInt8) :
    StarvesExactly (munch fallback rows) held := by
  refine starvesExactly_of_append (fun rule n h more => munch_append h more true) ?_
  intro h
  obtain ⟨b, more, hacc⟩ := exists_accepting_of_undecided hlive h
  obtain ⟨rule, hwhole⟩ := munch_whole fallback (by simp) hacc
  obtain ⟨rule', n, hfound, -⟩ := munch_closed fallback rows held
  -- with `b :: more` the lexeme goes past the held bytes, without it it cannot
  have hshort : n ≤ held.length := by
    rcases (munch_bounded fallback rows).found _ _ _ hfound with ⟨-, rfl⟩ | ⟨-, hle⟩
    · exact Nat.zero_le _
    · exact hle
  refine ⟨b :: more, [], ?_⟩
  rw [List.append_nil, hwhole, hfound]
  intro heq
  have hlen : (held ++ b :: more).length = n := by injection heq
  simp only [List.length_append, List.length_cons] at hlen
  omega

/-! ## Answers within the held bytes -/

/-- The scan answers on every complete source, and never takes more than is held. -/
structure Settles (scan : Lookahead → Verdict ρ) : Prop where
  decides : ∀ source, ∃ rule n, scan ⟨source, true⟩ = .found rule n
  within : ∀ view rule n, scan view = .found rule n → n ≤ view.bytes.length

theorem Bounded.settles {scan : Lookahead → Verdict ρ} {last : ρ} (h : Bounded scan last) :
    Settles scan := by
  refine ⟨fun source => ?_, fun view rule n hfound => ?_⟩
  · cases hscan : scan ⟨source, true⟩ with
    | undecided => exact absurd hscan (h.answers _ rfl)
    | found rule n => exact ⟨rule, n, rfl⟩
  · rcases h.found view rule n hfound with ⟨-, rfl⟩ | ⟨-, hle⟩
    · exact Nat.zero_le _
    · exact hle

/-! ## Bodies -/

/-- Some rule has a lexeme that starts with the byte. -/
def StartsRule (rows : List (ρ × Pattern)) (b : UInt8) : Prop :=
  ∃ row ∈ rows, ∃ w, row.2.Accepts (b :: w)

/-- The first `n` bytes start no rule, and the byte after them, where there is one, starts one. -/
structure PlainRun (rows : List (ρ × Pattern)) (bytes : List UInt8) (n : Nat) : Prop where
  length_le : n ≤ bytes.length
  plain : ∀ b ∈ bytes.take n, ¬ StartsRule rows b
  ends : ∀ b ∈ bytes[n]?, StartsRule rows b

/-- How the scan of a body starves: exactly, but for plain bytes. A run of these is taken as far as
it is held; more bytes change its length only where it reaches the end of the held ones, and then
make it no shorter. -/
structure BodyStarvesExactly (rows : List (ρ × Pattern)) (plain : ρ)
    (scan : Lookahead → Verdict ρ) : Prop where
  atRule : ∀ held : List UInt8, (∀ b ∈ held.head?, StartsRule rows b) → StarvesExactly scan held
  atPlain : ∀ b rest, ¬ StartsRule rows b → ∃ run, PlainRun rows (b :: rest) run ∧
    scan ⟨b :: rest, false⟩ = .found plain run ∧
    ∀ more, ∃ n, scan ⟨b :: rest ++ more, true⟩ = .found plain n ∧
      (run < (b :: rest).length → n = run) ∧
      (run = (b :: rest).length → (b :: rest).length ≤ n)

/-- A byte starts a rule of a table without dead ends where a row is left after it. -/
theorem startsRule_iff {rows : List (ρ × Pattern)} (hlive : ∀ row ∈ rows, row.2.IsLive)
    (b : UInt8) : StartsRule rows b ↔ rowsAfter b rows ≠ [] := by
  constructor
  · rintro ⟨row, hrow, w, hw⟩ hnil
    obtain ⟨q, hq, -⟩ := (Pattern.accepts_cons_iff row.2 b w).mp hw
    have hmem : (row.1, q) ∈ rowsAfter b rows :=
      List.mem_flatMap.mpr ⟨row, hrow, List.mem_map.mpr ⟨q, hq, rfl⟩⟩
    simp [hnil] at hmem
  · intro hne
    obtain ⟨row', hrow'⟩ := List.exists_mem_of_ne_nil _ hne
    obtain ⟨row, hrow, hafter⟩ := List.mem_flatMap.mp hrow'
    obtain ⟨q, hq, -⟩ := List.mem_map.mp hafter
    obtain ⟨w, hw⟩ := ((hlive row hrow).of_mem_after hq).exists_accepts
    exact ⟨row, hrow, w, (Pattern.accepts_cons_iff row.2 b w).mpr ⟨q, hq, hw⟩⟩

/-- The stop bytes, the skip and the rows of a body fit together: the stop bytes are those that
start a rule, and the skip goes up to the first of them. -/
structure BodyTable (isStop : UInt8 → Bool) (skip : Cursor → Nat × Cursor)
    (rows : List (ρ × Pattern)) : Prop where
  live : ∀ row ∈ rows, row.2.IsLive
  stop_iff : ∀ b, isStop b = true ↔ StartsRule rows b
  skip_eq : ∀ view, (skip ⟨view, 0, false⟩).1 = view.bytes.findIdx isStop

section Body

variable {isStop : UInt8 → Bool} {skip : Cursor → Nat × Cursor} {endOfInput plain : ρ}
  {rows : List (ρ × Pattern)}

/-- At a byte of a rule, and at the end of what is held, a body is scanned by munch. -/
theorem bodyScan_eq_munch {view : Lookahead} (h : ∀ b ∈ view.bytes.head?, isStop b = true) :
    bodyScan isStop skip endOfInput plain rows view =
      munch endOfInput (rows ++ [(plain, [.one fun _ => true])]) view := by
  unfold bodyScan
  split
  · rename_i b r hview
    have hb : isStop b = true := h b (by simp [hview])
    simp [hb]
  · rfl

/-- At a plain byte the scan of a body takes the bytes up to the next one that starts a rule. -/
theorem BodyTable.scan_plain (h : BodyTable isStop skip rows) {b : UInt8} (hb : isStop b = false)
    (rest : List UInt8) (closed : Bool) :
    bodyScan isStop skip endOfInput plain rows ⟨b :: rest, closed⟩ =
      .found plain ((b :: rest).findIdx isStop) := by
  simp [bodyScan, hb, h.skip_eq]

theorem BodyTable.plainRun (h : BodyTable isStop skip rows) (bytes : List UInt8) :
    PlainRun rows bytes (bytes.findIdx isStop) := by
  refine ⟨List.findIdx_le_length, ?_, ?_⟩
  · intro b hb hstart
    obtain ⟨i, hi, rfl⟩ := List.mem_take_iff_getElem.mp hb
    have := List.not_of_lt_findIdx (show i < bytes.findIdx isStop by omega)
    rw [← h.stop_iff] at hstart
    simp [hstart] at this
  · intro b hb
    rw [← h.stop_iff]
    exact List.findIdx_of_getElem?_eq_some hb

/-- Before the first byte a body waits: the end of input is empty, while one byte is a lexeme. -/
theorem BodyTable.starvesExactly_nil (h : BodyTable isStop skip rows) :
    StarvesExactly (bodyScan isStop skip endOfInput plain rows) [] := by
  have hend : bodyScan isStop skip endOfInput plain rows ⟨[], true⟩ = .found endOfInput 0 := rfl
  have hopen : bodyScan isStop skip endOfInput plain rows ⟨[], false⟩ = .undecided := by
    simp [bodyScan, munch, munchFrom, exhausted]
  obtain ⟨rule, hone⟩ : ∃ rule,
      bodyScan isStop skip endOfInput plain rows ⟨[0], true⟩ = .found rule 1 := by
    by_cases hzero : isStop 0 = true
    · rw [bodyScan_eq_munch (by simpa using hzero)]
      refine munch_whole endOfInput (by simp) ?_
      rw [Option.isSome_iff_ne_none, Ne, firstAccepting?_eq_none_iff]
      intro hnone
      exact hnone (plain, [.one fun _ => true]) (by simp) ⟨0, [], rfl, rfl, rfl⟩
    · refine ⟨plain, ?_⟩
      rw [h.scan_plain (by simpa using hzero)]
      simp [List.findIdx_cons, hzero]
  refine starvesExactly_of_append ?_ ?_
  · intro rule n hscan
    rw [hopen] at hscan
    cases hscan
  · intro _
    refine ⟨[0], [], ?_⟩
    rw [List.nil_append, List.nil_append, hone, hend]
    simp

/-- At a byte of a rule a body waits as munch does. -/
theorem BodyTable.starvesExactly_stop (h : BodyTable isStop skip rows) {b : UInt8}
    (hb : isStop b = true) (rest : List UInt8) :
    StarvesExactly (bodyScan isStop skip endOfInput plain rows) (b :: rest) := by
  have hlive : ∀ row ∈ rows ++ [(plain, [.one fun _ => true])], row.2.IsLive := by
    intro row hrow
    rcases List.mem_append.mp hrow with hrow | hrow
    · exact h.live row hrow
    · obtain rfl : row = (plain, [.one fun _ => true]) := by simpa using hrow
      intro piece hpiece
      obtain rfl : piece = .one fun _ => true := by simpa using hpiece
      exact ⟨0, rfl⟩
  have hmunch : ∀ tail closed, bodyScan isStop skip endOfInput plain rows ⟨b :: tail, closed⟩ =
      munch endOfInput (rows ++ [(plain, [.one fun _ => true])]) ⟨b :: tail, closed⟩ := by
    intro tail closed
    exact bodyScan_eq_munch (by simpa using hb)
  obtain ⟨hfound, hundecided⟩ := munch_starvesExactly endOfInput hlive (b :: rest)
  refine ⟨?_, ?_⟩
  · simpa only [List.cons_append, hmunch] using hfound
  · simpa only [List.cons_append, hmunch] using hundecided

theorem BodyTable.starvesExactly (h : BodyTable isStop skip rows) :
    BodyStarvesExactly rows plain (bodyScan isStop skip endOfInput plain rows) := by
  refine ⟨?_, ?_⟩
  · intro held hhead
    cases held with
    | nil => exact h.starvesExactly_nil
    | cons b rest => exact h.starvesExactly_stop ((h.stop_iff b).mpr (hhead b (by simp))) rest
  · intro b rest hb
    have hb' : isStop b = false := by
      rw [← h.stop_iff] at hb
      simpa using hb
    refine ⟨(b :: rest).findIdx isStop, h.plainRun _, h.scan_plain hb' _ _, ?_⟩
    intro more
    refine ⟨(b :: rest ++ more).findIdx isStop, h.scan_plain hb' _ _, ?_, ?_⟩
    · intro hlt
      rw [List.findIdx_append, if_pos hlt]
    · intro heq
      rw [List.findIdx_append, heq, if_neg (Nat.lt_irrefl _)]
      omega

end Body

/-! ## The skips of the four bodies -/

theorem skipUntil_length (isStop : UInt8 → Bool) (view : Lookahead) :
    (Cursor.skipUntil ⟨view, 0, false⟩ isStop).1 = view.bytes.findIdx isStop := by
  simp [Cursor.skipUntil_eq, Cursor.rest]

theorem skipStringBody_length (view : Lookahead) :
    (Cursor.skipStringBody ⟨view, 0, false⟩).1 = view.bytes.findIdx Byte.isStringStop := by
  rw [Cursor.skipStringBody_eq, skipUntil_length]

theorem skipTo_length (view : Lookahead) :
    (Cursor.skipTo ⟨view, 0, false⟩ '|'.toUInt8 '\r'.toUInt8 '\n'.toUInt8).1 =
      view.bytes.findIdx Byte.isQuotedStop := by
  have hstop : Byte.isQuotedStop = isOneOf '|'.toUInt8 '\r'.toUInt8 '\n'.toUInt8 := by
    funext b
    simp [Byte.isQuotedStop, Byte.isAny, isOneOf, Bool.or_assoc]
  rw [Cursor.skipTo_eq, skipUntil_length, hstop]

/-! ## The six tables -/

theorem isLive_of_rows {rows : List (ρ × Pattern)}
    (h : (rows.all fun row => row.2.isLive) = true) : ∀ row ∈ rows, row.2.IsLive :=
  fun row hrow => Pattern.isLive_of_check (List.all_eq_true.mp h row hrow)

/-- Tries all bytes for the stop bytes of a body. -/
theorem isStop_iff_of_range {rows : List (ρ × Pattern)} {isStop : UInt8 → Bool}
    (hlive : ∀ row ∈ rows, row.2.IsLive)
    (h : (List.range 256).all (fun n =>
      isStop (UInt8.ofNat n) == !(rowsAfter (UInt8.ofNat n) rows).isEmpty) = true) (b : UInt8) :
    isStop b = true ↔ StartsRule rows b := by
  have hb := Byte.forall_of_range (p := fun b => isStop b == !(rowsAfter b rows).isEmpty) h b
  rw [startsRule_iff hlive, beq_iff_eq.mp hb]
  simp

/-- What is to be evaluated of the table of a body: no pattern has a dead end, and the stop bytes
are those that some row starts with. -/
def checksBody (isStop : UInt8 → Bool) (rows : List (ρ × Pattern)) : Bool :=
  (rows.all fun row => row.2.isLive) &&
    (List.range 256).all fun n =>
      isStop (UInt8.ofNat n) == !(rowsAfter (UInt8.ofNat n) rows).isEmpty

theorem bodyTable_of_checks {isStop : UInt8 → Bool} {skip : Cursor → Nat × Cursor}
    {rows : List (ρ × Pattern)} (h : checksBody isStop rows = true)
    (hskip : ∀ view, (skip ⟨view, 0, false⟩).1 = view.bytes.findIdx isStop) :
    BodyTable isStop skip rows := by
  obtain ⟨hrows, hstops⟩ := (Bool.and_eq_true _ _).mp h
  have hlive := isLive_of_rows hrows
  exact ⟨hlive, isStop_iff_of_range hlive hstops, hskip⟩

/-- The six tables pass. -/
theorem tables_check :
    (TokenRule.rows.all fun row => row.2.isLive) = true ∧
    (HeaderRule.rows.all fun row => row.2.isLive) = true ∧
    checksBody Byte.isCommentStop CommentRule.rows = true ∧
    checksBody Byte.isStringStop StringRule.rows = true ∧
    checksBody Byte.isQuotedStop QuotedRule.rows = true ∧
    checksBody Byte.isQuotationStop QuotationRule.rows = true := by
  decide +kernel

theorem TokenRule.rows_live : ∀ row ∈ TokenRule.rows, row.2.IsLive :=
  isLive_of_rows tables_check.1

theorem HeaderRule.rows_live : ∀ row ∈ HeaderRule.rows, row.2.IsLive :=
  isLive_of_rows tables_check.2.1

theorem CommentRule.bodyTable :
    BodyTable Byte.isCommentStop (·.skipUntil Byte.isCommentStop) CommentRule.rows := by
  obtain ⟨-, -, h, -⟩ := tables_check
  exact bodyTable_of_checks h (skipUntil_length _)

theorem StringRule.bodyTable :
    BodyTable Byte.isStringStop Cursor.skipStringBody StringRule.rows := by
  obtain ⟨-, -, -, h, -⟩ := tables_check
  exact bodyTable_of_checks h skipStringBody_length

theorem QuotedRule.bodyTable :
    BodyTable Byte.isQuotedStop (·.skipTo '|'.toUInt8 '\r'.toUInt8 '\n'.toUInt8)
      QuotedRule.rows := by
  obtain ⟨-, -, -, -, h, -⟩ := tables_check
  exact bodyTable_of_checks h skipTo_length

theorem QuotationRule.bodyTable :
    BodyTable Byte.isQuotationStop (·.skipUntil Byte.isQuotationStop) QuotationRule.rows := by
  obtain ⟨-, -, -, -, -, h⟩ := tables_check
  exact bodyTable_of_checks h (skipUntil_length _)

/-! ## The six scans -/

theorem TokenRule.starvesExactly (held : List UInt8) : StarvesExactly TokenRule.scan held := by
  rw [scan_eq_munch]
  exact munch_starvesExactly _ rows_live held

theorem TokenRule.settles : Settles TokenRule.scan :=
  TokenRule.bounded.settles

theorem HeaderRule.starvesExactly (held : List UInt8) : StarvesExactly HeaderRule.scan held := by
  rw [scan_eq_munch]
  exact munch_starvesExactly _ rows_live held

theorem HeaderRule.settles : Settles HeaderRule.scan :=
  HeaderRule.bounded.settles

theorem CommentRule.starvesExactly : BodyStarvesExactly rows .plain CommentRule.scan := by
  rw [scan_eq_bodyScan]
  exact bodyTable.starvesExactly

theorem CommentRule.settles : Settles CommentRule.scan :=
  CommentRule.bounded.settles

theorem StringRule.starvesExactly : BodyStarvesExactly rows .plain StringRule.scan := by
  rw [scan_eq_bodyScan]
  exact bodyTable.starvesExactly

theorem StringRule.settles : Settles StringRule.scan :=
  StringRule.bounded.settles

theorem QuotedRule.starvesExactly : BodyStarvesExactly rows .plain QuotedRule.scan := by
  rw [scan_eq_bodyScan]
  exact bodyTable.starvesExactly

theorem QuotedRule.settles : Settles QuotedRule.scan :=
  QuotedRule.bounded.settles

theorem QuotationRule.starvesExactly : BodyStarvesExactly rows .plain QuotationRule.scan := by
  rw [scan_eq_bodyScan]
  exact bodyTable.starvesExactly

theorem QuotationRule.settles : Settles QuotationRule.scan :=
  QuotationRule.bounded.settles

/-- Every scan waits exactly where it has to, always answers on a complete source, and takes no more
than is held. -/
theorem scans_starve_exactly :
    (∀ held, StarvesExactly TokenRule.scan held) ∧ Settles TokenRule.scan ∧
    (∀ held, StarvesExactly HeaderRule.scan held) ∧ Settles HeaderRule.scan ∧
    BodyStarvesExactly CommentRule.rows .plain CommentRule.scan ∧ Settles CommentRule.scan ∧
    BodyStarvesExactly StringRule.rows .plain StringRule.scan ∧ Settles StringRule.scan ∧
    BodyStarvesExactly QuotedRule.rows .plain QuotedRule.scan ∧ Settles QuotedRule.scan ∧
    BodyStarvesExactly QuotationRule.rows .plain QuotationRule.scan ∧
      Settles QuotationRule.scan :=
  ⟨TokenRule.starvesExactly, TokenRule.settles, HeaderRule.starvesExactly, HeaderRule.settles,
    CommentRule.starvesExactly, CommentRule.settles, StringRule.starvesExactly, StringRule.settles,
    QuotedRule.starvesExactly, QuotedRule.settles, QuotationRule.starvesExactly,
    QuotationRule.settles⟩

end StreamLexer
