import StreamLexer.Proofs.Scan.Matching

/-!
# Probes and arms

The probes that several scans share, each with the patterns whose words it measures; and how a scan
follows a table once the arm for each first byte finds the rows that this byte leaves.
-/
namespace StreamLexer

variable {ρ : Type}

/-! ## Openers -/

namespace Matcher

variable {on : Lookahead → Prop}

/-- A run, then a byte that is not in its set. -/
theorem runThen_finds {n : Nat} {set set' : UInt8 → Bool} {length : Nat → Nat}
    (hlength : ∀ len, length len = n + len + 1)
    (hdead : deadOn set [((), [Piece.one set'])] = true) :
    Finds on (do
      let len ← runLength n set
      if ← isAtIn (n + len) set' then return some (length len) else return none) n
      ([[.many set, .one set']].map ((), ·)) asLength := by
  have hthen : ∀ len, Finds on (do
      if ← isAtIn (n + len) set' then return some (length len) else return none) (n + len)
      [((), [.one set'])] asLength := fun len =>
    .need [((), [])] (.done () fun _ _ => by rw [hlength]; rfl) (fun _ _ => rfl)
      (List.cons_ne_nil _ _)
  exact .runAll [((), [.one set'])] hthen (List.cons_ne_nil _ _) (rowsAfter_of_deadOn hdead)

/-- What of the opener of a quoted string stands behind its first byte. -/
theorem quotedOpenLength_finds : Finds on quotedOpenLength 1
    ([[.many Byte.isLower, .char '|']].map ((), ·)) asLength :=
  runThen_finds (fun len => by omega) (by decide +kernel)

/-- What of a quotation opener stands behind its first byte. -/
def quotationTails : List Pattern :=
  [[.char ':', .many Byte.isIdent, .char '<'],
   [.char ':', .many Byte.isIdent, .char '@', .many Byte.isIdent, .char '<'],
   [.char '@', .many Byte.isIdent, .char '<']]

theorem quotationOpenLength_finds :
    Finds on quotationOpenLength 1 (quotationTails.map ((), ·)) asLength := by
  have hname : ∀ {on : Lookahead → Prop} n, Finds on (do
      let stop := n + (← runLength n Byte.isIdent)
      if ← isAt stop '<' then return some (stop + 1) else return none) n
      ([[.many Byte.isIdent, .char '<']].map ((), ·)) asLength := fun _ =>
    runThen_finds (fun _ => rfl) (by decide +kernel)
  refine .peek (fun b => ?_) (fun _ _ => rfl) rfl rfl
  by_cases hcolon : (b == ':'.toUInt8) = true
  · obtain rfl := eq_of_beq hcolon
    -- one name, or two of them
    have hnames : ∀ len, Finds (fun view => on view ∧ (view.bytes.drop 1).head? = some ':'.toUInt8)
        (do
          let stop := 2 + len
          if ← isAt stop '<' then return some (stop + 1)
          else if ← isAt stop '@' then
            let stop := stop + 1 + (← runLength (stop + 1) Byte.isIdent)
            if ← isAt stop '<' then return some (stop + 1) else return none
          else return none) (2 + len)
        [((), [.char '<']), ((), [.char '@', .many Byte.isIdent, .char '<'])] asLength := by
      intro len
      refine .ite [((), [])] _ (.done () fun _ _ => rfl) ?_ (List.cons_ne_nil _ _) rfl
        (rowsAfter_of_deadOn (by decide +kernel))
      exact .need [((), [.many Byte.isIdent, .char '<'])] (hname _) (fun _ _ => rfl)
        (List.cons_ne_nil _ _)
    exact .runAll _ hnames (List.cons_ne_nil _ _) (rowsAfter_of_deadOn (by decide +kernel))
  · by_cases hat : (b == '@'.toUInt8) = true
    · obtain rfl := eq_of_beq hat
      exact hname _
    · have hnone : rowsAfter b (quotationTails.map ((), ·)) = [] := by
        simp [quotationTails, rowsAfter, Piece.char, Pattern.after, hcolon, hat]
      simp only [hcolon, hat, if_false, Bool.false_eq_true, hnone]
      exact .missed fun _ _ => rfl

/-! ## Character literals -/

theorem pure_and (first : Bool) (second : Matcher Bool) :
    (pure first <&&> second) = if first then second else pure false := by
  cases first <;> rfl

/-- What of an escape between quotes stands behind its backslash. -/
def escapeTails : List (CharForm × Pattern) :=
  [(.namedEscape, [.one Byte.isNamedEscape, .char '\'']),
   (.decimalEscape, [.one Byte.isDecimal, .one Byte.isDecimal, .one Byte.isDecimal, .char '\'']),
   (.hexEscape, [.char 'x', .one Byte.isHex, .one Byte.isHex, .char '\''])]

/-- What of a character literal that is no line end stands behind the opening quote. -/
def onLineTails : List (CharForm × Pattern) :=
  (.plain, [.one fun b => !Byte.isAny ['\\', '\'', '\n', '\r'] b, .char '\'']) ::
    led (.char '\\') escapeTails

theorem escapedChar_finds (e : UInt8) :
    Finds on (escapedChar e) 3 (rowsAfter e escapeTails) fun form => (form, 0) := by
  obtain ⟨hnamed, hdecimal⟩ := Byte.escape_disjoint e
  unfold escapedChar
  simp only [pure_and]
  by_cases hn : Byte.isNamedEscape e = true
  · obtain ⟨hd, hx⟩ := hnamed hn
    have hrows : rowsAfter e escapeTails = [(.namedEscape, [.char '\''])] := by
      simp [escapeTails, rowsAfter, Pattern.after, Piece.char, hn, hd, hx]
    simp only [hn, hd, hx, hrows, if_true, if_false, Bool.false_eq_true, pure_bind]
    exact .need [(CharForm.namedEscape, [])] (.done _ fun _ _ => rfl) (fun _ _ => rfl)
      (List.cons_ne_nil _ _)
  by_cases hd : Byte.isDecimal e = true
  · have hx := hdecimal hd
    have hrows : rowsAfter e escapeTails =
        [(.decimalEscape, [.one Byte.isDecimal, .one Byte.isDecimal, .char '\''])] := by
      simp [escapeTails, rowsAfter, Pattern.after, Piece.char, hn, hd, hx]
    simp only [hn, hd, hx, hrows, if_true, if_false, Bool.false_eq_true, pure_bind]
    exact .all CharForm.decimalEscape [_, _, _] (fun _ _ => rfl) fun _ _ => rfl
  by_cases hx : (e == 'x'.toUInt8) = true
  · have hrows : rowsAfter e escapeTails =
        [(.hexEscape, [.one Byte.isHex, .one Byte.isHex, .char '\''])] := by
      simp [escapeTails, rowsAfter, Pattern.after, Piece.char, hn, hd, hx]
    simp only [hn, hd, hx, hrows, if_true, if_false, Bool.false_eq_true, pure_bind]
    exact .all CharForm.hexEscape [_, _, _] (fun _ _ => rfl) fun _ _ => rfl
  · have hrows : rowsAfter e escapeTails = [] := by
      simp [escapeTails, rowsAfter, Pattern.after, Piece.char, hn, hd, hx]
    simp only [hn, hd, hx, hrows, if_false, Bool.false_eq_true, pure_bind]
    exact .missed fun _ _ => rfl

theorem charOnLine_finds : Finds on charOnLine 1 onLineTails fun form => (form, 0) := by
  refine .peek (fun b => ?_) (fun _ _ => rfl) rfl rfl
  by_cases hback : (b == '\\'.toUInt8) = true
  · obtain rfl := eq_of_beq hback
    exact .peek (fun e => escapedChar_finds e) (fun _ _ => rfl) rfl rfl
  have hescape : rowsAfter b (led (.char '\\') escapeTails) = [] := by
    rw [Piece.char, rowsAfter_one, if_neg hback]
  by_cases hnone : Byte.isAny ['\'', '\n', '\r'] b = true
  · have hrows : rowsAfter b onLineTails = [] := by
      have hany : Byte.isAny ['\\', '\'', '\n', '\r'] b = true := by
        rw [Byte.isAny, List.any_cons, ← Byte.isAny, hnone, Bool.or_true]
      rw [onLineTails, rowsAfter_cons, hescape]
      simp [Pattern.after, hany]
    simp only [hback, hnone, hrows, if_true, if_false, Bool.false_eq_true]
    exact .missed fun _ _ => rfl
  · have hrows : rowsAfter b onLineTails = [(.plain, [.char '\''])] := by
      have hany : Byte.isAny ['\\', '\'', '\n', '\r'] b = false := by
        rw [Byte.isAny, List.any_cons, ← Byte.isAny]
        simp [hback, hnone]
      rw [onLineTails, rowsAfter_cons, hescape]
      simp [Pattern.after, hany]
    simp only [hback, hnone, hrows, if_false, Bool.false_eq_true]
    exact .need [(CharForm.plain, [])] (.done _ fun _ _ => rfl) (fun _ _ => rfl)
      (List.cons_ne_nil _ _)

/-- What of a character literal stands behind the opening quote. -/
def charTails : List (CharForm × Pattern) :=
  (.newline, Pattern.lineEnd ++ [.char '\'']) :: onLineTails

theorem charLiteral_finds : Finds on charLiteral 1 charTails fun form => (form, 0) := by
  have hdead : ∀ b, Byte.isLineEnd b = true → rowsAfter b onLineTails = [] :=
    rowsAfter_of_deadOn (by decide +kernel)
  refine .lineEnd [(CharForm.newline, [.char '\''])] onLineTails (fun len => ?_) charOnLine_finds
    (List.cons_ne_nil _ _) rfl hdead
  refine .ite [(CharForm.newline, [])] [] (.done _ fun _ _ => ?_) ?_ (List.cons_ne_nil _ _) rfl
    fun _ _ => rfl
  · rw [pure_apply, show len + 1 + 2 = 1 + (len + 1) + 1 by omega]
  · -- what starts with a line end is no literal of another form
    refine charOnLine_finds.dead rfl ?_
    rintro view ⟨⟨-, h⟩, -⟩
    obtain ⟨b, hb, hset⟩ := Lookahead.has_iff.mp h
    exact ⟨b, hb, hdead b hset⟩

end Matcher

/-! ## Arms -/

/-- The rows that can take another byte. -/
def live (rows : List (ρ × Pattern)) : List (ρ × Pattern) :=
  rows.filter fun row => !row.2.isEmpty

theorem rowsAfter_live (b : UInt8) (rows : List (ρ × Pattern)) :
    rowsAfter b (live rows) = rowsAfter b rows := by
  induction rows with
  | nil => rfl
  | cons row rows ih =>
    obtain ⟨rule, pattern⟩ := row
    cases pattern <;> simp_all [live, rowsAfter_cons, Pattern.after]

theorem goesOn_live (rows : List (ρ × Pattern)) (bytes : List UInt8) :
    goesOn (live rows) bytes = goesOn rows bytes := by
  cases bytes with
  | nil =>
    induction rows with
    | nil => rfl
    | cons row rows ih =>
      obtain ⟨rule, pattern⟩ := row
      cases pattern <;> simp_all [live, goesOn, exhausted]
  | cons b bytes => rw [goesOn, goesOn, rowsAfter_live]

/-- A rule that ends here gives way to what is longer only. -/
theorem getD_longest? {n : Nat} {rows : List (ρ × Pattern)} {rule : ρ} {last : ρ × Nat}
    (hend : firstEnding? rows = some rule) (bytes : List UInt8) :
    (longest? n rows bytes).getD last =
      (⟨rule, n⟩ : Longest ρ).answer (longest? n (live rows) bytes) := by
  cases bytes with
  | nil => 
    cases h : firstEnding? (live rows) <;>
      simp [longest?, hend, h, Longest.answer, Longest.orLonger]
  | cons b bytes =>
    rw [longest?, longest?, rowsAfter_live, hend]
    cases hlonger : longest? (n + 1) (rowsAfter b rows) bytes with
    | none =>
      cases h : firstEnding? (live rows) <;> simp [Longest.answer, Longest.orLonger]
    | some found =>
      have hlt : n < found.2 := le_of_longest? hlonger
      simp [Longest.answer, Longest.orLonger, hlt]

/-- The rows that the first byte leaves are found by looking for those that can take more, the one
that has ended being there already. -/
theorem Finds.arm {on : Lookahead → Prop} {m : Matcher ρ} {n : Nat}
    {rows tails : List (ρ × Pattern)} {last : ρ × Nat} (rule : ρ)
    (hend : firstEnding? rows = some rule) (hlive : live rows = tails)
    (h : Finds on m n tails (Longest.answer ⟨rule, n⟩)) : Finds on m n rows (·.getD last) := by
  subst hlive
  intro view hview starved
  rw [h view hview starved]
  simp only [found, goesOn_live, getD_longest? hend]

/-- Where no row ends here, it makes no difference whether a rule that does is the best one so far
or is what is left if nothing is found. -/
theorem Finds.getD_iff {on : Lookahead → Prop} {m : Matcher ρ} {n : Nat}
    {rows : List (ρ × Pattern)} {rule : ρ} (hend : firstEnding? rows = none) :
    Finds on m n rows (·.getD (rule, n)) ↔ Finds on m n rows (Longest.answer ⟨rule, n⟩) := by
  have hanswer : ∀ bytes, (longest? n rows bytes).getD (rule, n) =
      (⟨rule, n⟩ : Longest ρ).answer (longest? n rows bytes) := by
    intro bytes
    cases hlongest : longest? n rows bytes with
    | none => rfl
    | some candidate => simp [Longest.answer, Longest.orLonger, lt_of_longest? hend hlongest]
  simp only [Finds, found, hanswer]

/-- Where a table is found from the start, the verdict is that of maximal munch. -/
theorem Finds.verdict_eq {on : Lookahead → Prop} {m : Matcher ρ} {rows : List (ρ × Pattern)}
    {last : ρ} (h : Finds on m 0 rows (·.getD (last, 0))) (hend : firstEnding? rows = none)
    {view : Lookahead} (hview : on view) : m.verdict view = munch last rows view := by
  have hm := h view hview false
  rw [List.drop_zero] at hm
  rw [Matcher.verdict, hm, munch, munchFrom_eq _ (by simp [hend])]
  simp only [found, Bool.false_or]

/-- So it is where each first byte has an arm that finds the rows it leaves. -/
theorem Finds.byFirst {on : Lookahead → Prop} {choose : UInt8 → Matcher ρ}
    {rows : List (ρ × Pattern)} {last : ρ}
    (hchoose : ∀ b, Finds (fun view => on view ∧ StartsWith b view) (choose b) 1 (rowsAfter b rows)
      (·.getD (last, 0)))
    (hend : firstEnding? rows = none) (hrows : exhausted rows = false) :
    Finds on (Matcher.byFirst last choose) 0 rows (·.getD (last, 0)) :=
  .peek hchoose (fun _ _ => rfl) hend hrows

/-! ## Line ends -/

namespace Matcher

variable {rows : List (ρ × Pattern)} {whole single : ρ} {last : ρ × Nat}

/-- A newline is a line end by itself. -/
theorem newline_finds (hend : firstEnding? rows = some whole) (hlive : live rows = []) :
    Finds (StartsWith '\n'.toUInt8) (lineEnd whole single) 1 rows (·.getD last) := by
  have h : Finds (StartsWith '\n'.toUInt8) (take whole 1) 1 [] (Longest.answer ⟨whole, 1⟩) :=
    .missed (take_apply _ _)
  refine .arm whole hend hlive (h.congr fun view hview starved => ?_)
  obtain ⟨bytes, hbytes⟩ := List.head?_eq_some_iff.mp hview
  have hhas : view.has 0 (· == '\n'.toUInt8) = true := Lookahead.has_iff.mpr ⟨_, hview, by simp⟩
  rw [lineEnd, bind_lineEndLength, bind_apply, runLength_apply, hbytes]
  have hreturn : ('\n'.toUInt8 == '\r'.toUInt8) = false := by decide
  simp only [List.takeWhile_cons, List.dropWhile_cons, hreturn]
  simp [bind_apply, isAtIn_apply, hhas, hbytes, takeOr]

/-- A carriage return starts one if there is a newline behind it. -/
theorem return_finds (hend : firstEnding? rows = some single)
    (hlive : live rows = [(whole, Pattern.lineEnd)]) :
    Finds (StartsWith '\r'.toUInt8) (lineEnd whole single) 1 rows (·.getD last) := by
  have hstart : Finds (StartsWith '\r'.toUInt8) (lineEnd whole single) 0 [(whole, Pattern.lineEnd)]
      (·.getD (single, 1)) := by
    refine .lineEnd [(whole, [])] [] (fun line => .done whole fun _ _ => ?_)
      (.missed (take_apply _ _)) (List.cons_ne_nil _ _) rfl fun _ _ => rfl
    rw [Nat.zero_add]
    exact take_apply _ _ _ _
  have h : Finds (StartsWith '\r'.toUInt8) (lineEnd whole single) 1 [(whole, Pattern.lineEnd)]
      (·.getD (single, 1)) := by
    intro view hview starved
    obtain ⟨bytes, hbytes⟩ := List.head?_eq_some_iff.mp hview
    rw [hstart view hview starved, hbytes, found_cons rfl, drop_succ hbytes]
    rfl
  exact .arm single hend hlive ((Finds.getD_iff rfl).mp h)

end Matcher

end StreamLexer
