import StreamLexer.Proofs.Scan.Probes

/-!
# The scan of source code follows its table

What the arm of each first byte finds, and that these are the rows which the byte leaves of the
table. An arm with several candidates is put together from its probes; where it looks at bytes that
another probe has seen already, as numbers and stars do, the second look asks for nothing new.
`TokenRule.scan_eq_munch` collects the arms: the scan is the maximal munch over the table, and it
starves exactly where that waits.
-/
namespace StreamLexer

namespace Matcher

open TokenRule (mark operator)

variable {ρ : Type} {on : Lookahead → Prop} {best : Longest TokenRule}

/-! ## Probes -/

theorem labelLength_finds : Finds on labelLength 1
    ([[.one Byte.isLower, .many Byte.isIdent, .char ':']].map ((), ·)) asLength :=
  .need [((), [.many Byte.isIdent, .char ':'])] (runThen_finds (fun _ => rfl) (by decide +kernel))
    (fun _ _ => rfl) (List.cons_ne_nil _ _)

theorem prefixLength_finds : Finds on prefixLength 1
    ([[.one Byte.isSymbol, .many Byte.isSymbol]].map ((), ·)) asLength := by
  refine .someRun [((), [])] (fun _ _ => rfl) (fun len => .done () fun _ _ => ?_)
    (List.cons_ne_nil _ _) fun _ _ => rfl
  rw [if_pos (Nat.succ_pos len), pure_apply, show len + 1 + 1 = 1 + (len + 1) by omega]
  rfl

theorem illegalEscapeLength_finds : Finds on illegalEscapeLength 1
    ([[.char '\\', .one fun _ => true]].map ((), ·)) asLength := by
  refine .need [((), [.one fun _ => true])] ?_ (fun _ _ => rfl) (List.cons_ne_nil _ _)
  exact .peek (fun _ => .done () fun _ _ => rfl) (fun _ _ => rfl) rfl rfl

/-- What of a line directive stands behind its first byte. -/
def directiveTails : List Pattern :=
  let rest : Pattern :=
    [.one fun b => !Byte.isLineEnd b && !Byte.isDecimal b, .many fun b => !Byte.isLineEnd b]
  let number : Pattern :=
    [.many (Byte.isAny [' ', '\t']), .one Byte.isDecimal, .many Byte.isDecimal]
  [number ++ Pattern.lineEnd, number ++ rest ++ Pattern.lineEnd]

theorem lineDirectiveLength_finds :
    Finds on lineDirectiveLength 1 (directiveTails.map ((), ·)) asLength := by
  let tails : List (Unit × Pattern) :=
    [((), Pattern.lineEnd),
     ((), [.one fun b => !Byte.isLineEnd b && !Byte.isDecimal b,
      .many fun b => !Byte.isLineEnd b] ++ Pattern.lineEnd)]
  have hrest : ∀ stop, Finds (fun view => on view ∧ view.has stop Byte.isDecimal = false)
      (do
        let stop := stop + (← runLength stop fun b => !Byte.isLineEnd b)
        return (← lineEndLength stop).map (stop + ·)) stop tails asLength := by
    intro stop
    have hline : ∀ len, Finds (fun view => on view ∧ view.has stop Byte.isDecimal = false)
        (do return (← lineEndLength (stop + len)).map (stop + len + ·)) (stop + len)
        [((), Pattern.lineEnd)] asLength := by
      intro len
      refine .lineEnd [((), [])] [] (fun line => .done () fun _ _ => ?_) (.missed fun _ _ => rfl)
        (List.cons_ne_nil _ _) rfl fun _ _ => rfl
      rfl
    -- behind all of the digits the rest of the line is as good as any run
    have hdead : ∀ b, (!Byte.isLineEnd b) = true → rowsAfter b [((), Pattern.lineEnd)] = [] :=
      rowsAfter_of_deadOn (by decide +kernel)
    have hrun := Finds.runAll [((), Pattern.lineEnd)] hline (List.cons_ne_nil _ _) hdead
    refine hrun.byHead rfl rfl fun view b hview hb => ?_
    have hdecimal : Byte.isDecimal b = false := by simpa [Lookahead.has, hb] using hview.2
    rw [rowsAfter_many (hdead b)]
    have htails : tails = [((), Pattern.lineEnd)] ++ led (.one fun b =>
        !Byte.isLineEnd b && !Byte.isDecimal b) (led (.many fun b => !Byte.isLineEnd b)
          [((), Pattern.lineEnd)]) := rfl
    rw [htails, rowsAfter_append, rowsAfter_one]
    cases hline : Byte.isLineEnd b with
    | true => simp
    | false => simp [hdead b (by rw [hline]; rfl), hdecimal]
  refine .runAll (led (.one Byte.isDecimal) (led (.many Byte.isDecimal) tails)) (fun len => ?_)
    (List.cons_ne_nil _ _) (rowsAfter_of_deadOn (by decide +kernel))
  refine .someRun tails (fun _ _ => rfl) (fun len' => hrest _) (List.cons_ne_nil _ _)
    (rowsAfter_of_deadOn (by decide +kernel))

/-! ## Numbers -/

/-- What of an exponent stands behind its letter: a sign or none, then digits. -/
theorem exponentStop_finds {start digits : Nat} (hlt : start ≤ digits) :
    Finds on (exponentStop start digits) digits
      [((), [.one Byte.isDecimal, .many fun b => Byte.isDecimal b || b == '_'.toUInt8])]
      fun candidate => (((⟨(), start⟩ : Longest Unit).orLonger candidate).length, 0) := by
  refine .need [((), [.many fun b => Byte.isDecimal b || b == '_'.toUInt8])] ?_ (fun _ _ => rfl)
    (List.cons_ne_nil _ _)
  refine .runAll [((), [])] (fun len => .done () fun _ _ => ?_) (List.cons_ne_nil _ _)
    fun _ _ => rfl
  have hlonger : start < digits + 1 + len := by omega
  simp [pure_apply, Longest.orLonger, hlonger]

theorem afterExponent_finds (start : Nat) :
    Finds on (afterExponent start) start (Pattern.exponents.map ((), ·))
      fun candidate => (((⟨(), start⟩ : Longest Unit).orLonger candidate).length, 0) := by
  refine .need [((), .anyOf ['+', '-'] :: Pattern.digits Byte.isDecimal),
    ((), Pattern.digits Byte.isDecimal)] ?_ (fun _ _ => rfl) (List.cons_ne_nil _ _)
  exact .ite [((), Pattern.digits Byte.isDecimal)] [((), Pattern.digits Byte.isDecimal)]
    (exponentStop_finds (by omega)) (exponentStop_finds (by omega)) (List.cons_ne_nil _ _) rfl
    (rowsAfter_of_deadOn (by decide +kernel))

/-- What of a float stands behind the digits that it starts with. -/
def floatTails : List Pattern :=
  Pattern.fraction :: Pattern.exponents.map (Pattern.fraction ++ ·) ++ Pattern.exponents

theorem floatLength_finds (decimal : Nat) :
    Finds on (floatLength decimal) decimal (floatTails.map ((), ·))
      fun candidate => (((⟨(), decimal⟩ : Longest Unit).orLonger candidate).length, 0) := by
  let behind : List (Unit × Pattern) := ((), []) :: Pattern.exponents.map ((), ·)
  refine .ite (led (.many fun b => Byte.isDecimal b || b == '_'.toUInt8) behind)
    (Pattern.exponents.map ((), ·)) ?_ (afterExponent_finds _) (List.cons_ne_nil _ _) rfl
    (rowsAfter_of_deadOn (by decide +kernel))
  refine .runAll behind (fun len => ?_) (List.cons_ne_nil _ _)
    (rowsAfter_of_deadOn (by decide +kernel))
  exact .ended (fun best => (best.length, 0)) (Longest.orLonger_same _ (by omega))
    (afterExponent_finds _)

/-- What of an integer with a suffix stands behind its digits. -/
def suffixTails : List (TokenRule × Pattern) :=
  [(.word (.integer .int32), [.char 'l']),
   (.word (.integer .int64), [.char 'L']),
   (.word (.integer .native), [.char 'n'])]

theorem suffixed_finds (integer : Nat) :
    Finds on (suffixed best integer) integer suffixTails best.answer := by
  refine .peek (fun b => ?_) (fun _ _ => take_apply _ _ _ _) rfl rfl
  by_cases hl : (b == 'l'.toUInt8) = true
  · obtain rfl := eq_of_beq hl
    exact .done _ fun _ _ => take_apply _ _ _ _
  by_cases hL : (b == 'L'.toUInt8) = true
  · obtain rfl := eq_of_beq hL
    exact .done _ fun _ _ => take_apply _ _ _ _
  by_cases hn : (b == 'n'.toUInt8) = true
  · obtain rfl := eq_of_beq hn
    exact .done _ fun _ _ => take_apply _ _ _ _
  · have hrows : rowsAfter b suffixTails = [] := by
      simp [suffixTails, rowsAfter, Piece.char, Pattern.after, hl, hL, hn]
    have hsuffix : suffixType? b = none := by simp [suffixType?, hl, hL, hn]
    simp only [Option.bind_some, hsuffix, hrows]
    exact .missed fun _ _ => take_apply _ _ _ _

/-- The candidates that a number has behind its decimal digits. -/
def decimalTails : List (TokenRule × Pattern) :=
  (.word (.integer .int), []) :: floatTails.map (.word .float, ·) ++ suffixTails

/-- No letter stands behind a zero that begins the digits of a radix. -/
def NoRadix (view : Lookahead) : Prop :=
  view.has 0 (· == '0'.toUInt8) = true →
    ∀ c, (view.bytes.drop 1).head? = some c → radixDigit? c = none

theorem integerLength_apply {b : UInt8} {view : Lookahead} (hstart : StartsWith b view)
    (hradix : NoRadix view) (decimal : Nat) (starved : Bool) :
    integerLength decimal ⟨view, 0, starved⟩ = (decimal, ⟨view, 0, starved ||
      (!view.closed && (view.has 0 (· == '0'.toUInt8) && (view.bytes.drop 1).isEmpty))⟩) := by
  obtain ⟨bytes, hbytes⟩ := List.head?_eq_some_iff.mp hstart
  have hheld : (view.bytes.drop 0).isEmpty = false := by rw [hbytes]; rfl
  rw [integerLength, bind_apply, show isAt 0 '0' = isAtIn 0 (· == '0'.toUInt8) from rfl,
    isAtIn_apply, hheld]
  cases hzero : view.has 0 (· == '0'.toUInt8) with
  | false => simp [pure_apply]
  | true =>
    have hnone : (view.bytes.drop 1).head?.bind radixDigit? = none :=
      Option.bind_eq_none_iff.mpr (hradix hzero)
    simp only [Bool.and_false, Bool.or_false, if_true, bind_apply, peekAt_apply, hnone]
    simp [pure_apply]

/-- Where no radix follows, the digits are those of a decimal integer. The look for a radix is one
that the digits have taken already. -/
theorem integerLength_finds {b : UInt8} {decimal : Nat} {k : Nat → Matcher ρ}
    {rows : List (ρ × Pattern)} {answer : Option (ρ × Nat) → ρ × Nat} (hpos : 0 < decimal)
    (hend : firstEnding? rows = none) (hrows : exhausted rows = false)
    (h : Finds (fun view => StartsWith b view ∧ NoRadix view) (k decimal) decimal rows answer) :
    Finds (fun view => StartsWith b view ∧ NoRadix view) (integerLength decimal >>= k) decimal rows
      answer := by
  intro view hview starved
  rw [bind_apply, integerLength_apply hview.1 hview.2]
  cases hempty : view.has 0 (· == '0'.toUInt8) && (view.bytes.drop 1).isEmpty with
  | false => simpa using h view hview starved
  | true =>
    have hdrop : view.bytes.drop decimal = [] := by
      have hone := (Bool.and_eq_true_iff.mp hempty).2
      rw [List.isEmpty_iff, List.drop_eq_nil_iff] at hone
      exact List.drop_eq_nil_iff.mpr (Nat.le_trans hone hpos)
    rw [Bool.and_true, h view hview, hdrop, found_at_end hend hrows, found_at_end hend hrows,
      Bool.or_assoc, Bool.or_self]

/-- A candidate may be offered with its length alone. -/
theorem offer_length (rule rule' : ρ) (n : Nat) (candidate : Option (Unit × Nat)) :
    (⟨rule, n⟩ : Longest ρ).offer rule'
        (some ((⟨(), n⟩ : Longest Unit).orLonger candidate).length) =
      (⟨rule, n⟩ : Longest ρ).orLonger (candidate.map (Prod.map (fun _ => rule') id)) := by
  rcases candidate with _ | ⟨-, length⟩
  · simp [Longest.offer, Longest.orLonger]
  · by_cases h : n < length <;> simp [Longest.offer, Longest.orLonger, h]

theorem number_finds {b : UInt8} : Finds (fun view => StartsWith b view ∧ NoRadix view) number 1
    (led (.many fun b => Byte.isDecimal b || b == '_'.toUInt8) decimalTails)
    (Longest.answer ⟨.word (.integer .int), 1⟩) := by
  refine .runAll decimalTails (fun len => ?_) (List.cons_ne_nil _ _)
    (rowsAfter_of_deadOn (by decide +kernel))
  refine .ended (fun best => (best.rule, best.length)) (Longest.orLonger_same _ (by omega)) ?_
  refine integerLength_finds (by omega) rfl rfl ?_
  have h : Finds (fun view => StartsWith b view ∧ NoRadix view)
      (do suffixed (Longest.offer ⟨.word (.integer .int), 1 + len⟩ (.word .float)
        (some (← floatLength (1 + len)))) (1 + len)) (1 + len)
      ((floatTails.map ((), ·)).map (Prod.map (fun _ => TokenRule.word .float) id) ++ suffixTails)
      (Longest.answer ⟨.word (.integer .int), 1 + len⟩) := by
    refine .offer (fun _ => TokenRule.word .float) (floatLength_finds (1 + len)) fun bytes => ?_
    rw [offer_length]
    exact suffixed_finds (1 + len)
  rw [List.map_map] at h
  exact h

/-- What of an integer stands behind a zero and the letter of a radix. -/
def radixTails (isDigit : UInt8 → Bool) : List (TokenRule × Pattern) :=
  led (.one isDigit) (led (.many fun b => isDigit b || b == '_'.toUInt8)
    ((.word (.integer .int), []) :: suffixTails))

/-- The lookaheads that start with a zero and the letter of a radix. -/
def StartsRadix (c : UInt8) (view : Lookahead) : Prop :=
  StartsWith '0'.toUInt8 view ∧ (view.bytes.drop 1).head? = some c

/-- A probe that no letter of a radix can satisfy finds nothing behind the zero. -/
theorem StartsRadix.missed {c : UInt8} {view : Lookahead} (hview : StartsRadix c view)
    (hc : (radixDigit? c).isSome = true) {α : Type} {m : Matcher α} {rows : List (ρ × Pattern)}
    {answer : Option (ρ × Nat) → α × Nat} (h : Finds (StartsRadix c) m 1 rows answer)
    (hend : firstEnding? rows = none)
    (hdead : deadOn (fun c => (radixDigit? c).isSome) rows = true) (starved : Bool) :
    m ⟨view, 0, starved⟩ = ((answer none).1, ⟨view, (answer none).2, starved⟩) := by
  have hnone : Finds (StartsRadix c) m 1 ([] : List (ρ × Pattern)) answer :=
    h.dead hend fun _ hview => ⟨c, hview.2, rowsAfter_of_deadOn hdead c hc⟩
  rw [hnone view hview, found_no_rows]

/-- The zero and the letter are held, so looks at them do not starve. -/
theorem StartsRadix.held {c : UInt8} {view : Lookahead} (hview : StartsRadix c view) :
    (view.bytes.drop 0).isEmpty = false ∧ (view.bytes.drop 1).isEmpty = false := by
  obtain ⟨bytes, hbytes⟩ := List.head?_eq_some_iff.mp hview.1
  obtain ⟨rest, hrest⟩ := List.head?_eq_some_iff.mp hview.2
  rw [hbytes, hrest]
  exact ⟨rfl, rfl⟩

theorem StartsRadix.integerLength {c : UInt8} {view : Lookahead} (hview : StartsRadix c view)
    {isDigit : UInt8 → Bool} (hc : radixDigit? c = some isDigit) (starved : Bool) :
    integerLength 1 ⟨view, 0, starved⟩ = (do
      if ← isAtIn 2 isDigit then
        return 3 + (← runLength 3 fun b => isDigit b || b == '_'.toUInt8)
      else return 1) ⟨view, 0, starved⟩ := by
  have hstart : view.has 0 (· == '0'.toUInt8) = true :=
    Lookahead.has_iff.mpr ⟨_, hview.1, by simp⟩
  rw [Matcher.integerLength, bind_apply, show isAt 0 '0' = isAtIn 0 (· == '0'.toUInt8) from rfl,
    isAtIn_apply, hview.held.1, hstart]
  simp only [if_true, Bool.and_false, Bool.or_false]
  rw [bind_apply, peekAt_apply, hview.held.2, hview.2]
  simp only [Option.bind_some, hc, Bool.and_false, Bool.or_false]

/-- Behind a zero and the letter of a radix there can only be an integer in this radix. -/
theorem radixNumber_apply {c : UInt8} {isDigit : UInt8 → Bool} (hc : radixDigit? c = some isDigit)
    {view : Lookahead} (hview : StartsRadix c view) (starved : Bool) :
    number ⟨view, 0, starved⟩ = (do
      if ← isAtIn 2 isDigit then
        let integer := 3 + (← runLength 3 fun b => isDigit b || b == '_'.toUInt8)
        suffixed ⟨.word (.integer .int), integer⟩ integer
      else accept ⟨.word (.integer .int), 1⟩) ⟨view, 0, starved⟩ := by
  have hradix : (radixDigit? c).isSome = true := by rw [hc]; rfl
  -- the letter is none that the digits go on with, nor a fraction, an exponent or a suffix
  have hrun : ∀ starved, runLength 1 (fun b => Byte.isDecimal b || b == '_'.toUInt8)
      ⟨view, 0, starved⟩ = (0, ⟨view, 0, starved⟩) := by
    intro starved
    have hdigits : (Byte.isDecimal c || c == '_'.toUInt8) = false := by
      have h := Byte.forall_of_range (p := fun c => !(radixDigit? c).isSome ||
        !(Byte.isDecimal c || c == '_'.toUInt8)) (by decide +kernel) c
      simpa [hradix] using h
    obtain ⟨rest, hrest⟩ := List.head?_eq_some_iff.mp hview.2
    simp [runLength_apply, hrest, hdigits]
  have hfloat : ∀ starved, floatLength 1 ⟨view, 0, starved⟩ = (1, ⟨view, 0, starved⟩) :=
    hview.missed hradix (floatLength_finds 1) rfl (by decide +kernel)
  have hsuffixed : ∀ best starved,
      suffixed best 1 ⟨view, 0, starved⟩ = accept best ⟨view, 0, starved⟩ := by
    intro best starved
    rw [hview.missed hradix (suffixed_finds 1) rfl (by decide +kernel), accept_apply]
  have hbest : ∀ n, 1 ≤ n → Longest.offer ⟨.word (.integer .int), n⟩ (TokenRule.word .float)
      (some 1) = ⟨.word (.integer .int), n⟩ := by
    intro n hn
    have hle : ¬ n < 1 := by omega
    simp [Longest.offer, Longest.orLonger, hle]
  rw [number, bind_apply, hrun]
  simp only [Nat.add_zero]
  rw [bind_apply, hview.integerLength hc]
  simp only [bind_apply, isAtIn_apply]
  cases hdigit : view.has 2 isDigit with
  | true =>
    simp only [if_true, bind_apply, pure_apply, runLength_apply, hfloat]
    rw [hbest _ (by omega)]
  | false =>
    simp only [Bool.false_eq_true, if_false, pure_apply, hfloat]
    rw [hbest 1 (Nat.le_refl 1), hsuffixed]

/-- The letter of a radix is one of six. -/
theorem radixDigit?_cases {p : UInt8 → (UInt8 → Bool) → Prop} {c : UInt8} {isDigit : UInt8 → Bool}
    (hc : radixDigit? c = some isDigit) (hx : p 'x'.toUInt8 Byte.isHex)
    (hX : p 'X'.toUInt8 Byte.isHex)
    (ho : p 'o'.toUInt8 Byte.isOctal) (hO : p 'O'.toUInt8 Byte.isOctal)
    (hb : p 'b'.toUInt8 Byte.isBinary) (hB : p 'B'.toUInt8 Byte.isBinary) : p c isDigit := by
  have hany : ∀ {x y : Char}, Byte.isAny [x, y] c = true → c = x.toUInt8 ∨ c = y.toUInt8 := by
    intro x y h
    simpa [Byte.isAny] using h
  unfold radixDigit? at hc
  split at hc
  · cases hc
    rcases hany ‹_› with rfl | rfl <;> assumption
  split at hc
  · cases hc
    rcases hany ‹_› with rfl | rfl <;> assumption
  split at hc
  · cases hc
    rcases hany ‹_› with rfl | rfl <;> assumption
  · cases hc

theorem radixNumber_finds {c : UInt8} {isDigit : UInt8 → Bool} (hc : radixDigit? c = some isDigit)
    (hdead : deadOn (fun b => isDigit b || b == '_'.toUInt8) suffixTails = true) :
    Finds (StartsRadix c) number 2 (radixTails isDigit)
      (Longest.answer ⟨.word (.integer .int), 1⟩) := by
  refine .congr ?_ fun view hview starved => radixNumber_apply hc hview starved
  refine .need (led (.many fun b => isDigit b || b == '_'.toUInt8)
    ((.word (.integer .int), []) :: suffixTails)) ?_ (accept_apply _) (List.cons_ne_nil _ _)
  refine .runAll ((.word (.integer .int), []) :: suffixTails) (fun len => ?_)
    (List.cons_ne_nil _ _) fun b hb => ?_
  · exact .ended (fun best => (best.rule, best.length)) (Longest.orLonger_same _ (by omega))
      (suffixed_finds _)
  · rw [rowsAfter_cons, rowsAfter_of_deadOn hdead b hb]
    rfl

/-! ## Words -/

/-- A run behind the first byte, which has been passed. -/
theorem advance_eatWhile {α : Type} (set : UInt8 → Bool) (k : Nat → Matcher α) (view : Lookahead)
    (starved : Bool) :
    (do
      advance 1
      k (← eatWhile set)) ⟨view, 0, starved⟩ = (do
      let n ← runLength 1 set
      advance (1 + n)
      k n) ⟨view, 0, starved⟩ := by
  have hrun : Cursor.runLength ⟨view, 1, starved⟩ 0 set =
      ((runLength 1 set ⟨view, 0, starved⟩).1,
        (runLength 1 set ⟨view, 0, starved⟩).2.advance 1) := by
    simp only [runLength, Cursor.runLength, Cursor.rest, Cursor.looked, Cursor.advance,
      Nat.zero_add, Nat.add_zero]
    split <;> rfl
  rw [bind_apply, bind_apply, bind_apply, bind_apply]
  simp only [advance, eatWhile, Cursor.eatWhile, Cursor.advance, Nat.zero_add] at hrun ⊢
  rw [hrun]
  simp only [Nat.add_assoc]

/-! ## Operators -/

theorem classLength_finds : Finds on classLength 1 [((), [.many Byte.isSymbol])]
    fun candidate => ((candidate.map (·.2)).getD 1, 0) :=
  .runAll [((), [])] (fun _ => .done () fun _ _ => rfl) (List.cons_ne_nil _ _) fun _ _ => rfl

/-- An operator is there in any case. -/
theorem offerClass {rule : TokenRule} {k : Nat → Matcher TokenRule}
    {tails : List (TokenRule × Pattern)}
    (hk : ∀ length, Finds on (k length) 1 tails (best.offer rule (some length)).answer) :
    Finds on (classLength >>= k) 1 ((rule, [.many Byte.isSymbol]) :: tails) best.answer := by
  refine .offer (fun _ => rule) classLength_finds fun bytes => ?_
  obtain ⟨candidate, hcandidate⟩ := Option.isSome_iff_exists.mp
    (longest?_isSome (n := 1) (show firstEnding? [((), [Piece.many Byte.isSymbol])] = _ from rfl)
      bytes)
  rw [hcandidate]
  exact hk candidate.2

/-- All operator characters are taken. -/
theorem found_classes (rule : TokenRule) (n : Nat) (bytes : List UInt8) :
    longest? n [(rule, [Piece.many Byte.isSymbol])] bytes =
        some (rule, n + (bytes.takeWhile Byte.isSymbol).length) ∧
      goesOn [(rule, [Piece.many Byte.isSymbol])] bytes =
        (bytes.dropWhile Byte.isSymbol).isEmpty := by
  have hdead : ∀ b, Byte.isSymbol b = true → rowsAfter b [(rule, [])] = [] := fun _ _ => rfl
  have hlongest := longest?_run (n := n) hdead bytes
  have hgoes := goesOn_run hdead (List.cons_ne_nil _ _) bytes
  rw [longest?_ended] at hlongest
  rw [goesOn_ended, Bool.or_false] at hgoes
  exact ⟨hlongest, hgoes⟩

/-- The class of two stars takes the same bytes, if there is another star. -/
theorem found_stars (rule : TokenRule) (bytes : List UInt8) :
    longest? 1 [(rule, [.char '*', .many Byte.isSymbol])] bytes =
        (if bytes.head?.any (· == '*'.toUInt8) then
          some (rule, 1 + (bytes.takeWhile Byte.isSymbol).length) else none) ∧
      (goesOn [(rule, [.char '*', .many Byte.isSymbol])] bytes = true →
        (bytes.dropWhile Byte.isSymbol).isEmpty = true) := by
  have hend : firstEnding? [(rule, [Piece.char '*', .many Byte.isSymbol])] = none := rfl
  cases bytes with
  | nil => exact ⟨rfl, fun _ => rfl⟩
  | cons b bytes =>
    have hafter : rowsAfter b [(rule, [.char '*', .many Byte.isSymbol])] =
        if b == '*'.toUInt8 then [(rule, [.many Byte.isSymbol])] else [] :=
      rowsAfter_one (· == '*'.toUInt8) b [(rule, [.many Byte.isSymbol])]
    obtain ⟨hlongest, hgoes⟩ := found_classes rule 2 bytes
    rw [longest?, goesOn, hend, hafter]
    by_cases hb : (b == '*'.toUInt8) = true
    · have hsymbol : Byte.isSymbol b = true := by
        rw [eq_of_beq hb]
        rfl
      have hlen : 2 + (bytes.takeWhile Byte.isSymbol).length =
          1 + ((bytes.takeWhile Byte.isSymbol).length + 1) := by omega
      simp [hb, hlongest, hgoes, hsymbol, hlen]
    · simp [hb]

/-- Behind a star, two classes share the operator characters. -/
theorem starClasses_finds : Finds on (do
      let length ← classLength
      let best := if ← isAt 1 '*' then best.offer (operator .level4) (some length) else best
      accept (best.offer (operator .level3) (some length))) 1
    [(operator .level4, [.char '*', .many Byte.isSymbol]),
      (operator .level3, [.many Byte.isSymbol])]
    best.answer := by
  intro view _ starved
  have hlength : classLength ⟨view, 0, starved⟩ =
      (1 + ((view.bytes.drop 1).takeWhile Byte.isSymbol).length, ⟨view, 0, starved ||
        (!view.closed && ((view.bytes.drop 1).dropWhile Byte.isSymbol).isEmpty)⟩) := by
    rw [classLength, bind_apply, runLength_apply]
    rfl
  obtain ⟨hthird, hgoes⟩ := found_classes (operator .level3) 1 (view.bytes.drop 1)
  obtain ⟨hfourth, himp⟩ := found_stars (operator .level4) (view.bytes.drop 1)
  -- the look for the second star starves only where the run of operator characters does
  have hstarved : (starved || (!view.closed &&
        ((view.bytes.drop 1).dropWhile Byte.isSymbol).isEmpty) ||
        (!view.closed && (view.bytes.drop 1).isEmpty)) =
      (starved || (!view.closed &&
        (goesOn [(operator .level4, [.char '*', .many Byte.isSymbol])] (view.bytes.drop 1) ||
          ((view.bytes.drop 1).dropWhile Byte.isSymbol).isEmpty))) := by
    have hheld : (view.bytes.drop 1).isEmpty = true →
        ((view.bytes.drop 1).dropWhile Byte.isSymbol).isEmpty = true := by
      intro h
      rw [List.isEmpty_iff.mp h]
      rfl
    rw [Bool.or_assoc, ← Bool.and_or_distrib_left]
    grind
  rw [bind_apply, hlength, bind_apply, show isAt 1 '*' = isAtIn 1 (· == '*'.toUInt8) from rfl,
    isAtIn_apply, accept_apply, ← List.singleton_append, Lookahead.has]
  simp only [found, longest?_append, goesOn_append, hthird, hgoes, hfourth, Longest.answer,
    Longest.orLonger_longer?, hstarved]
  cases (view.bytes.drop 1).head?.any (· == '*'.toUInt8) <;> rfl

end Matcher

/-! ## Arms -/

/-- The arm finds the rows that the first byte leaves. -/
def FindsRest (b : UInt8) (m : Matcher TokenRule) : Prop :=
  Finds (StartsWith b) m 1 (rowsAfter b TokenRule.rows) (·.getD (.endOfInput, 0))

namespace FindsRest

open Matcher
open TokenRule (mark operator)

variable {b : UInt8} {c : Char} {rule : TokenRule} {set : UInt8 → Bool}

theorem single (hend : firstEnding? (rowsAfter b TokenRule.rows) = some rule)
    (hlive : live (rowsAfter b TokenRule.rows) = []) : FindsRest b (take rule 1) :=
  .arm _ hend hlive (.missed (take_apply _ _))

/-- The first byte and the bytes of a set behind it. -/
theorem run {m : Matcher TokenRule}
    (hm : ∀ view, StartsWith b view → ∀ starved, m ⟨view, 0, starved⟩ =
      (do take rule (1 + (← runLength 1 set))) ⟨view, 0, starved⟩)
    (hend : firstEnding? (rowsAfter b TokenRule.rows) = some rule)
    (hlive : live (rowsAfter b TokenRule.rows) = [(rule, [.many set])]) : FindsRest b m := by
  have h : Finds (StartsWith b) (do take rule (1 + (← runLength 1 set))) 1 [(rule, [.many set])]
      (Longest.answer ⟨rule, 1⟩) := by
    refine .runAll [(rule, [])] (fun len => ?_) (List.cons_ne_nil _ _) fun _ _ => rfl
    refine .ended (fun best => (best.rule, best.length)) (Longest.orLonger_same _ (by omega)) ?_
    exact .missed (take_apply _ _)
  exact .arm _ hend hlive (h.congr hm)

theorem fixed {texts : List (List Char × TokenRule)} {single : Punct}
    (htexts : ∀ text ∈ texts, text.1.head? = some c)
    (hend : firstEnding? (rowsAfter c.toUInt8 TokenRule.rows) = some (mark single))
    (hlive : live (rowsAfter c.toUInt8 TokenRule.rows) =
      texts.map (fun text => (text.2, Pattern.literal text.1.tail)) ++ []) :
    FindsRest c.toUInt8 (fixed texts single) :=
  .arm _ hend hlive (.spelled htexts fun _ => .accept)

theorem markOrClass {texts : List (List Char × TokenRule)} {single : Punct} {cls : OperatorClass}
    (htexts : ∀ text ∈ texts, text.1.head? = some c)
    (hend : firstEnding? (rowsAfter c.toUInt8 TokenRule.rows) = some (mark single))
    (hlive : live (rowsAfter c.toUInt8 TokenRule.rows) =
      texts.map (fun text => (text.2, Pattern.literal text.1.tail)) ++
        [(operator cls, [.many Byte.isSymbol])]) :
    FindsRest c.toUInt8 (markOrClass texts single cls) :=
  .arm _ hend hlive (.spelled htexts fun _ => offerClass fun _ => .accept)

theorem classOnly {cls : OperatorClass}
    (hend : firstEnding? (rowsAfter b TokenRule.rows) = some (operator cls))
    (hlive : live (rowsAfter b TokenRule.rows) = [(operator cls, [.many Byte.isSymbol])]) :
    FindsRest b (classOnly cls) :=
  .run (fun _ _ _ => rfl) hend hlive

theorem tilde : FindsRest '~'.toUInt8 tilde := by
  refine .arm (mark .tilde) rfl rfl ?_
  refine .offerLength _ (TokenRule.word .label) labelLength_finds fun _ => ?_
  exact .offerLength _ (operator .prefixOp) prefixLength_finds fun _ => .accept

theorem question : FindsRest '?'.toUInt8 question := by
  refine .arm (mark .question) rfl rfl ?_
  refine .spelled (by simp) fun _ => ?_
  refine .offerLength _ (TokenRule.word .optLabel) labelLength_finds fun _ => ?_
  exact .offerLength _ (operator .prefixOp) prefixLength_finds fun _ => .accept

theorem bang : FindsRest '!'.toUInt8 bang := by
  refine .arm (mark .bang) rfl rfl ?_
  refine .spelled (by simp) fun _ => ?_
  exact .offerLength _ (operator .prefixOp) prefixLength_finds fun _ => .accept

theorem star : FindsRest '*'.toUInt8 star := by
  refine .arm (mark .star) rfl rfl ?_
  exact .spelled (by simp) fun _ => starClasses_finds

theorem less : FindsRest '<'.toUInt8 less := by
  refine .arm (mark .less) rfl rfl ?_
  refine .spelled (by simp) fun _ => ?_
  refine .offerLength _ TokenRule.quotationOpen quotationOpenLength_finds fun _ => ?_
  exact offerClass fun _ => .accept

theorem brace : FindsRest '\x7b'.toUInt8 brace := by
  refine .arm (mark .lBrace) rfl rfl ?_
  refine .spelled (by simp) fun _ => ?_
  exact .offerLength _ TokenRule.quotedOpen quotedOpenLength_finds fun _ => .accept

theorem sharp : FindsRest '#'.toUInt8 sharp := by
  refine .arm (mark .sharp) rfl rfl ?_
  exact .offerLength _ TokenRule.lineDirective lineDirectiveLength_finds fun _ => .accept

theorem quote : FindsRest '\''.toUInt8 quote := by
  refine .arm (mark .quote) rfl rfl ?_
  refine .offer (fun form => TokenRule.word (charRule form)) charLiteral_finds fun bytes => ?_
  exact .offerLength _ (TokenRule.word .charIllegal) illegalEscapeLength_finds fun _ => .accept

theorem blank (hb : Byte.isBlank b = true)
    (hend : firstEnding? (rowsAfter b TokenRule.rows) = some .blank)
    (hlive : live (rowsAfter b TokenRule.rows) = [(.blank, [.many Byte.isBlank])]) :
    FindsRest b (skip .blank (·.eatWhile Byte.isBlank)) := by
  refine .run (fun view hview starved => ?_) hend hlive
  obtain ⟨bytes, hbytes⟩ := List.head?_eq_some_iff.mp hview
  have hrun := runLength_apply view starved 0 Byte.isBlank
  simp only [hbytes, List.takeWhile_cons, List.dropWhile_cons, hb, if_true, List.length_cons,
    ← drop_succ hbytes] at hrun
  rw [bind_apply, runLength_apply, take_apply, skip, bind_apply, Cursor.eatWhile,
    show Cursor.runLength _ 0 _ = _ from hrun]
  simp [pure_apply, Cursor.advance, Nat.add_comm]

theorem identifier {rule : WordRule}
    (hend : firstEnding? (rowsAfter b TokenRule.rows) = some (.word rule))
    (hlive : live (rowsAfter b TokenRule.rows) = [(.word rule, [.many Byte.isIdent])]) :
    FindsRest b (identifier rule) := by
  refine .run (fun view hview starved => ?_) hend hlive
  rw [Matcher.identifier, advance_eatWhile]
  rfl

theorem underscore : FindsRest '_'.toUInt8 underscore := by
  refine .arm (mark .underscore) rfl rfl (.congr ?_ fun view _ starved => advance_eatWhile _ _ _ _)
  refine .runAll [(TokenRule.word .lower, [])] (fun len => .done _ fun view starved => ?_)
    (List.cons_ne_nil _ _) fun _ _ => rfl
  have hlonger : 1 < 1 + len ↔ 0 < len := by omega
  by_cases h : 0 < len
  · simp [Longest.answer, Longest.orLonger, bind_apply, advance, Cursor.advance, pure_apply,
      hlonger, h]
  · obtain rfl : len = 0 := by omega
    rfl

theorem digit (hend : firstEnding? (rowsAfter b TokenRule.rows) = some (.word (.integer .int)))
    (hlive : live (rowsAfter b TokenRule.rows) =
      led (.many fun b => Byte.isDecimal b || b == '_'.toUInt8) decimalTails)
    (hb : (b == '0'.toUInt8) = false) : FindsRest b number := by
  refine .arm _ hend hlive (number_finds.weaken fun view hview => ⟨hview, fun hzero => ?_⟩)
  obtain ⟨c, hc, heq⟩ := Lookahead.has_iff.mp hzero
  obtain rfl : b = c := Option.some.inj (hview.symm.trans hc)
  rw [hb] at heq
  cases heq

/-- Behind a zero there may be the letter of a radix; the rows without it take a zero themselves. -/
theorem zero : FindsRest '0'.toUInt8 number := by
  refine .arm (.word (.integer .int)) rfl rfl ?_
  intro view hview starved
  cases hradix : (view.bytes.drop 1).head?.bind radixDigit? with
  | none =>
    have hdecimal : ∀ c, (radixDigit? c).isNone = true →
        rowsAfter c (live (rowsAfter '0'.toUInt8 TokenRule.rows)) =
          rowsAfter c (led (.many fun b => Byte.isDecimal b || b == '_'.toUInt8) decimalTails) := by
      have hdead : ∀ c, (radixDigit? c).isNone = true →
          rowsAfter c ((live (rowsAfter '0'.toUInt8 TokenRule.rows)).filter fun row =>
            !!(row.2.after '0'.toUInt8).isEmpty) = [] := rowsAfter_of_deadOn (by decide +kernel)
      exact fun c hc => rowsAfter_filter _ (hdead c hc)
    have h : Finds (fun view => StartsWith '0'.toUInt8 view ∧ NoRadix view) number 1
        (live (rowsAfter '0'.toUInt8 TokenRule.rows))
        (Longest.answer ⟨.word (.integer .int), 1⟩) := by
      refine number_finds.byHead rfl rfl fun view c hview hc => hdecimal c ?_
      rw [hview.2 (Lookahead.has_iff.mpr ⟨_, hview.1, by simp⟩) c hc]
      rfl
    exact h view ⟨hview, fun _ => Option.bind_eq_none_iff.mp hradix⟩ starved
  | some isDigit =>
    obtain ⟨c, hc, hdigit⟩ := Option.bind_eq_some_iff.mp hradix
    obtain ⟨bytes, hbytes⟩ := List.head?_eq_some_iff.mp hc
    have hrows : rowsAfter c (live (rowsAfter '0'.toUInt8 TokenRule.rows)) = radixTails isDigit ∧
        deadOn (fun b => isDigit b || b == '_'.toUInt8) suffixTails = true := by
      refine radixDigit?_cases (p := fun c isDigit =>
        rowsAfter c (live (rowsAfter '0'.toUInt8 TokenRule.rows)) = radixTails isDigit ∧
          deadOn (fun b => isDigit b || b == '_'.toUInt8) suffixTails = true) hdigit
        ?_ ?_ ?_ ?_ ?_ ?_
      all_goals exact ⟨rfl, by decide +kernel⟩
    rw [hbytes, found_cons_best rfl, ← drop_succ hbytes, hrows.1]
    exact radixNumber_finds hdigit hrows.2 view ⟨hview, hc⟩ starved

/-- Where only some rules can start with a byte, the others can be left out. -/
theorem rowsAfter_rules (set : UInt8 → Bool) (rules : List TokenRule)
    (hdead : deadOn set (TokenRule.rows.filter fun row => !rules.contains row.1) = true)
    (hb : set b = true) : rowsAfter b TokenRule.rows =
      rowsAfter b (TokenRule.rows.filter fun row => rules.contains row.1) :=
  rowsAfter_filter _ (rowsAfter_of_deadOn hdead b hb)

theorem lower (hb : Byte.isLower b = true) (hne : (b == '_'.toUInt8) = false) :
    FindsRest b (Matcher.identifier .lower) := by
  have hrows : rowsAfter b TokenRule.rows =
      [(.word .lower, [.many Byte.isIdent]), (.word .illegalByte, [])] := by
    have h : rowsAfter b _ = _ := rowsAfter_rules (fun b => Byte.isLower b && !(b == '_'.toUInt8))
      [.word .lower, .word .illegalByte] (by decide +kernel) (by simp [hb, hne])
    rw [h]
    show rowsAfter b [(TokenRule.word .lower, [.one Byte.isLower, .many Byte.isIdent]),
      (.word .illegalByte, [.one fun _ => true])] = _
    simp [rowsAfter, Pattern.after, hb]
  exact .identifier (by rw [hrows]; rfl) (by rw [hrows]; rfl)

theorem upper (hb : Byte.isUpper b = true) : FindsRest b (Matcher.identifier .upper) := by
  have hrows : rowsAfter b TokenRule.rows =
      [(.word .upper, [.many Byte.isIdent]), (.word .illegalByte, [])] := by
    have h := rowsAfter_rules Byte.isUpper [.word .upper, .word .illegalByte] (by decide +kernel) hb
    rw [h]
    show rowsAfter b [(TokenRule.word .upper, [.one Byte.isUpper, .many Byte.isIdent]),
      (.word .illegalByte, [.one fun _ => true])] = _
    simp [rowsAfter, Pattern.after, hb]
  exact .identifier (by rw [hrows]; rfl) (by rw [hrows]; rfl)

/-- The bytes that have an arm of their own. -/
def heads : List Char :=
  [' ', '\t', '\x0c', '\r', '\n', '_', '~', '?', '!', '0', '1', '2', '3', '4', '5', '6', '7', '8',
   '9', '"', '\'', '#', '(', '*', '<', '>', '|', '&', '=', '$', '@', '^', '+', '-', '%', '/', '[',
   '\x7b', ':', '.', ';', ')', ']', '\x7d', ',', '\x60']

theorem illegal (hheads : Char.ofUInt8 b ∉ heads) (hlower : Byte.isLower b = false)
    (hupper : Byte.isUpper b = false) : FindsRest b (take (.word .illegalByte) 1) := by
  have hrows : rowsAfter b TokenRule.rows = [(.word .illegalByte, [])] := by
    have h : rowsAfter b _ = _ := rowsAfter_rules
      (fun b => !heads.contains (Char.ofUInt8 b) && !Byte.isLower b && !Byte.isUpper b)
      [.word .illegalByte] (by decide +kernel) (by simp [hheads, hlower, hupper])
    rw [h]
    rfl
  exact .single (by rw [hrows]; rfl) (by rw [hrows]; rfl)

theorem sourceCode (b : UInt8) : FindsRest b (sourceCode b) := by
  unfold Matcher.sourceCode
  split
  all_goals try (rename_i heq; obtain rfl := Byte.eq_toUInt8 heq)
  case h_1 | h_2 | h_3 => exact .blank rfl rfl rfl
  case h_4 => exact return_finds rfl rfl
  case h_5 => exact newline_finds rfl rfl
  case h_6 => exact .underscore
  case h_7 => exact .tilde
  case h_8 => exact .question
  case h_9 => exact .bang
  case h_10 => exact .zero
  case h_11 | h_12 | h_13 | h_14 | h_15 | h_16 | h_17 | h_18 | h_19 => exact .digit rfl rfl rfl
  case h_20 => exact .single rfl rfl
  case h_21 => exact .quote
  case h_22 => exact .sharp
  case h_23 => exact .fixed (by simp) rfl rfl
  case h_24 => exact .star
  case h_25 => exact .less
  case h_26 | h_27 | h_28 | h_29 => exact .markOrClass (by simp) rfl rfl
  case h_30 | h_31 | h_32 => exact .classOnly rfl rfl
  case h_33 | h_34 | h_35 => exact .markOrClass (by simp) rfl rfl
  case h_36 => exact .classOnly rfl rfl
  case h_37 => exact .fixed (by simp) rfl rfl
  case h_38 => exact .brace
  case h_39 | h_40 | h_41 => exact .fixed (by simp) rfl rfl
  case h_42 | h_43 | h_44 | h_45 | h_46 => exact .single rfl rfl
  case h_47 =>
    have hheads : Char.ofUInt8 b ∉ heads := by
      intro h
      simp only [heads, List.mem_cons, List.not_mem_nil, or_false] at h
      repeat (rcases h with h | h; exact absurd h (by assumption))
      exact absurd h (by assumption)
    have hne : (b == '_'.toUInt8) = false := by
      rw [beq_eq_false_iff_ne]
      rintro rfl
      exact hheads (by decide)
    split
    case isTrue hlower => exact .lower hlower hne
    case isFalse hlower =>
    split
    case isTrue hupper => exact .upper hupper
    case isFalse hupper => exact .illegal hheads (by simpa using hlower) (by simpa using hupper)

end FindsRest

/-- The scan of source code is maximal munch by its table. -/
theorem TokenRule.scan_eq_munch : TokenRule.scan = munch .endOfInput rows := by
  funext view
  have h : Finds (fun _ => True) _ 0 TokenRule.rows _ :=
    .byFirst (fun b => (FindsRest.sourceCode b).weaken fun _ h => h.2) rfl rfl
  exact h.verdict_eq rfl trivial

theorem TokenRule.bounded : Bounded TokenRule.scan .endOfInput := by
  rw [scan_eq_munch]
  exact munch_bounded _ _

end StreamLexer
