import StreamLexer.Proofs.Scan.Probes

/-!
# The scans of bodies and of the header follow their tables

The arms of the scans inside comments, strings, quoted strings and quotations, for the bytes that
start a rule; every other byte is skipped with the plain bytes behind it, without a look past what
is held. Each of these scans is `bodyScan` over its table (`CommentRule.scan_eq_bodyScan` and so
on), and that of the header is a maximal munch, `HeaderRule.scan_eq_munch`.
-/
namespace StreamLexer

variable {ρ : Type} {on : Lookahead → Prop}

/-! ## Forms that several bodies share -/

namespace Matcher

/-- What has been found is moved over at once. Without it the first byte stands alone. -/
theorem takeOr_finds {σ α : Type} {rows : List (σ × Pattern)} {probe : Matcher α}
    {f : Option (σ × Nat) → α} (g : α → Option (ρ × Nat)) (name : σ → ρ) (single : ρ)
    (hprobe : Finds on probe 1 rows fun candidate => (f candidate, 0))
    (hend : firstEnding? rows = none)
    (hg : ∀ candidate, g (f candidate) = candidate.map (Prod.map name id)) :
    Finds on (do takeOr single (g (← probe))) 1 (rows.map (Prod.map name id))
      (Longest.answer ⟨single, 1⟩) := by
  have hk : ∀ bytes, Finds on (takeOr single (g (f (longest? 1 rows bytes)))) 1 []
      (Longest.answer (Longest.orLonger ⟨single, 1⟩
        ((longest? 1 rows bytes).map (Prod.map name id)))) := by
    intro bytes
    rw [hg]
    cases hlongest : longest? 1 rows bytes with
    | none => exact .missed (take_apply _ _)
    | some candidate =>
      have hlt := lt_of_longest? hend hlongest
      refine .missed fun _ _ => ?_
      simp [takeOr, take_apply, Longest.answer, Longest.orLonger, hlt]
  have h : Finds on (probe >>= fun answer => takeOr single (g answer)) 1
      (rows.map (Prod.map name id) ++ []) (Longest.answer ⟨single, 1⟩) :=
    .offer name hprobe hk
  rwa [List.append_nil] at h

theorem takeLengthOr_finds {patterns : List Pattern} {probe : Matcher (Option Nat)}
    (rule single : ρ) (hprobe : Finds on probe 1 (patterns.map ((), ·)) asLength)
    (hend : firstEnding? (patterns.map ((), ·)) = none) :
    Finds on (do takeOr single ((← probe).map (rule, ·))) 1 (patterns.map (rule, ·))
      (Longest.answer ⟨single, 1⟩) := by
  have h := takeOr_finds (fun length? => length?.map (rule, ·)) (fun _ => rule) single hprobe hend
    fun candidate => by
      rw [Option.map_map]
      rfl
  rw [List.map_map] at h
  exact h

theorem pair_finds (second : Char) (both single : ρ) :
    Finds on (pair second both single) 1 [(both, [.char second])] (Longest.answer ⟨single, 1⟩) :=
  .need [(both, [])] (.done both (take_apply _ _)) (take_apply _ _) (List.cons_ne_nil _ _)

end Matcher

/-- A scan is that of a body if its arms for the bytes that start a rule find the rows, and it skips
plain bytes. -/
theorem verdict_eq_bodyScan {isStop : UInt8 → Bool} {move : Cursor → Nat × Cursor} {last plain : ρ}
    {rows : List (ρ × Pattern)} {choose : UInt8 → Matcher ρ}
    (hstop : ∀ b, isStop b = true → Finds (StartsWith b) (choose b) 1
      (rowsAfter b (rows ++ [(plain, [.one fun _ => true])])) (·.getD (last, 0)))
    (hplain : ∀ b, isStop b = false → choose b = Matcher.skip plain move)
    (hmove : ∀ c, (move c).2 = c.advance (move c).1) (hend : firstEnding? rows = none) :
    (Matcher.byFirst last choose).verdict = bodyScan isStop move last plain rows := by
  funext view
  have hends : firstEnding? (rows ++ [(plain, [.one fun _ => true])]) = none := by
    rw [firstEnding?_append, hend]
    rfl
  have hrows : exhausted (rows ++ [(plain, [.one fun _ => true])]) = false := by
    simp [exhausted]
  rw [bodyScan]
  cases hbytes : view.bytes with
  | nil =>
    have hchoose : ∀ b, Finds (fun view => view.bytes = [] ∧ StartsWith b view) (choose b) 1
        (rowsAfter b (rows ++ [(plain, [.one fun _ => true])])) (·.getD (last, 0)) := by
      rintro b view ⟨hnil, hstart⟩
      rw [StartsWith, hnil] at hstart
      cases hstart
    exact (Finds.byFirst hchoose hends hrows).verdict_eq hends hbytes
  | cons b bytes =>
    cases hb : isStop b with
    | true =>
      have hchoose : ∀ b', Finds (fun view => StartsWith b view ∧ StartsWith b' view) (choose b') 1
          (rowsAfter b' (rows ++ [(plain, [.one fun _ => true])])) (·.getD (last, 0)) := by
        rintro b' view ⟨hstart, hstart'⟩
        obtain rfl : b = b' := Option.some.inj (hstart.symm.trans hstart')
        exact hstop b hb view hstart'
      have hstart : StartsWith b view := by simp [StartsWith, hbytes]
      show _ = if isStop b = true then _ else _
      rw [if_pos hb]
      exact (Finds.byFirst hchoose hends hrows).verdict_eq hends hstart
    | false =>
      have hskip : Matcher.byFirst last choose ⟨view, 0, false⟩ =
          Matcher.skip plain move ⟨view, 0, false⟩ := by
        rw [Matcher.byFirst, Matcher.bind_apply, Matcher.peekAt_apply, hbytes]
        simp [hplain b hb]
      simp only [Matcher.verdict, hskip, Matcher.skip, Matcher.bind_apply, hmove, Cursor.advance,
        Matcher.pure_apply, Nat.zero_add, hb, Bool.false_eq_true, if_false]

/-! ## Comments -/

namespace Matcher

theorem commentQuote_finds : Finds on commentQuote 1
    ((.char, [.char '\'']) :: charTails.map (Prod.map commentCharRule id))
    (Longest.answer ⟨.plain, 1⟩) := by
  refine .ite [(CommentRule.char, [])] (charTails.map (Prod.map commentCharRule id))
    (.done _ (take_apply _ _)) ?_ (List.cons_ne_nil _ _) rfl
    (rowsAfter_of_deadOn (by decide +kernel))
  exact takeOr_finds _ commentCharRule .plain charLiteral_finds rfl fun _ => rfl

theorem comment_finds {b : UInt8} (hb : Byte.isCommentStop b = true) :
    Finds (StartsWith b) (comment b) 1
      (rowsAfter b (CommentRule.rows ++ [(.plain, [.one fun _ => true])]))
      (·.getD (.endOfInput, 0)) := by
  have hstops : b ∈ ['(', '*', '"', '\x7b', '\'', '\r', '\n'].map Char.toUInt8 := by
    simpa [Byte.isCommentStop, Byte.isAny] using hb
  simp only [List.map_cons, List.map_nil, List.mem_cons, List.not_mem_nil, or_false] at hstops
  rcases hstops with rfl | rfl | rfl | rfl | rfl | rfl | rfl
  · exact .arm .plain rfl rfl (pair_finds _ _ _)
  · exact .arm .plain rfl rfl (pair_finds _ _ _)
  · exact .arm .stringOpen rfl rfl (.missed (take_apply _ _))
  · exact .arm .plain rfl rfl (takeLengthOr_finds _ _ quotedOpenLength_finds rfl)
  · exact .arm .plain rfl rfl commentQuote_finds
  · exact return_finds rfl rfl
  · exact newline_finds rfl rfl

/-! ## Quoted strings -/

theorem bar_finds : Finds on bar 1 [(.terminator, [.many Byte.isLower, .char '\x7d'])]
    (Longest.answer ⟨.plain, 1⟩) := by
  refine .runAll [(QuotedRule.terminator, [.char '\x7d'])] (fun len => ?_) (List.cons_ne_nil _ _)
    (rowsAfter_of_deadOn (by decide +kernel))
  refine .need [(QuotedRule.terminator, [])] (.done _ fun _ _ => ?_) (take_apply _ _)
    (List.cons_ne_nil _ _)
  have hlonger : 1 < 1 + len + 1 := by omega
  simp [take_apply, Longest.answer, Longest.orLonger, hlonger, show len + 2 = 1 + len + 1 by omega]

theorem quoted_finds {b : UInt8} (hb : Byte.isQuotedStop b = true) :
    Finds (StartsWith b) (quoted b) 1
      (rowsAfter b (QuotedRule.rows ++ [(.plain, [.one fun _ => true])]))
      (·.getD (.endOfInput, 0)) := by
  have hstops : b ∈ ['|', '\r', '\n'].map Char.toUInt8 := by
    simpa [Byte.isQuotedStop, Byte.isAny] using hb
  simp only [List.map_cons, List.map_nil, List.mem_cons, List.not_mem_nil, or_false] at hstops
  rcases hstops with rfl | rfl | rfl
  · exact .arm .plain rfl rfl bar_finds
  · exact return_finds rfl rfl
  · exact newline_finds rfl rfl

/-! ## Quotations -/

theorem quotation_finds {b : UInt8} (hb : Byte.isQuotationStop b = true) :
    Finds (StartsWith b) (quotation b) 1
      (rowsAfter b (QuotationRule.rows ++ [(.plain, [.one fun _ => true])]))
      (·.getD (.endOfInput, 0)) := by
  have hstops : b ∈ ['>', '<', '\r', '\n'].map Char.toUInt8 := by
    simpa [Byte.isQuotationStop, Byte.isAny] using hb
  simp only [List.map_cons, List.map_nil, List.mem_cons, List.not_mem_nil, or_false] at hstops
  rcases hstops with rfl | rfl | rfl | rfl
  · exact .arm .plain rfl rfl (pair_finds _ _ _)
  · exact .arm .plain rfl rfl (takeLengthOr_finds _ _ quotationOpenLength_finds rfl)
  · exact return_finds rfl rfl
  · exact newline_finds rfl rfl

/-! ## Strings -/

/-- What of an escape stands behind its backslash, if any other byte is one of a set. -/
def stringTails (set : UInt8 → Bool) : List (StringRule × Pattern) :=
  [(.namedEscape, [.one Byte.isNamedEscape]),
   (.decimalEscape, [.one Byte.isDecimal, .one Byte.isDecimal, .one Byte.isDecimal]),
   (.hexEscape, [.char 'x', .one Byte.isHex, .one Byte.isHex]),
   (.unknownEscape, [.one set])]

theorem stringEscape_finds (e : UInt8) :
    Finds on (stringEscape e) 2 (rowsAfter e (stringTails fun _ => true))
      (Longest.answer ⟨.plain, 1⟩) := by
  obtain ⟨hnamed, hdecimal⟩ := Byte.escape_disjoint e
  unfold stringEscape
  simp only [pure_and]
  by_cases hn : Byte.isNamedEscape e = true
  · obtain ⟨hd, hx⟩ := hnamed hn
    have hrows : rowsAfter e (stringTails fun _ => true) =
        [(.namedEscape, []), (.unknownEscape, [])] := by
      simp [stringTails, rowsAfter, Pattern.after, Piece.char, hn, hd, hx]
    rw [hrows, if_pos hn]
    refine .ended (fun best => (best.rule, best.length)) rfl ?_
    exact .done _ (take_apply _ _)
  by_cases hd : Byte.isDecimal e = true
  · have hx := hdecimal hd
    have hrows : rowsAfter e (stringTails fun _ => true) =
        [(.decimalEscape, [.one Byte.isDecimal, .one Byte.isDecimal]), (.unknownEscape, [])] := by
      simp [stringTails, rowsAfter, Pattern.after, Piece.char, hn, hd, hx]
    simp only [hn, hd, hx, hrows, if_true, if_false, Bool.false_eq_true, pure_bind]
    refine .endedLast [(StringRule.decimalEscape, [.one Byte.isDecimal, .one Byte.isDecimal])]
      (fun best => (best.rule, best.length)) rfl rfl ?_
    exact .all StringRule.decimalEscape [_, _] (take_apply _ _) (take_apply _ _)
  by_cases hx : (e == 'x'.toUInt8) = true
  · have hrows : rowsAfter e (stringTails fun _ => true) =
        [(.hexEscape, [.one Byte.isHex, .one Byte.isHex]), (.unknownEscape, [])] := by
      simp [stringTails, rowsAfter, Pattern.after, Piece.char, hn, hd, hx]
    simp only [hn, hd, hx, hrows, if_true, if_false, Bool.false_eq_true, pure_bind]
    refine .endedLast [(StringRule.hexEscape, [.one Byte.isHex, .one Byte.isHex])]
      (fun best => (best.rule, best.length)) rfl rfl ?_
    exact .all StringRule.hexEscape [_, _] (take_apply _ _) (take_apply _ _)
  · have hrows : rowsAfter e (stringTails fun _ => true) = [(.unknownEscape, [])] := by
      simp [stringTails, rowsAfter, Pattern.after, Piece.char, hn, hd, hx]
    simp only [hn, hd, hx, hrows, if_false, Bool.false_eq_true, pure_bind]
    exact .done _ (take_apply _ _)

/-- The blanks behind a line end go with it. -/
theorem blanks_finds {answer : Option (StringRule × Nat) → StringRule × Nat} {stop : Nat}
    (hanswer : ∀ len, answer (some (.lineContinuation, stop + len)) =
      (.lineContinuation, stop + len)) :
    Finds on (do
        let blanks ← runLength stop (Byte.isAny [' ', '\t'])
        take .lineContinuation (stop + blanks)) stop
      [(.lineContinuation, [.many (Byte.isAny [' ', '\t'])])] answer := by
  refine .runAll [(StringRule.lineContinuation, [])] (fun len => .done _ fun _ _ => ?_)
    (List.cons_ne_nil _ _) fun _ _ => rfl
  rw [take_apply, hanswer]

/-- The rule of a backslash before a line end. -/
def continuation : List (StringRule × Pattern) :=
  [(.lineContinuation, Pattern.lineEnd ++ [.many (Byte.isAny [' ', '\t'])])]

theorem continuation_finds : Finds (fun view => on view ∧ view.has 1 Byte.isLineEnd = true)
    backslash 1 continuation (·.getD (.unknownEscape, 2)) := by
  refine .lineEnd [(StringRule.lineContinuation, [.many (Byte.isAny [' ', '\t'])])] []
    (fun len => blanks_finds fun _ => rfl) ?_ (List.cons_ne_nil _ _) rfl fun _ _ => rfl
  -- without the newline, the line end is a byte like any other
  rintro view ⟨-, hline⟩ starved
  obtain ⟨e, he, hset⟩ := Lookahead.has_iff.mp hline
  obtain ⟨bytes, hbytes⟩ := List.head?_eq_some_iff.mp he
  have hescape : stringEscape e = take .unknownEscape 2 := by
    rcases Byte.isLineEnd_iff.mp hset with rfl | rfl <;> rfl
  dsimp only
  rw [bind_apply, peekAt_apply, hbytes, found_no_rows]
  simp [hescape, take_apply]

/-- Before a line end, the rows of the escapes add no more than an escape of two bytes. -/
theorem backslash_finds_lineEnd :
    Finds (fun view => on view ∧ view.has 1 Byte.isLineEnd = true) backslash 1
      (continuation ++ stringTails fun _ => true) (Longest.answer ⟨.plain, 1⟩) := by
  intro view hview starved
  obtain ⟨e, he, hset⟩ := Lookahead.has_iff.mp hview.2
  obtain ⟨bytes, hbytes⟩ := List.head?_eq_some_iff.mp he
  have hrows : rowsAfter e (stringTails fun _ => true) = [(.unknownEscape, [])] := by
    rcases Byte.isLineEnd_iff.mp hset with rfl | rfl <;> rfl
  have htails : longest? 1 (stringTails fun _ => true) (e :: bytes) = some (.unknownEscape, 2) ∧
      goesOn (stringTails fun _ => true) (e :: bytes) = false := by
    rw [longest?, goesOn, hrows, longest?_ended, goesOn_ended]
    exact ⟨rfl, rfl⟩
  have hanswer : (longest? 1 continuation (e :: bytes)).getD (.unknownEscape, 2) =
      (⟨.plain, 1⟩ : Longest StringRule).answer
        (longer? (longest? 1 continuation (e :: bytes)) (some (.unknownEscape, 2))) := by
    cases hlongest : longest? 1 continuation (e :: bytes) with
    | none => rfl
    | some candidate =>
      have hlt : 1 < candidate.2 := lt_of_longest? rfl hlongest
      have hle : ¬ candidate.2 < 2 := by omega
      simp [longer?, Longest.answer, Longest.orLonger, hlt, hle]
  rw [continuation_finds view hview, hbytes]
  simp only [found, longest?_append, goesOn_append, htails, Bool.or_false, hanswer]

/-- Where no line end is next, it makes no difference whether one counts as an escape. -/
theorem backslash_finds_other :
    Finds (fun view => on view ∧ view.has 1 Byte.isLineEnd = false) backslash 1
      (continuation ++ stringTails fun _ => true) (Longest.answer ⟨.plain, 1⟩) := by
  have hdead : ∀ b, Byte.isLineEnd b = true →
      rowsAfter b (stringTails fun b => !Byte.isLineEnd b) = [] :=
    rowsAfter_of_deadOn (by decide +kernel)
  have hsame : ∀ view b, (on view ∧ view.has 1 Byte.isLineEnd = false) →
      (view.bytes.drop 1).head? = some b →
      rowsAfter b (stringTails fun b => !Byte.isLineEnd b) =
        rowsAfter b (stringTails fun _ => true) := by
    rintro view b ⟨-, hline⟩ hb
    have hset : Byte.isLineEnd b = false := by
      rw [Lookahead.has, hb] at hline
      exact hline
    simp [stringTails, rowsAfter, Pattern.after, hset]
  have h : Finds (fun view => on view ∧ view.has 1 Byte.isLineEnd = false) backslash 1
      (continuation ++ stringTails fun b => !Byte.isLineEnd b)
      (Longest.answer ⟨.plain, 1⟩) := by
    refine .lineEnd [(StringRule.lineContinuation, [.many (Byte.isAny [' ', '\t'])])] _
      (fun len => blanks_finds fun len' => ?_) ?_ (List.cons_ne_nil _ _) rfl hdead
    · have hlonger : 1 < 1 + (len + 1) + len' := by omega
      simp [Longest.answer, Longest.orLonger, hlonger]
    · refine Finds.byHead (.peek (fun e => stringEscape_finds e) ?_ ?_ ?_) ?_ ?_ hsame
      · exact take_apply _ _
      all_goals rfl
  refine h.byHead rfl rfl fun view b hview hb => ?_
  rw [rowsAfter_append, rowsAfter_append, hsame view b hview hb]

/-- Behind a backslash, a line end is a rule of its own; without its newline it is an escape of two
bytes, like any other byte that has no meaning. -/
theorem backslash_finds : Finds on backslash 1 (continuation ++ stringTails fun _ => true)
    (Longest.answer ⟨.plain, 1⟩) := by
  intro view hview starved
  cases hline : view.has 1 Byte.isLineEnd with
  | true => exact backslash_finds_lineEnd view ⟨hview, hline⟩ starved
  | false => exact backslash_finds_other view ⟨hview, hline⟩ starved

theorem string_finds {b : UInt8} (hb : Byte.isStringStop b = true) :
    Finds (StartsWith b) (string b) 1
      (rowsAfter b (StringRule.rows ++ [(.plain, [.one fun _ => true])]))
      (·.getD (.endOfInput, 0)) := by
  have hstops : b ∈ ['"', '\\', '\n', '\r'].map Char.toUInt8 := by
    simpa [Byte.isStringStop, Byte.isAny] using hb
  simp only [List.map_cons, List.map_nil, List.mem_cons, List.not_mem_nil, or_false] at hstops
  rcases hstops with rfl | rfl | rfl | rfl
  · exact .arm .close rfl rfl (.missed (take_apply _ _))
  · exact .arm .plain rfl rfl backslash_finds
  · exact newline_finds rfl rfl
  · exact return_finds rfl rfl

/-! ## The header -/

/-- What stands behind the first two bytes of a header. -/
def headerTails : List (HeaderRule × Pattern) :=
  led (.many (· != '\n'.toUInt8)) (led (.char '\n')
    [(.oneLine, []),
     (.threeLines, [.many (· != '\n'.toUInt8), .char '\n', .char '!', .char '#', .char '\n'])])

theorem header_finds : Finds on header 0 HeaderRule.rows
    fun candidate => ((⟨.absent, 0⟩ : Longest HeaderRule).orLonger candidate, 0) := by
  rw [header, isSpelled, List.map_cons, bind_areAtIn_cons]
  refine .need (led (.char '!') headerTails) ?_ (fun _ _ => rfl) (List.cons_ne_nil _ _)
  rw [List.map_cons, bind_areAtIn_cons]
  refine .need headerTails ?_ (fun _ _ => rfl) (List.cons_ne_nil _ _)
  simp only [List.map_nil, areAtIn, pure_bind, if_true]
  refine .runAll _ (fun len => ?_) (List.cons_ne_nil _ _) (rowsAfter_of_deadOn (by decide +kernel))
  refine .need _ ?_ (fun _ _ => rfl) (List.cons_ne_nil _ _)
  have hone : Longest.orLonger ⟨.absent, 0⟩ (some (HeaderRule.oneLine, 2 + len + 1)) =
      ⟨.oneLine, 2 + len + 1⟩ := by
    simp [Longest.orLonger]
  refine .ended (fun best => (best, 0)) hone ?_
  refine .runAll [(HeaderRule.threeLines, [.char '\n', .char '!', .char '#', .char '\n'])]
    (fun len' => ?_) (List.cons_ne_nil _ _) (rowsAfter_of_deadOn (by decide +kernel))
  exact .all _ [_, _, _, _] (fun _ _ => by rw [← hone]; rfl) fun _ _ => by rw [← hone]; rfl

end Matcher

/-! ## The scans -/

/-- The scan of comments is that of its table. -/
theorem CommentRule.scan_eq_bodyScan : CommentRule.scan =
    bodyScan Byte.isCommentStop (·.skipUntil Byte.isCommentStop) .endOfInput .plain rows := by
  refine verdict_eq_bodyScan (fun _ => Matcher.comment_finds) (fun b hb => ?_) (fun _ => rfl) rfl
  unfold Matcher.comment
  split
  case h_8 => rfl
  all_goals
    rename_i heq
    obtain rfl := Byte.eq_toUInt8 heq
    cases hb

/-- The scan of strings is that of its table. -/
theorem StringRule.scan_eq_bodyScan : StringRule.scan =
    bodyScan Byte.isStringStop Cursor.skipStringBody .endOfInput .plain rows := by
  refine verdict_eq_bodyScan (fun _ => Matcher.string_finds) (fun b hb => ?_) (fun _ => rfl) rfl
  unfold Matcher.string
  split
  case h_5 => rfl
  all_goals
    rename_i heq
    obtain rfl := Byte.eq_toUInt8 heq
    cases hb

/-- The scan of quoted strings is that of its table. -/
theorem QuotedRule.scan_eq_bodyScan : QuotedRule.scan =
    bodyScan Byte.isQuotedStop (·.skipTo '|'.toUInt8 '\r'.toUInt8 '\n'.toUInt8) .endOfInput .plain
      rows := by
  refine verdict_eq_bodyScan (fun _ => Matcher.quoted_finds) (fun b hb => ?_) (fun _ => rfl) rfl
  unfold Matcher.quoted
  split
  case h_4 => rfl
  all_goals
    rename_i heq
    obtain rfl := Byte.eq_toUInt8 heq
    cases hb

/-- The scan of quotations is that of its table. -/
theorem QuotationRule.scan_eq_bodyScan : QuotationRule.scan =
    bodyScan Byte.isQuotationStop (·.skipUntil Byte.isQuotationStop) .endOfInput .plain rows := by
  refine verdict_eq_bodyScan (fun _ => Matcher.quotation_finds) (fun b hb => ?_) (fun _ => rfl) rfl
  unfold Matcher.quotation
  split
  case h_5 => rfl
  all_goals
    rename_i heq
    obtain rfl := Byte.eq_toUInt8 heq
    cases hb

/-- The scan of the header is maximal munch by its table. -/
theorem HeaderRule.scan_eq_munch : HeaderRule.scan = munch .absent rows := by
  funext view
  have h : Finds (fun _ => True) (do Matcher.accept (← Matcher.header)) 0 HeaderRule.rows
      (Longest.answer ⟨.absent, 0⟩) :=
    Matcher.header_finds.bind fun _ => Matcher.accept_apply _
  exact ((Finds.getD_iff rfl).mpr h).verdict_eq rfl trivial

/-! ## Bounds -/

theorem CommentRule.bounded : Bounded CommentRule.scan .endOfInput := by
  rw [scan_eq_bodyScan]
  exact bodyScan_bounded _ _ _ fun _ _ _ => Cursor.skipUntil_bounds

theorem StringRule.bounded : Bounded StringRule.scan .endOfInput := by
  rw [scan_eq_bodyScan]
  exact bodyScan_bounded _ _ _ fun _ _ _ => Cursor.skipStringBody_bounds

theorem QuotedRule.bounded : Bounded QuotedRule.scan .endOfInput := by
  rw [scan_eq_bodyScan]
  refine bodyScan_bounded _ _ _ fun _ _ _ hview hb => Cursor.skipTo_bounds hview ?_
  simpa [Byte.isQuotedStop, Byte.isAny, Bool.or_assoc] using hb

theorem QuotationRule.bounded : Bounded QuotationRule.scan .endOfInput := by
  rw [scan_eq_bodyScan]
  exact bodyScan_bounded _ _ _ fun _ _ _ => Cursor.skipUntil_bounds

theorem HeaderRule.bounded : Bounded HeaderRule.scan .absent := by
  rw [scan_eq_munch]
  exact munch_bounded _ _

end StreamLexer
