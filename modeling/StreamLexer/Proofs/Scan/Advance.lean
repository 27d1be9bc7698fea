import StreamLexer.Proofs.Scan.Starvation

/-!
# Every lexeme has a byte

The scans of source code, comments, strings and quotations each have a rule for the end of input.
They find it where nothing is left and nothing will come, and every other lexeme has a byte
(`FindsBytes`): the tables accept every byte somehow, and a run of plain bytes is not empty.
-/
namespace StreamLexer

variable {ρ : Type}

/-- The rule `last` is found where nothing is left and nothing will come; every other lexeme has a
byte. -/
def FindsBytes (scan : Lookahead → Verdict ρ) (last : ρ) : Prop :=
  ∀ view rule n, scan view = .found rule n →
    rule = last ∧ n = 0 ∧ view = ⟨[], true⟩ ∨ rule ≠ last ∧ 0 < n ∧ n ≤ view.bytes.length

section Tables

variable {rows : List (ρ × Pattern)} {last : ρ}

/-- A table that accepts every byte by itself falls back on its last rule at the end of input
only. -/
theorem view_of_munch_last (hany : ∃ rule, (rule, [Piece.one fun _ => true]) ∈ rows)
    (hlast : ∀ row ∈ rows, row.1 ≠ last) {view : Lookahead} {n : Nat}
    (h : munch last rows view = .found last n) : view = ⟨[], true⟩ := by
  obtain ⟨any, hmem⟩ := hany
  obtain ⟨bytes, closed⟩ := view
  cases bytes with
  | nil =>
    cases closed with
    | true => rfl
    | false =>
      have hgoesOn : exhausted rows = false := by
        by_contra hexhausted
        simp only [exhausted, Bool.not_eq_false, List.all_eq_true] at hexhausted
        cases hexhausted _ hmem
      simp [munch, munchFrom, hgoesOn] at h
  | cons b rest =>
    -- on the complete source the row of all bytes would have accepted `b`
    have hclosed : munch last rows ⟨b :: rest, true⟩ = .found last n := by
      cases closed with
      | true => exact h
      | false =>
        have hgrown := munch_append h [] true
        rwa [List.append_nil] at hgrown
    obtain ⟨rule, k, hfound, ⟨-, -, hfirst, -⟩ | ⟨-, -, hnone⟩⟩ :=
      munch_closed last rows (b :: rest)
    · obtain rfl : rule = last := by
        rw [hfound] at hclosed
        injection hclosed
      obtain ⟨row, hrow, hrule⟩ := Option.map_eq_some_iff.mp hfirst
      exact absurd hrule (hlast row (List.mem_of_find?_eq_some hrow))
    · have hone := hnone 1 (by omega) (by simp)
      rw [firstAccepting?_eq_none_iff] at hone
      exact absurd ⟨b, [], by simp, rfl, rfl⟩ (hone _ hmem)

theorem munch_findsBytes (hany : ∃ rule, (rule, [Piece.one fun _ => true]) ∈ rows)
    (hlast : ∀ row ∈ rows, row.1 ≠ last) : FindsBytes (munch last rows) last := by
  intro view rule n h
  by_cases hrule : rule = last
  · subst hrule
    obtain rfl := view_of_munch_last hany hlast h
    left
    rcases (munch_bounded _ rows).found _ _ _ h with ⟨-, hn⟩ | ⟨hpos, hle⟩
    · exact ⟨rfl, hn, rfl⟩
    · simp only [List.length_nil] at hle
      omega
  · right
    rcases (munch_bounded last rows).found _ _ _ h with ⟨heq, -⟩ | hbounds
    · exact absurd heq hrule
    · exact ⟨hrule, hbounds⟩

theorem bodyScan_findsBytes {isStop : UInt8 → Bool} {skip : Cursor → Nat × Cursor} {plain : ρ}
    (hplain : plain ≠ last) (hlast : ∀ row ∈ rows, row.1 ≠ last)
    (hskip : ∀ view b r, view.bytes = b :: r → isStop b = false →
      0 < (skip ⟨view, 0, false⟩).1 ∧ (skip ⟨view, 0, false⟩).1 ≤ view.bytes.length) :
    FindsBytes (bodyScan isStop skip last plain rows) last := by
  have hmunch : FindsBytes (munch last (rows ++ [(plain, [.one fun _ => true])])) last := by
    refine munch_findsBytes ⟨plain, by simp⟩ ?_
    intro row hrow
    rcases List.mem_append.mp hrow with hrow | hrow
    · exact hlast row hrow
    · obtain rfl := List.mem_singleton.mp hrow
      exact hplain
  intro view rule n h
  unfold bodyScan at h
  split at h
  · rename_i b r hview
    split at h
    · exact hmunch view rule n h
    · rename_i hb
      cases h
      exact .inr ⟨hplain, hskip view b r hview (by simpa using hb)⟩
  · exact hmunch view rule n h

end Tables

/-! ## The scans -/

theorem TokenRule.findsBytes : FindsBytes TokenRule.scan .endOfInput := by
  rw [TokenRule.scan_eq_munch]
  exact munch_findsBytes ⟨.word .illegalByte, by simp [TokenRule.rows, WordRule.operatorRows]⟩
    (by decide)

theorem CommentRule.findsBytes : FindsBytes CommentRule.scan .endOfInput := by
  rw [CommentRule.scan_eq_bodyScan]
  exact bodyScan_findsBytes (by decide) (by decide) fun _ _ _ => Cursor.skipUntil_bounds

theorem StringRule.findsBytes : FindsBytes StringRule.scan .endOfInput := by
  rw [StringRule.scan_eq_bodyScan]
  exact bodyScan_findsBytes (by decide) (by decide) fun _ _ _ => Cursor.skipStringBody_bounds

theorem QuotedRule.findsBytes : FindsBytes QuotedRule.scan .endOfInput := by
  rw [QuotedRule.scan_eq_bodyScan]
  exact bodyScan_findsBytes (by decide) (by decide) fun _ _ _ hview hb => Cursor.skipTo_bounds hview
    (by simpa [Byte.isQuotedStop, Byte.isAny, Bool.or_assoc] using hb)

theorem QuotationRule.findsBytes : FindsBytes QuotationRule.scan .endOfInput := by
  rw [QuotationRule.scan_eq_bodyScan]
  exact bodyScan_findsBytes (by decide) (by decide) fun _ _ _ => Cursor.skipUntil_bounds

end StreamLexer
