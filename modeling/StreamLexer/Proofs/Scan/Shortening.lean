import StreamLexer.Proofs.Scan.Advance

/-!
# Lexemes and the bytes behind them

A scan may read on behind its lexeme, to see whether a longer one fits. When bytes behind the lexeme
are cut off, no rule gets a longer one by that, and the lexeme and its rule stay as they are:
`Shortens`. This holds of every scan by which tokens are told apart.
-/
namespace StreamLexer

variable {ρ : Type}

/-- The lexeme of a complete source is also that of every beginning of the source it fits in. -/
def Shortens (scan : Lookahead → Verdict ρ) : Prop :=
  ∀ (rule : ρ) (n : Nat) (bytes cut : List UInt8), 0 < n → n ≤ bytes.length →
    scan ⟨bytes ++ cut, true⟩ = .found rule n → scan ⟨bytes, true⟩ = .found rule n

theorem munch_shortens (fallback : ρ) (rows : List (ρ × Pattern)) :
    Shortens (munch fallback rows) := by
  intro rule n bytes cut hpos hle hscan
  obtain ⟨rule', k, hfound, ⟨-, -, hfirst, hlongest⟩ | ⟨-, hzero, -⟩⟩ :=
    munch_closed fallback rows (bytes ++ cut)
  · rw [hscan] at hfound
    cases hfound
    -- the prefixes of the beginning are prefixes of the whole source
    refine munch_of_longest hpos hle ?_ ?_
    · rwa [List.take_append_of_le_length hle] at hfirst
    · intro m hlt hm
      have hnone := hlongest m hlt (by rw [List.length_append]; omega)
      rwa [List.take_append_of_le_length hm] at hnone
  · rw [hscan] at hfound
    cases hfound
    omega

/-- A run of plain bytes ends where it did, or where the source ends now. -/
theorem BodyTable.shortens {isStop : UInt8 → Bool} {skip : Cursor → Nat × Cursor}
    {endOfInput plain : ρ} {rows : List (ρ × Pattern)} (h : BodyTable isStop skip rows) :
    Shortens (bodyScan isStop skip endOfInput plain rows) := by
  intro rule n bytes cut hpos hle hscan
  obtain ⟨b, rest, rfl⟩ := List.exists_cons_of_length_pos (Nat.lt_of_lt_of_le hpos hle)
  cases hb : isStop b with
  | true =>
    rw [bodyScan_eq_munch (by simpa using hb)] at hscan ⊢
    exact munch_shortens _ _ rule n (b :: rest) cut hpos hle hscan
  | false =>
    rw [List.cons_append, h.scan_plain hb, ← List.cons_append] at hscan
    rw [h.scan_plain hb]
    injection hscan with hrule hlength
    rw [List.findIdx_append] at hlength
    have hwithin : (b :: rest).findIdx isStop ≤ (b :: rest).length := List.findIdx_le_length
    have hsame : (b :: rest).findIdx isStop = n := by
      split at hlength <;> omega
    rw [hrule, hsame]

theorem TokenRule.shortens : Shortens TokenRule.scan :=
  TokenRule.scan_eq_munch ▸ munch_shortens _ _

theorem CommentRule.shortens : Shortens CommentRule.scan :=
  CommentRule.scan_eq_bodyScan ▸ CommentRule.bodyTable.shortens

theorem StringRule.shortens : Shortens StringRule.scan :=
  StringRule.scan_eq_bodyScan ▸ StringRule.bodyTable.shortens

theorem QuotedRule.shortens : Shortens QuotedRule.scan :=
  QuotedRule.scan_eq_bodyScan ▸ QuotedRule.bodyTable.shortens

theorem QuotationRule.shortens : Shortens QuotationRule.scan :=
  QuotationRule.scan_eq_bodyScan ▸ QuotationRule.bodyTable.shortens

section Fits

variable {scan : Lookahead → Verdict ρ} {last rule : ρ} {bytes cut lexeme later : List UInt8}

/-- A lexeme that fits in the beginning stands at its start, also where it is the empty one at the
end of input. -/
theorem Shortens.found (h : Shortens scan) (hfinds : FindsBytes scan last)
    (hsplit : bytes ++ cut = lexeme ++ later)
    (hscan : scan ⟨lexeme ++ later, true⟩ = .found rule lexeme.length)
    (hle : lexeme.length ≤ bytes.length) :
    scan ⟨bytes, true⟩ = .found rule lexeme.length ∧ bytes.take lexeme.length = lexeme := by
  have htake : bytes.take lexeme.length = lexeme := by
    have hprefix : (bytes ++ cut).take lexeme.length = bytes.take lexeme.length :=
      List.take_append_of_le_length hle
    rw [← hprefix, hsplit, List.take_left]
  refine ⟨?_, htake⟩
  rcases hfinds _ _ _ hscan with ⟨-, -, hview⟩ | ⟨-, hpos, -⟩
  · have hend : lexeme ++ later = [] := congrArg Lookahead.bytes hview
    obtain ⟨rfl, -⟩ := List.append_eq_nil_iff.mp (hsplit.trans hend)
    rwa [hend] at hscan
  · rw [← hsplit] at hscan
    exact h rule _ bytes cut hpos hle hscan

end Fits

end StreamLexer
