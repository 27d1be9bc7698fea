import StreamLexer.Proofs.Position.Truth

/-!
# Actions move over their lexemes

The position after a step is the one before it, past the bytes that the step took, unless they are
a line directive or make an error: `StandsBefore.step_past`. Each mode has its own rules with a
newline in their lexemes, and each of these its own way to say where the next line starts.
-/
namespace StreamLexer

open Pattern

/-! ## Lexemes with a newline -/

theorem TokenRule.newline_not_mem {rule : TokenRule}
    (hrule : rule ∉ [TokenRule.newline, .lineDirective, .word .charNewline, .word .charIllegal,
      .word .illegalByte])
    {lexeme later : List UInt8}
    (h : TokenRule.scan ⟨lexeme ++ later, true⟩ = .found rule lexeme.length) :
    StreamLexer.newline ∉ lexeme := by
  have hrows : avoidNewline TokenRule.rows [TokenRule.newline, .lineDirective, .word .charNewline,
      .word .charIllegal, .word .illegalByte] = true := by decide +kernel
  rcases TokenRule.scan_first h with ⟨-, rfl⟩ | ⟨-, hfirst⟩
  · exact List.not_mem_nil
  · exact StreamLexer.newline_not_mem hrows hrule hfirst

section LineRules

variable {ρ : Type} [DecidableEq ρ] {rows : List (ρ × Pattern)} {rule : ρ} {lexeme : List UInt8}

/-- The lexeme of a rule for line ends ends in the newline. -/
theorem exists_of_lineEnd (hpatterns : patternsOf rows rule = [lineEnd])
    (h : firstAccepting? rows lexeme = some rule) :
    ∃ u, lexeme = u ++ [newline] ∧ newline ∉ u := by
  obtain ⟨p, hp, haccepts⟩ := exists_patternsOf h
  rw [hpatterns, List.mem_singleton] at hp
  subst hp
  obtain ⟨u, rfl, hu⟩ := accepts_lineEnd haccepts
  exact ⟨u, rfl, newline_not_mem_returns hu⟩

/-- That of a rule for line ends in quotes has one more byte. -/
theorem exists_of_charNewline (hpatterns : patternsOf rows rule = [charNewline])
    (h : firstAccepting? rows lexeme = some rule) :
    ∃ u b, lexeme = u ++ [newline, b] ∧ newline ∉ u ∧ b ≠ newline := by
  obtain ⟨p, hp, haccepts⟩ := exists_patternsOf h
  rw [hpatterns, List.mem_singleton] at hp
  subst hp
  have hshape : charNewline = [Piece.char '\''] ++ (lineEnd ++ [.char '\'']) := rfl
  rw [hshape] at haccepts
  obtain ⟨u, _, rfl, hu, hv, b, _, rfl, -, rfl⟩ := exists_lineEnd rfl rfl haccepts
  refine ⟨u, b, rfl, hu, ?_⟩
  rintro rfl
  exact hv (List.mem_singleton_self _)

end LineRules

/-- A continued line has one newline, with blanks behind it. -/
theorem StringRule.exists_of_lineContinuation {lexeme : List UInt8}
    (h : firstAccepting? StringRule.rows lexeme = some .lineContinuation) :
    ∃ u v, lexeme = u ++ StreamLexer.newline :: v ∧ StreamLexer.newline ∉ u ∧
      StreamLexer.newline ∉ v := by
  obtain ⟨p, hp, haccepts⟩ := exists_patternsOf h
  have hpatterns : patternsOf StringRule.rows .lineContinuation =
      [[Piece.char '\\'] ++ (lineEnd ++ [.many (Byte.isAny [' ', '\t'])])] := rfl
  rw [hpatterns, List.mem_singleton] at hp
  subst hp
  obtain ⟨u, v, rfl, hu, hv, -⟩ := exists_lineEnd rfl rfl haccepts
  exact ⟨u, v, rfl, hu, hv⟩

/-- A backslash before a newline is no unknown escape but continues the line. -/
theorem StringRule.newline_not_mem_unknownEscape {lexeme : List UInt8}
    (h : firstAccepting? StringRule.rows lexeme = some .unknownEscape) :
    StreamLexer.newline ∉ lexeme := by
  obtain ⟨p, hp, haccepts⟩ := exists_patternsOf h
  have hpatterns : patternsOf StringRule.rows .unknownEscape =
      [[.char '\\', .one fun _ => true]] := rfl
  rw [hpatterns, List.mem_singleton] at hp
  subst hp
  obtain ⟨b, _, rfl, hb, c, _, rfl, -, rfl⟩ := haccepts
  obtain rfl := eq_of_beq hb
  intro hmem
  have hne : StreamLexer.newline ≠ '\\'.toUInt8 := by decide
  obtain rfl : StreamLexer.newline = c := by simpa [hne] using hmem
  have hfirst : firstAccepting? StringRule.rows ['\\'.toUInt8, StreamLexer.newline] =
      some .lineContinuation := by decide +kernel
  rw [hfirst] at h
  cases h

theorem accepts_restOfLine {w : List UInt8}
    (h : Pattern.Accepts [.many (· != '\n'.toUInt8), .char '\n'] w) :
    ∃ u, w = u ++ [newline] ∧ newline ∉ u := by
  obtain ⟨u, _, rfl, hu, b, _, rfl, hb, rfl⟩ := h
  obtain rfl := eq_of_beq hb
  refine ⟨u, rfl, ?_⟩
  intro hmem
  have hne := hu newline hmem
  cases hne

/-- A header has as many newlines as its rule says, the last one at its end. -/
theorem HeaderRule.exists_of_header {rule : HeaderRule} {lexeme : List UInt8}
    (h : firstAccepting? HeaderRule.rows lexeme = some rule) :
    ∃ u, lexeme = u ++ [newline] ∧ u.count newline + 1 = rule.lines := by
  obtain ⟨p, hp, haccepts⟩ := exists_of_firstAccepting? h
  have hopens : ∀ a, (literal ['#', '!']).Accepts a → a.count newline = 0 := by
    intro a ha
    have havoids : avoids [newline] (literal ['#', '!']) = true := rfl
    apply List.count_eq_zero_of_not_mem
    exact not_mem_of_avoids havoids ha newline (List.mem_singleton_self _)
  simp only [HeaderRule.rows, List.mem_cons, List.not_mem_nil, or_false, Prod.mk.injEq] at hp
  rcases hp with ⟨rfl, rfl⟩ | ⟨rfl, rfl⟩
  · obtain ⟨a, _, rfl, ha, hline⟩ := accepts_append haccepts
    obtain ⟨u, rfl, hu⟩ := accepts_restOfLine hline
    refine ⟨a ++ u, by simp, ?_⟩
    rw [List.count_append, hopens a ha, List.count_eq_zero_of_not_mem hu]
    rfl
  · obtain ⟨before, close, rfl, hbefore, hclose⟩ := accepts_append haccepts
    obtain ⟨first, _, rfl, hfirst, hsecond⟩ := accepts_append hbefore
    obtain ⟨a, _, rfl, ha, hline⟩ := accepts_append hfirst
    obtain ⟨u, rfl, hu⟩ := accepts_restOfLine hline
    obtain ⟨v, rfl, hv⟩ := accepts_restOfLine hsecond
    obtain rfl : close = ['!'.toUInt8, '#'.toUInt8, newline] := by
      rwa [← mem_language, language_literal] at hclose
    refine ⟨a ++ (u ++ [newline]) ++ (v ++ [newline]) ++ ['!'.toUInt8, '#'.toUInt8],
      by simp, ?_⟩
    simp only [List.count_append, hopens a ha, List.count_eq_zero_of_not_mem hu,
      List.count_eq_zero_of_not_mem hv]
    rfl

/-! ## The position after a step -/

namespace Session

section Actions

variable {s : Session} {lexeme later : List UInt8}

theorem actHeader_past {rule : HeaderRule}
    (hscan : HeaderRule.scan ⟨lexeme ++ later, true⟩ = .found rule lexeme.length) :
    Past s.pos lexeme (s.actHeader rule lexeme.length).1.pos := by
  rw [HeaderRule.scan_eq_munch] at hscan
  rcases munch_first hscan with ⟨rfl, rfl⟩ | ⟨-, hfirst⟩
  · exact .within List.not_mem_nil
  · obtain ⟨u, rfl, hlines⟩ := HeaderRule.exists_of_header hfirst
    have hpast : Past s.pos (u ++ [newline]) _ := .lines List.not_mem_nil
    rw [hlines] at hpast
    have hlength : s.pos.offset + u.length + 1 = s.pos.offset + (u ++ [newline]).length := by
      simp [Nat.add_assoc]
    rw [hlength] at hpast
    cases rule with
    | absent => cases hlines
    | oneLine | threeLines => exact hpast

theorem lineEnded_past {p : Position} {u : List UInt8} (hlexeme : lexeme = u ++ [newline])
    (hu : newline ∉ u) : Past p lexeme (lineEnded (p.shifted lexeme.length)) := by
  apply Past.line hlexeme hu List.not_mem_nil
  simp [hlexeme, Position.shifted, Nat.add_assoc]

theorem lineEndedInChar_past {p : Position} {u : List UInt8} {b : UInt8}
    (hlexeme : lexeme = u ++ [newline, b]) (hu : newline ∉ u) (hb : b ≠ newline) :
    Past p lexeme (lineEndedInChar (p.shifted lexeme.length)) := by
  have hv : newline ∉ [b] := by simpa using hb.symm
  apply Past.line hlexeme hu hv
  simp [hlexeme, Position.shifted]
  omega

/-- In source code the position goes past the lexeme, or past its first byte. -/
theorem actCode_past {rule : TokenRule}
    (hscan : TokenRule.scan ⟨lexeme ++ later, true⟩ = .found rule lexeme.length)
    (hrule : rule ≠ .lineDirective) (hok : ∀ e, (s.actCode rule lexeme).2 ≠ .fail e) :
    ∃ taken, taken <+: lexeme ∧ Past s.pos taken (s.actCode rule lexeme).1.pos := by
  have hwithin : rule ∉ [TokenRule.newline, .lineDirective, .word .charNewline,
      .word .charIllegal, .word .illegalByte] → Past s.pos lexeme (s.pos.shifted lexeme.length) :=
    fun hrule => .within (TokenRule.newline_not_mem hrule hscan)
  have hfirst : rule ≠ .endOfInput → firstAccepting? TokenRule.rows lexeme = some rule := by
    intro hend
    rcases TokenRule.scan_first hscan with ⟨heq, -⟩ | ⟨-, hfirst⟩
    · exact absurd heq hend
    · exact hfirst
  cases rule with
  | lineDirective => exact absurd rfl hrule
  | newline =>
    obtain ⟨u, hlexeme, hu⟩ := exists_of_lineEnd rfl (hfirst (by simp))
    exact ⟨lexeme, List.prefix_rfl, lineEnded_past hlexeme hu⟩
  | strayClose =>
    -- only the first byte is taken
    have hnot := TokenRule.newline_not_mem (by simp) hscan
    have hlength : (lexeme.take 1).length = 1 := by
      rcases TokenRule.scan_first hscan with ⟨heq, -⟩ | ⟨hne, -⟩
      · cases heq
      · have hpos := List.length_pos_of_ne_nil hne
        rw [List.length_take]
        omega
    have hpast : Past s.pos (lexeme.take 1) (s.pos.shifted (lexeme.take 1).length) :=
      .within fun hmem => hnot (List.mem_of_mem_take hmem)
    rw [hlength] at hpast
    exact ⟨lexeme.take 1, List.take_prefix 1 lexeme, hpast⟩
  | word rule =>
    refine ⟨lexeme, List.prefix_rfl, ?_⟩
    have hpos : (s.actCode (.word rule) lexeme).1.pos =
        wordStop rule (s.pos.shifted lexeme.length) := by
      simp only [actCode]
      split <;> rfl
    rw [hpos]
    by_cases hchar : rule = .charNewline
    · subst hchar
      obtain ⟨u, b, hlexeme, hu, hb⟩ := exists_of_charNewline rfl (hfirst (by simp))
      exact lineEndedInChar_past hlexeme hu hb
    · rw [wordStop, if_neg hchar]
      apply hwithin
      -- the two other rules with a newline in their lexemes make an error
      have hillegal : rule ≠ .charIllegal := by
        rintro rfl
        exact hok _ rfl
      have hbyte : rule ≠ .illegalByte := by
        rintro rfl
        exact hok _ rfl
      simp [hchar, hillegal, hbyte]
  | _ => exact ⟨lexeme, List.prefix_rfl, hwithin (by simp)⟩

theorem actComment_past {c : OpenComment} {text : List UInt8} {rule : CommentRule}
    (hscan : CommentRule.scan ⟨lexeme ++ later, true⟩ = .found rule lexeme.length) :
    Past s.pos lexeme (s.actComment c text rule lexeme).1.pos := by
  have hwithin : rule ∉ [CommentRule.newline, .charNewline] →
      Past s.pos lexeme (s.pos.shifted lexeme.length) := by
    intro hrule
    apply Past.within
    exact newline_not_mem_body CommentRule.scan_eq_bodyScan CommentRule.bodyTable rfl .newline
      (by simp [CommentRule.rows]) rfl hrule hscan
  cases rule with
  | newline =>
    have hfirst := first_of_body CommentRule.scan_eq_bodyScan hscan (by simp) (by simp)
    obtain ⟨u, hlexeme, hu⟩ := exists_of_lineEnd rfl hfirst
    exact lineEnded_past hlexeme hu
  | charNewline =>
    have hfirst := first_of_body CommentRule.scan_eq_bodyScan hscan (by simp) (by simp)
    obtain ⟨u, b, hlexeme, hu, hb⟩ := exists_of_charNewline rfl hfirst
    exact lineEndedInChar_past hlexeme hu hb
  | close =>
    simp only [actComment]
    split <;> exact hwithin (by simp)
  | _ => exact hwithin (by simp)

theorem actString_past {o : OpenString} {text : List UInt8} {rule : StringRule}
    (hscan : StringRule.scan ⟨lexeme ++ later, true⟩ = .found rule lexeme.length) :
    Past s.pos lexeme (s.actString o text rule lexeme).1.pos := by
  have hwithin : rule ∉ [StringRule.newline, .lineContinuation, .unknownEscape] →
      Past s.pos lexeme (s.pos.shifted lexeme.length) := by
    intro hrule
    apply Past.within
    exact newline_not_mem_body StringRule.scan_eq_bodyScan StringRule.bodyTable rfl .newline
      (by simp [StringRule.rows]) rfl hrule hscan
  cases rule with
  | newline =>
    have hfirst := first_of_body StringRule.scan_eq_bodyScan hscan (by simp) (by simp)
    obtain ⟨u, hlexeme, hu⟩ := exists_of_lineEnd rfl hfirst
    simp only [actString]
    split <;> exact lineEnded_past hlexeme hu
  | lineContinuation =>
    have hfirst := first_of_body StringRule.scan_eq_bodyScan hscan (by simp) (by simp)
    obtain ⟨u, v, hlexeme, hu, hv⟩ := StringRule.exists_of_lineContinuation hfirst
    apply Past.line hlexeme hu hv
    have hnone : u.findIdx (· == '\n'.toUInt8) = u.length := by
      rw [List.findIdx_eq_length]
      intro b hb
      have hne : b ≠ newline := fun heq => hu (heq ▸ hb)
      exact beq_false_of_ne hne
    have hindex : lexeme.findIdx (· == '\n'.toUInt8) = u.length := by
      rw [hlexeme, List.findIdx_append, hnone, if_neg (Nat.lt_irrefl _), List.findIdx_cons]
      exact Nat.zero_add _
    rw [hindex]
  | unknownEscape =>
    have hfirst := first_of_body StringRule.scan_eq_bodyScan hscan (by simp) (by simp)
    exact .within (StringRule.newline_not_mem_unknownEscape hfirst)
  | close =>
    simp only [actString, closeString_pos]
    exact hwithin (by simp)
  | decimalEscape =>
    simp only [actString]
    split
    · exact hwithin (by simp)
    · split <;> exact hwithin (by simp)
  | _ => exact hwithin (by simp)

theorem actQuoted_past {o : OpenString} {id text : List UInt8} {rule : QuotedRule}
    (hscan : QuotedRule.scan ⟨lexeme ++ later, true⟩ = .found rule lexeme.length) :
    Past s.pos lexeme (s.actQuoted o id text rule lexeme).1.pos := by
  have hwithin : rule ∉ [QuotedRule.newline] →
      Past s.pos lexeme (s.pos.shifted lexeme.length) := by
    intro hrule
    apply Past.within
    exact newline_not_mem_body QuotedRule.scan_eq_bodyScan QuotedRule.bodyTable rfl .newline
      (by simp [QuotedRule.rows]) rfl hrule hscan
  cases rule with
  | newline =>
    have hfirst := first_of_body QuotedRule.scan_eq_bodyScan hscan (by simp) (by simp)
    obtain ⟨u, hlexeme, hu⟩ := exists_of_lineEnd rfl hfirst
    exact lineEnded_past hlexeme hu
  | terminator =>
    simp only [actQuoted]
    split
    · rw [closeString_pos]
      exact hwithin (by simp)
    · exact hwithin (by simp)
  | _ => exact hwithin (by simp)

theorem actQuotation_past {q : OpenQuotation} {rule : QuotationRule}
    (hscan : QuotationRule.scan ⟨lexeme ++ later, true⟩ = .found rule lexeme.length) :
    Past s.pos lexeme (s.actQuotation q rule lexeme.length).1.pos := by
  have hwithin : rule ∉ [QuotationRule.newline] →
      Past s.pos lexeme (s.pos.shifted lexeme.length) := by
    intro hrule
    apply Past.within
    exact newline_not_mem_body QuotationRule.scan_eq_bodyScan QuotationRule.bodyTable rfl .newline
      (by simp [QuotationRule.rows]) rfl hrule hscan
  cases rule with
  | newline =>
    have hfirst := first_of_body QuotationRule.scan_eq_bodyScan hscan (by simp) (by simp)
    obtain ⟨u, hlexeme, hu⟩ := exists_of_lineEnd rfl hfirst
    exact lineEnded_past hlexeme hu
  | close =>
    simp only [actQuotation]
    split <;> exact hwithin (by simp)
  | _ => exact hwithin (by simp)

end Actions

variable {s : Session} {source rest : List UInt8}

theorem StandsBefore.step_past (h : s.StandsBefore source rest) (hnone : s.directive? = none)
    (hok : ∀ e, s.step.2 ≠ .fail e) :
    ∃ taken later, rest = taken ++ later ∧ Past s.pos taken s.step.1.pos := by
  cases h.acts with
  | header _ _ rule lexeme later hsplit hscan hstep =>
    refine ⟨lexeme, later, hsplit, ?_⟩
    rw [hstep]
    exact actHeader_past hscan
  | code hmode hdecided rule lexeme later hsplit hscan hstep =>
    have hrule : rule ≠ .lineDirective := by
      rintro rfl
      rw [hsplit] at h
      rw [h.directive?_of_scan hmode hdecided hscan] at hnone
      cases hnone
    rw [hstep] at hok ⊢
    obtain ⟨taken, ⟨more, hmore⟩, hpast⟩ := actCode_past hscan hrule hok
    exact ⟨taken, more ++ later, by rw [hsplit, ← hmore, List.append_assoc], hpast⟩
  | comment c text _ rule lexeme later hsplit hscan hstep =>
    refine ⟨lexeme, later, hsplit, ?_⟩
    rw [hstep]
    exact actComment_past hscan
  | string o text _ _ rule lexeme later hsplit hscan hstep =>
    refine ⟨lexeme, later, hsplit, ?_⟩
    rw [hstep]
    exact actString_past hscan
  | quoted o id text _ _ rule lexeme later hsplit hscan hstep =>
    refine ⟨lexeme, later, hsplit, ?_⟩
    rw [hstep]
    exact actQuoted_past hscan
  | quotation q _ rule lexeme later hsplit hscan hstep =>
    refine ⟨lexeme, later, hsplit, ?_⟩
    rw [hstep]
    exact actQuotation_past hscan

end Session

end StreamLexer
