import StreamLexer.Session.Run

/-!
# The keyword table plays a part in the reading of words only

No action other than that of a word reads the keyword table of its session. So a session with
another table takes the same step wherever the two tables read a word in the same way:
`Session.stepOn_withKeywords`.
-/
namespace StreamLexer

namespace Session

/-- The session with another keyword table. -/
def withKeywords (s : Session) (keywords : KeywordTable) : Session :=
  { s with keywords }

variable (s : Session) (keywords : KeywordTable)

@[simp] theorem withKeywords_keywords : (s.withKeywords keywords).keywords = keywords := rfl

@[simp] theorem withKeywords_pos : (s.withKeywords keywords).pos = s.pos := rfl

@[simp] theorem withKeywords_mode : (s.withKeywords keywords).mode = s.mode := rfl

@[simp] theorem withKeywords_headerPending :
    (s.withKeywords keywords).headerPending = s.headerPending := rfl

@[simp] theorem withKeywords_lookahead : (s.withKeywords keywords).lookahead = s.lookahead := rfl

@[simp] theorem withKeywords_moveTo (pos : Position) :
    (s.withKeywords keywords).moveTo pos = (s.moveTo pos).withKeywords keywords := rfl

/-! ## Actions -/

/-- The action of a word asks the table; where the answer is the same, so is the action. -/
theorem actCode_withKeywords {rule : TokenRule} {lexeme : List UInt8}
    (hread : ∀ word, rule = .word word → word.read keywords lexeme = word.read s.keywords lexeme) :
    (s.withKeywords keywords).actCode rule lexeme =
      ((s.actCode rule lexeme).1.withKeywords keywords, (s.actCode rule lexeme).2) := by
  cases rule with
  | word word =>
    simp only [actCode, withKeywords_keywords, withKeywords_pos, withKeywords_moveTo,
      hread word rfl]
    split <;> rfl
  | _ => rfl

theorem actCode_of_read {s : Session} {rule : WordRule} {lexeme : List UInt8} {kind : TokenKind}
    (h : rule.read s.keywords lexeme = .ok kind) :
    s.actCode (.word rule) lexeme =
      (s.moveTo (wordStop rule (s.pos.shifted lexeme.length)),
        .emit ⟨kind, ⟨s.pos, wordStop rule (s.pos.shifted lexeme.length)⟩⟩) := by
  simp only [actCode, h]

theorem actCode_of_fault {s : Session} {rule : WordRule} {lexeme : List UInt8} {fault : WordFault}
    (h : rule.read s.keywords lexeme = .error fault) :
    s.actCode (.word rule) lexeme =
      (s.moveTo (wordStop rule (s.pos.shifted lexeme.length)),
        .fail (fault.toError ⟨s.pos, wordStop rule (s.pos.shifted lexeme.length)⟩)) := by
  simp only [actCode, h]

theorem actHeader_withKeywords (rule : HeaderRule) (length : Nat) :
    (s.withKeywords keywords).actHeader rule length =
      ((s.actHeader rule length).1.withKeywords keywords, (s.actHeader rule length).2) := by
  cases rule <;> rfl

theorem actComment_withKeywords (c : OpenComment) (text : List UInt8) (rule : CommentRule)
    (lexeme : List UInt8) :
    (s.withKeywords keywords).actComment c text rule lexeme =
      ((s.actComment c text rule lexeme).1.withKeywords keywords,
        (s.actComment c text rule lexeme).2) := by
  cases rule with
  | close =>
    simp only [actComment, withKeywords_pos, withKeywords_moveTo]
    split <;> rfl
  | _ => rfl

theorem closeString_withKeywords (o : OpenString) (text terminator : List UInt8) :
    (s.withKeywords keywords).closeString o text terminator =
      ((s.closeString o text terminator).1.withKeywords keywords,
        (s.closeString o text terminator).2) := by
  simp only [closeString]
  split <;> rfl

theorem actString_withKeywords (o : OpenString) (text : List UInt8) (rule : StringRule)
    (lexeme : List UInt8) :
    (s.withKeywords keywords).actString o text rule lexeme =
      ((s.actString o text rule lexeme).1.withKeywords keywords,
        (s.actString o text rule lexeme).2) := by
  cases rule with
  | close =>
    simp only [actString, withKeywords_pos, withKeywords_moveTo, closeString_withKeywords]
  | decimalEscape =>
    simp only [actString, withKeywords_pos, withKeywords_moveTo]
    split
    · rfl
    · split <;> rfl
  | newline =>
    simp only [actString, withKeywords_pos, withKeywords_moveTo]
    split <;> rfl
  | _ => rfl

theorem actQuoted_withKeywords (o : OpenString) (id text : List UInt8) (rule : QuotedRule)
    (lexeme : List UInt8) :
    (s.withKeywords keywords).actQuoted o id text rule lexeme =
      ((s.actQuoted o id text rule lexeme).1.withKeywords keywords,
        (s.actQuoted o id text rule lexeme).2) := by
  cases rule with
  | terminator =>
    simp only [actQuoted, withKeywords_pos, withKeywords_moveTo, closeString_withKeywords]
    split <;> rfl
  | _ => rfl

theorem actQuotation_withKeywords (q : OpenQuotation) (rule : QuotationRule) (length : Nat) :
    (s.withKeywords keywords).actQuotation q rule length =
      ((s.actQuotation q rule length).1.withKeywords keywords,
        (s.actQuotation q rule length).2) := by
  cases rule with
  | close =>
    simp only [actQuotation, withKeywords_pos, withKeywords_moveTo]
    split <;> rfl
  | _ => rfl

theorem onFound_withKeywords {ρ : Type} (verdict : Verdict ρ)
    {act act' : ρ → Nat → Session × Step}
    (h : ∀ rule n, verdict = .found rule n →
      act' rule n = ((act rule n).1.withKeywords keywords, (act rule n).2)) :
    (s.withKeywords keywords).onFound verdict act' =
      ((s.onFound verdict act).1.withKeywords keywords, (s.onFound verdict act).2) := by
  cases verdict with
  | undecided => rfl
  | found rule n => exact h rule n rfl

/-! ## The step -/

/-- With a table that reads the next word in the same way, the session takes the same step. -/
theorem stepOn_withKeywords {view : Lookahead}
    (hread : s.mode = .code → s.headerPending = false → ∀ word n,
      TokenRule.scan view = .found (.word word) n →
        word.read keywords (view.bytes.take n) = word.read s.keywords (view.bytes.take n)) :
    (s.withKeywords keywords).stepOn view =
      ((s.stepOn view).1.withKeywords keywords, (s.stepOn view).2) := by
  unfold stepOn
  simp only [withKeywords_mode, withKeywords_headerPending]
  split
  · rename_i hmode
    by_cases hpending : s.headerPending = true
    · simp only [hpending, if_true]
      exact onFound_withKeywords s keywords _ fun rule n _ =>
        actHeader_withKeywords s keywords rule n
    · simp only [hpending, Bool.false_eq_true, if_false]
      refine onFound_withKeywords s keywords _ fun rule n hscan => ?_
      refine actCode_withKeywords s keywords ?_
      rintro word rfl
      exact hread hmode (by simpa using hpending) word n hscan
  · exact onFound_withKeywords s keywords _ fun rule n _ =>
      actComment_withKeywords s keywords _ _ rule _
  · split
    · exact onFound_withKeywords s keywords _ fun rule n _ =>
        actString_withKeywords s keywords _ _ rule _
    · exact onFound_withKeywords s keywords _ fun rule n _ =>
        actQuoted_withKeywords s keywords _ _ _ rule _
  · exact onFound_withKeywords s keywords _ fun rule n _ =>
      actQuotation_withKeywords s keywords _ rule n

end Session

end StreamLexer
