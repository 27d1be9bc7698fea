import StreamLexer.Proofs.Flat.Lockstep

/-!
# Errors of strings and quotations

A string without an end is an error of its own, or of the comment around it. A session knows which
when it raises the error; flat state raises the first one and attributes it to a comment afterwards,
if there is one. `Session.step_attributes` says that this comes to the same. The error of a
quotation has the same fault as that of a string, and stays its own since no comment is open around
a quotation.
-/
namespace StreamLexer

/-- An error of a quotation is raw as it is. -/
theorem LexError.eq_of_raw {e : LexError} {opener : Span}
    (h : e.raw = .unterminatedQuotation opener) : e = .unterminatedQuotation opener := by
  unfold LexError.raw at h
  split at h
  · cases h
  · exact h

namespace Session

/-- Attribution turns the raw error of a step into its error. -/
def AttributesError (r : Session × Step) : Prop :=
  ∀ e, r.2 = .fail e → r.1.flatten.attributed e.raw = e

section Errors

variable {s : Session} {lexeme : List UInt8}

theorem attributesError_of_ne {r : Session × Step} (h : ∀ e, r.2 ≠ .fail e) : AttributesError r :=
  fun e he => absurd he (h e)

/-- The error of a word stays as it is, outside every comment. -/
theorem actCode_attributes (hmode : s.mode = .code) (rule : TokenRule) :
    AttributesError (s.actCode rule lexeme) := by
  cases rule with
  | word rule =>
    simp only [actCode]
    split
    · exact attributesError_of_ne (by simp)
    · rename_i fault _
      intro e he
      cases he
      simp only [FlatSession.attributed, flatten, moveTo, hmode, Mode.scratch]
      cases fault <;> rfl
  | _ => exact attributesError_of_ne (by simp [actCode, goOn])

theorem actComment_attributes {c : OpenComment} {text : List UInt8} (rule : CommentRule) :
    AttributesError (s.actComment c text rule lexeme) := by
  cases rule with
  | close =>
    simp only [actComment]
    split
    · exact attributesError_of_ne (by simp [goOn])
    · exact attributesError_of_ne (by simp [endConstruct])
  | endOfInput =>
    intro e he
    cases he
    rfl
  | _ => exact attributesError_of_ne (by simp [actComment, goOn])

theorem closeString_ne_fail (s : Session) (o : OpenString) (text terminator : List UInt8)
    (e : LexError) : (s.closeString o text terminator).2 ≠ .fail e := by
  unfold closeString
  split
  · simp [goOn]
  · simp [endConstruct]

/-- Inside a comment a string without an end is an error of the comment. -/
theorem unterminated_attributes {o : OpenString} {text : List UInt8}
    (hmode : s.mode = .string o text) : AttributesError (s, .fail (unterminated o)) := by
  intro e he
  cases he
  obtain ⟨opener, delimiter, enclosing⟩ := o
  cases enclosing with
  | none =>
    simp only [unterminated, FlatSession.attributed, flatten, hmode, Mode.scratch]
    rfl
  | some c =>
    simp only [unterminated, FlatSession.attributed, flatten, hmode, Mode.scratch,
      OpenComment.length_openers]
    rfl

theorem actString_attributes {o : OpenString} {text : List UInt8} (hmode : s.mode = .string o text)
    (rule : StringRule) : AttributesError (s.actString o text rule lexeme) := by
  have hmoved : (s.moveTo (s.pos.shifted lexeme.length)).mode = .string o text := hmode
  cases rule with
  | close => exact attributesError_of_ne (closeString_ne_fail _ o text lexeme)
  | decimalEscape =>
    simp only [actString]
    split
    · exact attributesError_of_ne (by simp [goOn])
    · split
      · exact attributesError_of_ne (by simp [goOn])
      · intro e he
        cases he
        rfl
  | endOfInput => exact unterminated_attributes hmoved
  | _ => exact attributesError_of_ne (by simp [actString, goOn])

theorem actQuoted_attributes {o : OpenString} {id text : List UInt8}
    (hmode : s.mode = .string o text) (rule : QuotedRule) :
    AttributesError (s.actQuoted o id text rule lexeme) := by
  have hmoved : (s.moveTo (s.pos.shifted lexeme.length)).mode = .string o text := hmode
  cases rule with
  | terminator =>
    simp only [actQuoted]
    split
    · exact attributesError_of_ne (closeString_ne_fail _ o text lexeme)
    · exact attributesError_of_ne (by simp [goOn])
  | endOfInput => exact unterminated_attributes hmoved
  | _ => exact attributesError_of_ne (by simp [actQuoted, goOn])

/-- A quotation without an end is no error of a comment. -/
theorem actQuotation_attributes {q : OpenQuotation} (hmode : s.mode = .quotation q)
    (rule : QuotationRule) (n : Nat) : AttributesError (s.actQuotation q rule n) := by
  cases rule with
  | close =>
    simp only [actQuotation]
    split
    · exact attributesError_of_ne (by simp [goOn])
    · exact attributesError_of_ne (by simp [endConstruct])
  | endOfInput =>
    intro e he
    cases he
    have hended : (s.moveTo (s.pos.shifted n)).mode = .quotation q := hmode
    show (s.moveTo (s.pos.shifted n)).flatten.attributed _ = _
    simp only [FlatSession.attributed, flatten, hended, Mode.scratch]
    rfl
  | _ => exact attributesError_of_ne (by simp [actQuotation, goOn])

theorem onFound_attributes {ρ : Type} {verdict : Verdict ρ} {act : ρ → Nat → Session × Step}
    (h : ∀ rule n, AttributesError (act rule n)) : AttributesError (s.onFound verdict act) := by
  cases verdict with
  | undecided => exact attributesError_of_ne (by simp [onFound])
  | found rule n => exact h rule n

theorem step_attributes (s : Session) : AttributesError s.step := by
  rw [step, stepOn]
  cases hmode : s.mode with
  | code =>
    simp only
    split
    · refine onFound_attributes fun rule n => attributesError_of_ne ?_
      cases rule <;> simp [actHeader]
    · exact onFound_attributes fun rule n => actCode_attributes hmode rule
  | comment c text => exact onFound_attributes fun rule n => actComment_attributes rule
  | string o text =>
    simp only
    split
    · exact onFound_attributes fun rule n => actString_attributes hmode rule
    · exact onFound_attributes fun rule n => actQuoted_attributes hmode rule
  | quotation q => exact onFound_attributes fun rule n => actQuotation_attributes hmode rule n

end Errors

/-- The error of a quotation is never attributed to a comment. -/
theorem InWindow.attributed_quotation {s : Session} (h : s.InWindow) {g : FlatSession}
    {opener : Span}
    (hstep : s.flatten.step false = some (g, .fail (.unterminatedQuotation opener))) :
    g.attributed (.unterminatedQuotation opener) = .unterminatedQuotation opener := by
  by_cases hdepth : s.flatten.NestsTooDeep
  · rw [step_flatten_deep h hdepth] at hstep
    cases hstep
  · rw [step_flatten h hdepth] at hstep
    have herror := step_attributes s
    cases hs : s.step with
    | mk t outcome =>
      rw [hs] at hstep herror
      cases outcome with
      | fail e =>
        obtain ⟨rfl, hraw⟩ : t.flatten = g ∧ e.raw = .unterminatedQuotation opener := by
          simpa [flattened, Step.raw] using hstep
        have hattributed := herror e rfl
        rwa [hraw, LexError.eq_of_raw hraw] at hattributed
      | proceed => cases hstep
      | emit token => cases hstep
      | starved => cases hstep

end Session

end StreamLexer
