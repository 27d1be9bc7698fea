import StreamLexer.Session.Run

/-!
# What a step does not touch

An action reads the position, the mode and the lexeme; the window, the failure and the warnings
recorded before play no part in it. `Session.stepOn_within` says so once for all actions: a session
put into other surroundings takes the same step. The frame facts about single fields follow from it.

The lemmas about `Session.run` at the end open its recursion one outcome at a time.
-/
namespace StreamLexer

/-- The parts of a session that no action reads. -/
structure Surroundings where
  window : Window
  /-- Warnings recorded before those of the session. -/
  earlier : Array Warning := #[]
  failure : Option LexError := none

/-- The surroundings of a new session over a whole source. -/
def Surroundings.ofSource (source : List UInt8) : Surroundings :=
  { window := .ofSource source }

namespace Session

/-- The session in other surroundings. -/
def within (s : Session) (a : Surroundings) : Session :=
  { s with window := a.window, warnings := a.earlier ++ s.warnings, failure := a.failure }

/-- The surroundings that a session has of itself. -/
def surroundings (s : Session) : Surroundings :=
  ⟨s.window, s.warnings, s.failure⟩

section Fields

variable (s : Session) (a : Surroundings)

@[simp] theorem within_pos : (s.within a).pos = s.pos := rfl

@[simp] theorem within_mode : (s.within a).mode = s.mode := rfl

@[simp] theorem within_keywords : (s.within a).keywords = s.keywords := rfl

@[simp] theorem within_headerPending : (s.within a).headerPending = s.headerPending := rfl

@[simp] theorem within_window : (s.within a).window = a.window := rfl

@[simp] theorem within_warnings : (s.within a).warnings = a.earlier ++ s.warnings := rfl

@[simp] theorem within_failure : (s.within a).failure = a.failure := rfl

@[simp] theorem within_moveTo (pos : Position) :
    (s.within a).moveTo pos = (s.moveTo pos).within a := rfl

@[simp] theorem within_warn (kind : WarningKind) (span : Span) :
    (s.within a).warn kind span = (s.warn kind span).within a := by
  simp [within, warn]

@[simp] theorem within_goOn (mode : Mode) :
    (s.within a).goOn mode = ((s.goOn mode).1.within a, (s.goOn mode).2) := rfl

@[simp] theorem within_endConstruct (kind : TokenKind) (start : Position) :
    (s.within a).endConstruct kind start =
      ((s.endConstruct kind start).1.within a, (s.endConstruct kind start).2) := rfl

/-- A session without warnings, in its own surroundings again. -/
theorem within_surroundings : { s with warnings := #[] }.within s.surroundings = s := by
  simp [within, surroundings]

end Fields

/-! ## Actions in other surroundings -/

section Actions

variable (s : Session) (a : Surroundings)

theorem actCode_within (rule : TokenRule) (lexeme : List UInt8) :
    (s.within a).actCode rule lexeme =
      ((s.actCode rule lexeme).1.within a, (s.actCode rule lexeme).2) := by
  cases rule with
  | word rule =>
    simp only [actCode, within_keywords, within_pos, within_moveTo]
    split <;> rfl
  | _ => simp [actCode]

theorem actHeader_within (rule : HeaderRule) (length : Nat) :
    (s.within a).actHeader rule length =
      ((s.actHeader rule length).1.within a, (s.actHeader rule length).2) := by
  cases rule <;> rfl

theorem actComment_within (c : OpenComment) (text : List UInt8) (rule : CommentRule)
    (lexeme : List UInt8) :
    (s.within a).actComment c text rule lexeme =
      ((s.actComment c text rule lexeme).1.within a, (s.actComment c text rule lexeme).2) := by
  cases rule with
  | close =>
    simp only [actComment, within_pos, within_moveTo]
    split <;> rfl
  | _ => rfl

theorem closeString_within (o : OpenString) (text terminator : List UInt8) :
    (s.within a).closeString o text terminator =
      ((s.closeString o text terminator).1.within a, (s.closeString o text terminator).2) := by
  simp only [closeString]
  split <;> rfl

theorem actString_within (o : OpenString) (text : List UInt8) (rule : StringRule)
    (lexeme : List UInt8) :
    (s.within a).actString o text rule lexeme =
      ((s.actString o text rule lexeme).1.within a, (s.actString o text rule lexeme).2) := by
  cases rule with
  | close => simp only [actString, within_pos, within_moveTo, closeString_within]
  | decimalEscape =>
    simp only [actString, within_pos, within_moveTo]
    split
    · rfl
    · split <;> rfl
  | newline =>
    simp only [actString, within_pos, within_moveTo]
    split
    · rfl
    · simp
  | unknownEscape => simp [actString]
  | _ => rfl

theorem actQuoted_within (o : OpenString) (id text : List UInt8) (rule : QuotedRule)
    (lexeme : List UInt8) :
    (s.within a).actQuoted o id text rule lexeme =
      ((s.actQuoted o id text rule lexeme).1.within a, (s.actQuoted o id text rule lexeme).2) := by
  cases rule with
  | terminator =>
    simp only [actQuoted, within_pos, within_moveTo, closeString_within]
    split <;> rfl
  | _ => rfl

theorem actQuotation_within (q : OpenQuotation) (rule : QuotationRule) (length : Nat) :
    (s.within a).actQuotation q rule length =
      ((s.actQuotation q rule length).1.within a, (s.actQuotation q rule length).2) := by
  cases rule with
  | close =>
    simp only [actQuotation, within_pos, within_moveTo]
    split <;> rfl
  | _ => rfl

theorem onFound_within {ρ : Type} (verdict : Verdict ρ) {act act' : ρ → Nat → Session × Step}
    (h : ∀ rule n, act' rule n = ((act rule n).1.within a, (act rule n).2)) :
    (s.within a).onFound verdict act' =
      ((s.onFound verdict act).1.within a, (s.onFound verdict act).2) := by
  cases verdict with
  | undecided => rfl
  | found rule n => exact h rule n

/-- A session in other surroundings takes the same step on the same bytes. -/
theorem stepOn_within (view : Lookahead) :
    (s.within a).stepOn view = ((s.stepOn view).1.within a, (s.stepOn view).2) := by
  unfold stepOn
  simp only [within_mode, within_headerPending]
  split
  · by_cases hpending : s.headerPending = true
    · simp only [hpending, if_true]
      exact onFound_within s a _ fun rule n => actHeader_within s a rule n
    · simp only [hpending, Bool.false_eq_true, if_false]
      exact onFound_within s a _ fun rule n => actCode_within s a rule _
  · exact onFound_within s a _ fun rule n => actComment_within s a _ _ rule _
  · split
    · exact onFound_within s a _ fun rule n => actString_within s a _ _ rule _
    · exact onFound_within s a _ fun rule n => actQuoted_within s a _ _ _ rule _
  · exact onFound_within s a _ fun rule n => actQuotation_within s a _ rule n

end Actions

/-! ## What a step keeps -/

/-- A step as that of a session without warnings, put into the surroundings afterwards. -/
theorem stepOn_eq (s : Session) (view : Lookahead) :
    s.stepOn view = ((stepOn { s with warnings := #[] } view).1.within s.surroundings,
      (stepOn { s with warnings := #[] } view).2) := by
  rw [← stepOn_within, within_surroundings]

@[simp] theorem stepOn_window (s : Session) (view : Lookahead) :
    (s.stepOn view).1.window = s.window := by
  rw [stepOn_eq]
  rfl

@[simp] theorem stepOn_failure (s : Session) (view : Lookahead) :
    (s.stepOn view).1.failure = s.failure := by
  rw [stepOn_eq]
  rfl

/-- A step adds its warnings behind those recorded before. -/
theorem stepOn_warnings (s : Session) (view : Lookahead) :
    s.warnings.toList <+: (s.stepOn view).1.warnings.toList := by
  rw [stepOn_eq, within_warnings, Array.toList_append]
  exact List.prefix_append _ _

/-! ## Runs -/

theorem run_of_proceed {s s' : Session} (h : s.step = (s', .proceed)) : s.run = s'.run := by
  rw [run, h]

theorem run_of_emit {s s' : Session} {token : Token} (h : s.step = (s', .emit token)) :
    s.run = (s', .done token) := by
  rw [run, h]

theorem run_of_fail {s s' : Session} {error : LexError} (h : s.step = (s', .fail error)) :
    s.run = (s', .failed error) := by
  rw [run, h]

theorem run_of_starved {s s' : Session} (h : s.step = (s', .starved)) :
    s.run = (s', .pending) := by
  rw [run, h]

/-- A request that is answered with a token is a run that ends with it. -/
theorem run_of_next_done {s s' : Session} {token : Token} (h : s.next = (s', .done token)) :
    s.run = (s', .done token) := by
  unfold next at h
  split at h
  · cases h
  · exact h

/-- What every step preserves, a run preserves. -/
theorem run_preserves {P : Session → Prop} (hstep : ∀ s, P s → P s.step.1) {s : Session}
    (h : P s) : P s.run.1 := by
  have hfirst : P s.step.1 := hstep s h
  induction s using run.induct with
  | case1 s s' hs ih =>
    rw [hs] at hfirst
    rw [run_of_proceed hs]
    exact ih hfirst (hstep s' hfirst)
  | case2 s s' token hs =>
    rw [hs] at hfirst
    rwa [run_of_emit hs]
  | case3 s s' error hs =>
    rw [hs] at hfirst
    rwa [run_of_fail hs]
  | case4 s s' hs =>
    rw [hs] at hfirst
    rwa [run_of_starved hs]

/-- What every step keeps, a run keeps. -/
theorem run_keeps {α : Type} {f : Session → α} (h : ∀ s view, f (s.stepOn view).1 = f s)
    (s : Session) : f s.run.1 = f s :=
  run_preserves (P := fun t => f t = f s) (fun t ht => (h t _).trans ht) rfl

/-- What every step and every error preserves, a request for a token preserves. -/
theorem next_preserves {P : Session → Prop} (hstep : ∀ s, P s → P s.step.1)
    (hhalt : ∀ s error, P s → P (s.halt error)) {s : Session} (h : P s) : P s.next.1 := by
  have hrun := run_preserves hstep h
  unfold next
  split
  · rename_i r error heq
    rw [heq] at hrun
    exact hhalt r error hrun
  · exact hrun

theorem run_window (s : Session) : s.run.1.window = s.window :=
  run_keeps stepOn_window s

theorem run_failure (s : Session) : s.run.1.failure = s.failure :=
  run_keeps stepOn_failure s

theorem next_window (s : Session) : s.next.1.window = s.window := by
  have hrun := run_window s
  unfold next
  split
  · rename_i r error heq
    rw [heq] at hrun
    exact hrun
  · exact hrun

end Session

end StreamLexer
