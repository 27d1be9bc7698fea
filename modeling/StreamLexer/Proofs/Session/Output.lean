import StreamLexer.Proofs.Session.Frame

/-!
# What a session gives from some state on

`Session.output` is what lexing gives from a session on: its tokens up to the first end token or
error, and all warnings, those recorded before included. For a session over a whole source that is
`lex`. The equations of `Session.output` follow the answer of `Session.next`, the only thing it
depends on.
-/
namespace StreamLexer

/-- The tokens and the error as one list of outcomes. -/
def LexOutput.outcomes (o : LexOutput) : List (Except LexError Token) :=
  o.tokens.map .ok ++ (o.error.map .error).toList

namespace Session

/-- What lexing gives from here on. -/
def output (s : Session) : LexOutput :=
  { tokens := s.tokens.2.1, warnings := s.tokens.1.warnings.toList, error := s.tokens.2.2 }

section Equations

variable {s s' : Session}

theorem tokens_of_done {token : Token} (h : s.next = (s', .done token))
    (heof : token.kind.isEof = false) :
    s.tokens = (s'.tokens.1, token :: s'.tokens.2.1, s'.tokens.2.2) := by
  rw [tokens]
  split
  · rename_i s₁ token₁ h₁
    rw [h] at h₁
    cases h₁
    simp [heof]
  · rename_i h₁
    rw [h] at h₁
    cases h₁
  · rename_i h₁
    rw [h] at h₁
    cases h₁

theorem tokens_of_eof {token : Token} (h : s.next = (s', .done token))
    (heof : token.kind.isEof = true) : s.tokens = (s', [token], none) := by
  rw [tokens]
  split
  · rename_i s₁ token₁ h₁
    rw [h] at h₁
    cases h₁
    simp [heof]
  · rename_i h₁
    rw [h] at h₁
    cases h₁
  · rename_i h₁
    rw [h] at h₁
    cases h₁

theorem tokens_of_failed {error : LexError} (h : s.next = (s', .failed error)) :
    s.tokens = (s', [], some error) := by
  rw [tokens]
  split
  · rename_i h₁
    rw [h] at h₁
    cases h₁
  · rename_i h₁
    rw [h] at h₁
    cases h₁
    rfl
  · rename_i h₁
    rw [h] at h₁
    cases h₁

theorem tokens_of_pending (h : s.next = (s', .pending)) : s.tokens = (s', [], none) := by
  rw [tokens]
  split
  · rename_i h₁
    rw [h] at h₁
    cases h₁
  · rename_i h₁
    rw [h] at h₁
    cases h₁
  · rename_i h₁
    rw [h] at h₁
    cases h₁
    rfl

/-- The output depends on the answer to the next request only. -/
theorem tokens_congr (h : s.next = s'.next) : s.tokens = s'.tokens := by
  cases hanswer : s'.next with
  | mk r answer =>
    rw [hanswer] at h
    cases answer with
    | done token =>
      cases heof : token.kind.isEof with
      | true => rw [tokens_of_eof h heof, tokens_of_eof hanswer heof]
      | false => rw [tokens_of_done h heof, tokens_of_done hanswer heof]
    | failed error => rw [tokens_of_failed h, tokens_of_failed hanswer]
    | pending => rw [tokens_of_pending h, tokens_of_pending hanswer]

theorem output_congr (h : s.next = s'.next) : s.output = s'.output := by
  rw [output, output, tokens_congr h]

theorem outcomes_of_done {token : Token} (h : s.next = (s', .done token))
    (heof : token.kind.isEof = false) :
    s.output.outcomes = .ok token :: s'.output.outcomes := by
  simp [output, LexOutput.outcomes, tokens_of_done h heof]

theorem warnings_of_done {token : Token} (h : s.next = (s', .done token))
    (heof : token.kind.isEof = false) : s.output.warnings = s'.output.warnings := by
  simp [output, tokens_of_done h heof]

theorem outcomes_of_eof {token : Token} (h : s.next = (s', .done token))
    (heof : token.kind.isEof = true) : s.output.outcomes = [.ok token] := by
  simp [output, LexOutput.outcomes, tokens_of_eof h heof]

theorem warnings_of_eof {token : Token} (h : s.next = (s', .done token))
    (heof : token.kind.isEof = true) : s.output.warnings = s'.warnings.toList := by
  simp [output, tokens_of_eof h heof]

theorem outcomes_of_failed {error : LexError} (h : s.next = (s', .failed error)) :
    s.output.outcomes = [.error error] := by
  simp [output, LexOutput.outcomes, tokens_of_failed h]

theorem warnings_of_failed {error : LexError} (h : s.next = (s', .failed error)) :
    s.output.warnings = s'.warnings.toList := by
  simp [output, tokens_of_failed h]

end Equations

/-! ## Warnings accumulate -/

theorem run_warnings (s : Session) : s.warnings.toList <+: s.run.1.warnings.toList := by
  have hwarnings : s.warnings.toList <+: s.step.1.warnings.toList := stepOn_warnings s _
  induction s using run.induct with
  | case1 s s' hstep ih =>
    rw [hstep] at hwarnings
    rw [run_of_proceed hstep]
    exact hwarnings.trans (ih (stepOn_warnings s' _))
  | case2 s s' token hstep =>
    rw [hstep] at hwarnings
    rw [run_of_emit hstep]
    exact hwarnings
  | case3 s s' error hstep =>
    rw [hstep] at hwarnings
    rw [run_of_fail hstep]
    exact hwarnings
  | case4 s s' hstep =>
    rw [hstep] at hwarnings
    rw [run_of_starved hstep]
    exact hwarnings

theorem next_warnings (s : Session) : s.warnings.toList <+: s.next.1.warnings.toList := by
  have hrun := run_warnings s
  unfold next
  split
  · rename_i r error heq
    rw [heq] at hrun
    exact hrun
  · exact hrun

/-- The warnings recorded so far come first in the output. -/
theorem warnings_prefix_output (s : Session) : s.warnings.toList <+: s.output.warnings := by
  have hnext := next_warnings s
  induction s using tokens.induct with
  | case1 s s' token h heof =>
    rw [h] at hnext
    rw [warnings_of_eof h heof]
    exact hnext
  | case2 s s' token h heof _ _ _ _ ih =>
    rw [h] at hnext
    rw [warnings_of_done h (by simpa using heof)]
    exact hnext.trans (ih (next_warnings s'))
  | case3 s s' error h =>
    rw [h] at hnext
    rw [warnings_of_failed h]
    exact hnext
  | case4 s s' h =>
    rw [h] at hnext
    simp only [output, tokens_of_pending h]
    exact hnext

end Session

end StreamLexer
