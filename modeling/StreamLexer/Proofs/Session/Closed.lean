import StreamLexer.Proofs.Session.Frame

/-!
# Complete input

A session that knows the end of its input answers every request at once: no step waits
(`Session.step_answers`), so neither does a run of steps nor a request that passes over comments.
-/
namespace StreamLexer

namespace Session

theorem run_ne_pending {s : Session} (h : s.window.closed = true) : s.run.2 ≠ .pending := by
  have hwindow : s.step.1.window = s.window := stepOn_window s _
  induction s using run.induct with
  | case1 s s' hstep ih =>
    rw [hstep] at hwindow
    rw [run_of_proceed hstep]
    exact ih (by rw [hwindow, h]) (stepOn_window s' _)
  | case2 s s' token hstep =>
    rw [run_of_emit hstep]
    simp
  | case3 s s' error hstep =>
    rw [run_of_fail hstep]
    simp
  | case4 s s' hstep =>
    have hanswers := step_answers h
    rw [hstep] at hanswers
    exact absurd rfl hanswers

theorem next_ne_pending {s : Session} (h : s.window.closed = true) : s.next.2 ≠ .pending := by
  have hrun := run_ne_pending h
  unfold next
  split
  · simp
  · exact hrun

/-! ## Passing over comments -/

theorem nextSignificant_eq (s : Session) :
    s.nextSignificant =
      match s.next with
      | (t, .done token) =>
        if token.kind.isComment then
          match t.failure with
          | some error => (t, .failed error)
          | none => t.nextSignificant
        else (t, .done token)
      | answer => answer := by
  rw [nextSignificant]
  split
  · rename_i t token h
    rw [h]
    by_cases hcomment : token.kind.isComment = true
    · cases hfailure : t.failure with
      | none => simp [hcomment, hfailure]
      | some error => simp [hcomment, hfailure]
    · simp [hcomment]
  · rename_i hother
    split
    · rename_i h
      exact absurd h (hother _ _)
    · rfl

theorem nextSignificant_ne_pending {s : Session} (h : s.window.closed = true) :
    s.nextSignificant.2 ≠ .pending := by
  induction hweight : s.weight using Nat.strongRecOn generalizing s with
  | ind n ih =>
    subst hweight
    have hwindow := next_window s
    have hanswers := next_ne_pending h
    rw [nextSignificant_eq]
    cases hnext : s.next with
    | mk t answer =>
      rw [hnext] at hwindow hanswers
      cases answer with
      | pending => exact absurd rfl hanswers
      | failed error => simp
      | done token =>
        by_cases hcomment : token.kind.isComment = true
        · have hclosed : t.window.closed = true := (congrArg Window.closed hwindow).trans h
          have hlt := next_weight_lt hnext (isEof_of_isComment hcomment)
          cases hfailure : t.failure with
          | none => simpa [hcomment, hfailure] using ih t.weight hlt hclosed rfl
          | some error => simp [hcomment, hfailure]
        · simp [hcomment]

end Session

end StreamLexer
