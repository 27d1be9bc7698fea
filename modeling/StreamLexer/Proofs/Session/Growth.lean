import StreamLexer.Proofs.Session.Commit
import StreamLexer.Proofs.Session.Plain

/-!
# Sessions over a part of a source

A session that has been given a part of a source is compared with the same session over the whole of
it. `Session.Holds` is the invariant: the window is a piece of the source, the position lies in it,
and `left` is still to come.

A step of the first session is a step of the second one, with one exception: where what is held ends
within a run of plain bytes, the first session takes them in two steps or more. So the two agree on
`Session.run` and `Session.next`, not on every single step; `Session.next_whole` is the main
statement.
-/
namespace StreamLexer

namespace Session

/-- The session holds a piece of the source, stands within it, and has `left` still to come. -/
structure Holds (s : Session) (source left : List UInt8) : Prop where
  base_le : s.window.base ≤ s.pos.offset
  le_stop : s.pos.offset ≤ s.window.stop
  split : s.window.bytes ++ left = source.drop s.window.base
  closed : s.window.closed = true → left = []

section Holds

variable {s : Session} {source left : List UInt8}

theorem holds_new (config : Config) (source : List UInt8) :
    (Session.new config).Holds source source :=
  ⟨Nat.le_refl _, Nat.le_refl _, by simp [Session.new, ofWindow],
    fun h => by simp [Session.new, ofWindow] at h⟩

theorem Holds.inWindow (h : s.Holds source left) : s.InWindow :=
  ⟨h.base_le, h.le_stop⟩

/-- Over the whole source the session sees what it holds ahead and what is left, up to the end. -/
theorem Holds.lookahead_within (h : s.Holds source left) {a : Surroundings}
    (ha : a.window = .ofSource source) :
    (s.within a).lookahead = ⟨s.lookahead.bytes ++ left, true⟩ := by
  have hbase := h.base_le
  have hstop := h.le_stop
  simp only [Window.stop] at hstop
  have hdrop : source.drop s.pos.offset =
      s.window.bytes.drop (s.pos.offset - s.window.base) ++ left := by
    have hsplit : s.pos.offset = s.window.base + (s.pos.offset - s.window.base) := by omega
    rw [hsplit, ← List.drop_drop, ← h.split, List.drop_append_of_le_length (by omega),
      Nat.add_sub_cancel_left]
  simp [lookahead, Window.lookahead, ha, Window.ofSource, hdrop]

/-- A step within the held bytes keeps the invariant. -/
theorem Holds.of_commits (h : s.Holds source left) {r : Session × Step}
    (hcommits : s.Commits s.lookahead.bytes.length r) (hwindow : r.1.window = s.window) :
    r.1.Holds source left := by
  have hinside := h.inWindow.of_commits hcommits hwindow
  refine ⟨hinside.base_le, hinside.le_stop, ?_, ?_⟩
  · rw [hwindow]
    exact h.split
  · rw [hwindow]
    exact h.closed

/-- A chunk moves from what is left to what is held. -/
theorem Holds.feed {chunk : List UInt8} (h : s.Holds source (chunk ++ left))
    (hopen : s.window.closed = false) : (s.feed chunk).Holds source left := by
  have hbase := h.base_le
  have hstop := h.le_stop
  simp only [Window.stop] at hstop
  have hmin : min (s.pos.offset - s.window.base) s.window.bytes.length =
      s.pos.offset - s.window.base := by omega
  have hnew : s.window.base + (s.pos.offset - s.window.base) = s.pos.offset := by omega
  have hwindow : (s.feed chunk).window =
      ⟨s.pos.offset, s.window.bytes.drop (s.pos.offset - s.window.base) ++ chunk, false⟩ := by
    simp [Session.feed, Window.push, Window.releaseBefore, hopen, hmin, hnew]
  have hpos : (s.feed chunk).pos = s.pos := rfl
  refine ⟨?_, ?_, ?_, ?_⟩
  · rw [hwindow, hpos]
  · simp [hwindow, hpos, Window.stop]
  · simp only [hwindow]
    rw [List.append_assoc, ← List.drop_append_of_le_length (by omega), h.split, List.drop_drop,
      hnew]
  · rw [hwindow]
    intro hclosed
    cases hclosed

/-- A chunk that comes after the end of input changes nothing. -/
theorem Holds.feed_closed (h : s.Holds source left) (chunk : List UInt8)
    (hclosed : s.window.closed = true) : (s.feed chunk).Holds source left := by
  have hbase := h.base_le
  have hstop := h.le_stop
  simp only [Window.stop] at hstop
  have hmin : min (s.pos.offset - s.window.base) s.window.bytes.length =
      s.pos.offset - s.window.base := by omega
  have hnew : s.window.base + (s.pos.offset - s.window.base) = s.pos.offset := by omega
  have hwindow : (s.feed chunk).window =
      ⟨s.pos.offset, s.window.bytes.drop (s.pos.offset - s.window.base), true⟩ := by
    simp [Session.feed, Window.push, Window.releaseBefore, hclosed, hmin, hnew]
  have hpos : (s.feed chunk).pos = s.pos := rfl
  refine ⟨?_, ?_, ?_, ?_⟩
  · rw [hwindow, hpos]
  · simp [hwindow, hpos, Window.stop]
  · simp only [hwindow]
    rw [← List.drop_append_of_le_length (by omega), h.split, List.drop_drop, hnew]
  · intro _
    exact h.closed hclosed

/-- The input ends where nothing is left. -/
theorem Holds.finish (h : s.Holds source []) : s.finish.Holds source [] :=
  ⟨h.base_le, h.le_stop, h.split, fun _ => rfl⟩

end Holds

/-! ## Steps on more bytes -/

theorem onFound_append {ρ : Type} (s : Session) {scan : Lookahead → Verdict ρ} {held : List UInt8}
    (hexact : StarvesExactly scan held) (hsettles : Settles scan)
    {act act' : ρ → Nat → Session × Step}
    (hact : ∀ rule n, n ≤ held.length → act' rule n = act rule n) (more : List UInt8)
    (h : (s.onFound (scan ⟨held, false⟩) act).2 ≠ .starved) :
    s.onFound (scan ⟨held ++ more, true⟩) act' = s.onFound (scan ⟨held, false⟩) act := by
  cases hscan : scan ⟨held, false⟩ with
  | undecided =>
    rw [hscan] at h
    exact absurd rfl h
  | found rule n =>
    rw [(hexact.found_iff rule n).mp hscan more]
    exact hact rule n (hsettles.within _ rule n hscan)

/-- A body scan starves exactly where no plain byte is next. -/
theorem starvesExactly_of_not_plain {ρ : Type} {isStop : UInt8 → Bool}
    {skip : Cursor → Nat × Cursor} {rows : List (ρ × Pattern)} {plain : ρ}
    {scan : Lookahead → Verdict ρ} {held : List UInt8} (htable : BodyTable isStop skip rows)
    (hexact : BodyStarvesExactly rows plain scan) (hhead : ∀ b ∈ held.head?, isStop b = true) :
    StarvesExactly scan held :=
  hexact.atRule held fun b hb => (htable.stop_iff b).mp (hhead b hb)

/-- A step that does not wait, and where no plain byte is next, stays the same when more bytes
follow. -/
theorem stepOn_append {s : Session} {held : List UInt8}
    (hhead : ∀ b ∈ held.head?, s.mode.isPlain b = false)
    (h : (s.stepOn ⟨held, false⟩).2 ≠ .starved) (more : List UInt8) :
    s.stepOn ⟨held ++ more, true⟩ = s.stepOn ⟨held, false⟩ := by
  have htake : ∀ n, n ≤ held.length → (held ++ more).take n = held.take n :=
    fun n hn => List.take_append_of_le_length hn
  -- each mode has its own scan, and all scans starve exactly
  cases hmode : s.mode with
  | code =>
    by_cases hpending : s.headerPending = true
    · simp only [stepOn, hmode, hpending, if_true] at h ⊢
      exact s.onFound_append (HeaderRule.starvesExactly held) HeaderRule.settles
        (fun rule n _ => rfl) more h
    · simp only [stepOn, hmode, hpending, Bool.false_eq_true, if_false] at h ⊢
      exact s.onFound_append (TokenRule.starvesExactly held) TokenRule.settles
        (fun rule n hn => by rw [htake n hn]) more h
  | comment c text =>
    simp only [stepOn, hmode] at h ⊢
    have hexact : StarvesExactly CommentRule.scan held :=
      starvesExactly_of_not_plain CommentRule.bodyTable CommentRule.starvesExactly fun b hb => by
        simpa [hmode, Mode.isPlain] using hhead b hb
    exact s.onFound_append hexact CommentRule.settles (fun rule n hn => by rw [htake n hn]) more h
  | string o text =>
    cases hdelimiter : o.delimiter with
    | none =>
      simp only [stepOn, hmode, hdelimiter] at h ⊢
      have hexact : StarvesExactly StringRule.scan held :=
        starvesExactly_of_not_plain StringRule.bodyTable StringRule.starvesExactly fun b hb => by
          simpa [hmode, Mode.isPlain, hdelimiter] using hhead b hb
      exact s.onFound_append hexact StringRule.settles (fun rule n hn => by rw [htake n hn]) more h
    | some id =>
      simp only [stepOn, hmode, hdelimiter] at h ⊢
      have hexact : StarvesExactly QuotedRule.scan held :=
        starvesExactly_of_not_plain QuotedRule.bodyTable QuotedRule.starvesExactly fun b hb => by
          simpa [hmode, Mode.isPlain, hdelimiter] using hhead b hb
      exact s.onFound_append hexact QuotedRule.settles (fun rule n hn => by rw [htake n hn]) more h
  | quotation q =>
    simp only [stepOn, hmode] at h ⊢
    have hexact : StarvesExactly QuotationRule.scan held :=
      starvesExactly_of_not_plain QuotationRule.bodyTable QuotationRule.starvesExactly
        fun b hb => by simpa [hmode, Mode.isPlain] using hhead b hb
    exact s.onFound_append hexact QuotationRule.settles (fun rule n _ => rfl) more h

/-! ## The session over the whole source -/

section Whole

variable {s : Session} {source left : List UInt8} {a : Surroundings}

/-- A step of the session, seen over the whole source: it waits, or it is a step there too, or it
takes plain bytes which the session there may have taken in advance. -/
theorem step_whole (h : s.Holds source left) (ha : a.window = .ofSource source) :
    s.step = (s, .starved) ∧ s.window.closed = false ∨
      s.step.2 ≠ .starved ∧ s.step.1.Holds source left ∧
        ((s.within a).step = (s.step.1.within a, s.step.2) ∨
          s.step.2 = .proceed ∧ (s.within a).run = (s.step.1.within a).run) := by
  have hwhole := h.lookahead_within ha
  have hview : s.lookahead = ⟨s.lookahead.bytes, s.window.closed⟩ := rfl
  rcases s.stepOn_cases s.lookahead with hwait | hcommits
  · exact .inl hwait
  refine .inr ⟨hcommits.answers, h.of_commits hcommits (stepOn_window s _), ?_⟩
  by_cases hclosed : s.window.closed = true
  · -- the session holds all that the other one sees
    left
    have hleft := h.closed hclosed
    rw [hleft, List.append_nil, ← hclosed, ← hview] at hwhole
    rw [step, hwhole, stepOn_within]
    rfl
  · have hopen : s.window.closed = false := by simpa using hclosed
    by_cases hhead : ∀ b ∈ s.lookahead.bytes.head?, s.mode.isPlain b = false
    · left
      have hanswers : (s.stepOn ⟨s.lookahead.bytes, false⟩).2 ≠ .starved := by
        rw [← hopen, ← hview]
        exact hcommits.answers
      have hgrown := stepOn_append hhead hanswers left
      rw [step, hwhole, stepOn_within, hgrown, ← hopen, ← hview]
      rfl
    · -- the other session may see more plain bytes after these, and take them with them
      right
      push Not at hhead
      obtain ⟨b, hb, hplain⟩ := hhead
      obtain ⟨rest, hbytes⟩ := List.head?_eq_some_iff.mp hb
      have hplain : s.mode.isPlain b = true := by simpa using hplain
      have hstep : s.step =
          (s.tookPlain (s.lookahead.bytes.takeWhile s.mode.isPlain), .proceed) := by
        rw [step, hview, hbytes, stepOn_plain hplain]
      rw [hstep]
      refine ⟨rfl, ?_⟩
      have hsplit : (s.within a).lookahead.bytes =
          s.lookahead.bytes.takeWhile s.mode.isPlain ++
            (s.lookahead.bytes.dropWhile s.mode.isPlain ++ left) := by
        rw [hwhole, ← List.append_assoc, List.takeWhile_append_dropWhile]
      have hbase : (s.within a).window.base ≤ (s.within a).pos.offset := by
        rw [within_window, ha]
        exact Nat.zero_le _
      exact run_tookPlain hbase hsplit fun c hc => List.all_eq_true.mp List.all_takeWhile c hc

/-- Runs agree: a session that waits leaves the other one to give the same answer later, and an
answer of the session is that of the other one. -/
theorem run_whole (h : s.Holds source left) (ha : a.window = .ofSource source) :
    s.run.1.Holds source left ∧ s.run.1.failure = s.failure ∧
      (s.run.2 = .pending ∧ s.window.closed = false ∧
          (s.within a).run = (s.run.1.within a).run ∨
        s.run.2 ≠ .pending ∧ (s.within a).run = (s.run.1.within a, s.run.2)) := by
  have hfailure : s.step.1.failure = s.failure := stepOn_failure s _
  have hwindow : s.step.1.window = s.window := stepOn_window s _
  -- along the steps of the session that waits; the other one need not take the same ones
  induction s using run.induct with
  | case1 s s' hstep ih =>
    rw [hstep] at hfailure hwindow
    obtain ⟨-, hholds, hsame⟩ : _ ∧ s'.Holds source left ∧
        (s.within a).run = (s'.within a).run := by
      rcases step_whole h ha with ⟨hwait, -⟩ | ⟨hanswers, hholds, hwithin | ⟨-, hplain⟩⟩
      · rw [hstep] at hwait
        cases hwait
      · rw [hstep] at hwithin hholds hanswers
        exact ⟨hanswers, hholds, run_of_proceed hwithin⟩
      · rw [hstep] at hplain hholds hanswers
        exact ⟨hanswers, hholds, hplain⟩
    rw [run_of_proceed hstep, hsame, ← hfailure, ← hwindow]
    exact ih hholds (stepOn_failure s' _) (stepOn_window s' _)
  | case2 s s' token hstep =>
    rw [hstep] at hfailure
    rcases step_whole h ha with ⟨hwait, -⟩ | ⟨-, hholds, hwithin | ⟨hplain, -⟩⟩
    · rw [hstep] at hwait
      cases hwait
    · rw [hstep] at hwithin hholds
      rw [run_of_emit hstep, run_of_emit hwithin]
      exact ⟨hholds, hfailure, .inr ⟨by simp, rfl⟩⟩
    · rw [hstep] at hplain
      cases hplain
  | case3 s s' error hstep =>
    rw [hstep] at hfailure
    rcases step_whole h ha with ⟨hwait, -⟩ | ⟨-, hholds, hwithin | ⟨hplain, -⟩⟩
    · rw [hstep] at hwait
      cases hwait
    · rw [hstep] at hwithin hholds
      rw [run_of_fail hstep, run_of_fail hwithin]
      exact ⟨hholds, hfailure, .inr ⟨by simp, rfl⟩⟩
    · rw [hstep] at hplain
      cases hplain
  | case4 s s' hstep =>
    rcases step_whole h ha with ⟨hwait, hopen⟩ | ⟨hanswers, -⟩
    · obtain rfl : s' = s := by
        rw [hstep] at hwait
        injection hwait
      rw [run_of_starved hstep]
      exact ⟨h, rfl, .inl ⟨rfl, hopen, rfl⟩⟩
    · rw [hstep] at hanswers
      exact absurd rfl hanswers

/-- Requests agree: a session that waits leaves the other one to give the same answer later, and an
answer of the session is that of the other one. -/
theorem next_whole (h : s.Holds source left) (ha : a.window = .ofSource source) :
    s.next.1.Holds source left ∧
      (s.next.2 = .pending ∧ s.window.closed = false ∧ s.next.1.failure = s.failure ∧
          (s.next.1.within a).next = (s.within a).next ∨
        (∃ token, s.next.2 = .done token ∧ s.next.1.failure = s.failure ∧
          (s.within a).next = (s.next.1.within a, .done token)) ∨
        ∃ error, s.next.2 = .failed error ∧ s.next.1.failure = some error ∧
          (s.within a).next =
            (s.next.1.within { a with failure := some error }, .failed error)) := by
  obtain ⟨hholds, hfailure, hrun⟩ := run_whole h ha
  cases hanswer : s.run with
  | mk r answer =>
    rw [hanswer] at hholds hfailure hrun
    cases answer with
    | pending =>
      obtain ⟨-, hopen, hsame⟩ | ⟨hne, -⟩ := hrun
      · have hnext : s.next = (r, .pending) := by rw [next, hanswer]
        have hwithin : (r.within a).next = (s.within a).next := by rw [next, next, hsame]
        rw [hnext]
        exact ⟨hholds, .inl ⟨rfl, hopen, hfailure, hwithin⟩⟩
      · exact absurd rfl hne
    | done token =>
      obtain ⟨hpending, -⟩ | ⟨-, hsame⟩ := hrun
      · cases hpending
      · have hnext : s.next = (r, .done token) := by rw [next, hanswer]
        have hwithin : (s.within a).next = (r.within a, .done token) := by rw [next, hsame]
        rw [hnext]
        exact ⟨hholds, .inr (.inl ⟨token, rfl, hfailure, hwithin⟩)⟩
    | failed error =>
      obtain ⟨hpending, -⟩ | ⟨-, hsame⟩ := hrun
      · cases hpending
      · have hnext : s.next = (r.halt error, .failed error) := by rw [next, hanswer]
        have hwithin : (s.within a).next = ((r.within a).halt error, .failed error) := by
          rw [next, hsame]
        rw [hnext, hwithin]
        refine ⟨⟨hholds.base_le, hholds.le_stop, hholds.split, hholds.closed⟩, ?_⟩
        exact .inr (.inr ⟨error, rfl, rfl, rfl⟩)

end Whole

end Session

end StreamLexer
