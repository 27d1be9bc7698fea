import StreamLexer.Proofs.Scan.Advance
import StreamLexer.Proofs.Session.Frame

/-!
# What a step commits

A step either waits and changes nothing, or commits a lexeme: it moves the position within the held
bytes, keeps the keywords, and has an outcome. `Session.stepOn_cases` says which of the two; a
session that knows the end of its input never waits.

`Session.AtEnd` is the end of input. Only there does a session give an end token, unless a keyword
stands for one, and from there on it gives nothing else.
-/
namespace StreamLexer

namespace Session

/-- The step has gone over at most `n` bytes and has an outcome. -/
structure Commits (s : Session) (n : Nat) (r : Session × Step) : Prop where
  le_offset : s.pos.offset ≤ r.1.pos.offset
  offset_le : r.1.pos.offset ≤ s.pos.offset + n
  keywords : r.1.keywords = s.keywords
  answers : r.2 ≠ .starved

theorem Commits.mono {s : Session} {m n : Nat} {r : Session × Step} (h : s.Commits m r)
    (hmn : m ≤ n) : s.Commits n r :=
  ⟨h.le_offset, Nat.le_trans h.offset_le (Nat.add_le_add_left hmn _), h.keywords, h.answers⟩

/-! ## Actions commit -/

section Actions

variable (s : Session)

/-- Moving over all of a lexeme. -/
theorem commits_shifted {n : Nat} {r : Session × Step} (hoffset : r.1.pos.offset = s.pos.offset + n)
    (hkeywords : r.1.keywords = s.keywords) (hanswers : r.2 ≠ .starved) : s.Commits n r :=
  ⟨by omega, by omega, hkeywords, hanswers⟩

theorem wordStop_offset (rule : WordRule) (stop : Position) :
    (wordStop rule stop).offset = stop.offset := by
  unfold wordStop
  split <;> rfl

theorem actCode_commits (rule : TokenRule) (lexeme : List UInt8)
    (hstray : rule = .strayClose → 0 < lexeme.length) :
    s.Commits lexeme.length (s.actCode rule lexeme) := by
  cases rule with
  | strayClose =>
    have hpos := hstray rfl
    refine ⟨?_, ?_, rfl, by simp [actCode]⟩
    · simp only [actCode, moveTo, warn, Position.shifted]
      omega
    · simp only [actCode, moveTo, warn, Position.shifted]
      omega
  | word rule =>
    have hoffset := wordStop_offset rule (s.pos.shifted lexeme.length)
    simp only [actCode]
    split
    · exact s.commits_shifted hoffset rfl (by simp)
    · exact s.commits_shifted hoffset rfl (by simp)
  | _ => exact s.commits_shifted rfl rfl (by simp [actCode, goOn])

theorem actHeader_commits (rule : HeaderRule) (n : Nat) : s.Commits n (s.actHeader rule n) := by
  cases rule with
  | absent => exact ⟨Nat.le_refl _, Nat.le_add_right _ _, rfl, by simp [actHeader]⟩
  | _ => exact s.commits_shifted rfl rfl (by simp [actHeader])

theorem actComment_commits (c : OpenComment) (text : List UInt8) (rule : CommentRule)
    (lexeme : List UInt8) : s.Commits lexeme.length (s.actComment c text rule lexeme) := by
  cases rule with
  | close =>
    simp only [actComment]
    split
    · exact s.commits_shifted rfl rfl (by simp [goOn])
    · exact s.commits_shifted rfl rfl (by simp [endConstruct])
  | _ => exact s.commits_shifted rfl rfl (by simp [actComment, goOn])

theorem closeString_pos (r : Session) (o : OpenString) (text terminator : List UInt8) :
    (r.closeString o text terminator).1.pos = r.pos := by
  unfold closeString
  split <;> rfl

theorem closeString_commits (r : Session) {n : Nat} (hoffset : r.pos.offset = s.pos.offset + n)
    (hkeywords : r.keywords = s.keywords) (o : OpenString) (text terminator : List UInt8) :
    s.Commits n (r.closeString o text terminator) := by
  unfold closeString
  split
  · exact s.commits_shifted hoffset hkeywords (by simp [goOn])
  · exact s.commits_shifted hoffset hkeywords (by simp [endConstruct])

theorem actString_commits (o : OpenString) (text : List UInt8) (rule : StringRule)
    (lexeme : List UInt8) : s.Commits lexeme.length (s.actString o text rule lexeme) := by
  cases rule with
  | close => exact s.closeString_commits (s.moveTo (s.pos.shifted lexeme.length)) rfl rfl o _ _
  | decimalEscape =>
    simp only [actString]
    split
    · exact s.commits_shifted rfl rfl (by simp [goOn])
    · split
      · exact s.commits_shifted rfl rfl (by simp [goOn])
      · exact s.commits_shifted rfl rfl (by simp)
  | newline =>
    simp only [actString]
    split
    · exact s.commits_shifted rfl rfl (by simp [goOn])
    · exact s.commits_shifted rfl rfl (by simp [goOn])
  | _ => exact s.commits_shifted rfl rfl (by simp [actString, goOn])

theorem actQuoted_commits (o : OpenString) (id text : List UInt8) (rule : QuotedRule)
    (lexeme : List UInt8) : s.Commits lexeme.length (s.actQuoted o id text rule lexeme) := by
  cases rule with
  | terminator =>
    simp only [actQuoted]
    split
    · exact s.closeString_commits (s.moveTo (s.pos.shifted lexeme.length)) rfl rfl o _ _
    · exact s.commits_shifted rfl rfl (by simp [goOn])
  | _ => exact s.commits_shifted rfl rfl (by simp [actQuoted, goOn])

theorem actQuotation_commits (q : OpenQuotation) (rule : QuotationRule) (n : Nat) :
    s.Commits n (s.actQuotation q rule n) := by
  cases rule with
  | close =>
    simp only [actQuotation]
    split
    · exact s.commits_shifted rfl rfl (by simp [goOn])
    · exact s.commits_shifted rfl rfl (by simp [endConstruct])
  | _ => exact s.commits_shifted rfl rfl (by simp [actQuotation, goOn])

/-- Either the scan waits, which it does on open input only, or the action of its rule commits. -/
theorem onFound_cases {ρ : Type} {scan : Lookahead → Verdict ρ} (hsettles : Settles scan)
    (view : Lookahead) {act : ρ → Nat → Session × Step}
    (hact : ∀ rule n, scan view = .found rule n → n ≤ view.bytes.length →
      s.Commits n (act rule n)) :
    s.onFound (scan view) act = (s, .starved) ∧ view.closed = false ∨
      s.Commits view.bytes.length (s.onFound (scan view) act) := by
  cases hscan : scan view with
  | undecided =>
    refine .inl ⟨rfl, ?_⟩
    by_contra hclosed
    obtain ⟨rule, n, hfound⟩ := hsettles.decides view.bytes
    have hview : view = ⟨view.bytes, true⟩ := by
      rw [← (by simpa using hclosed : view.closed = true)]
    rw [← hview, hscan] at hfound
    cases hfound
  | found rule n =>
    have hle := hsettles.within view rule n hscan
    exact .inr ((hact rule n hscan hle).mono hle)

/-- A step waits, which it does on open input only, or commits. -/
theorem stepOn_cases (view : Lookahead) :
    s.stepOn view = (s, .starved) ∧ view.closed = false ∨
      s.Commits view.bytes.length (s.stepOn view) := by
  -- all but the header and quotations act on the lexeme, which is as long as the scan says
  have htake : ∀ {n : Nat} {r : Session × Step}, n ≤ view.bytes.length →
      s.Commits (view.bytes.take n).length r → s.Commits n r := by
    intro n r hn h
    rwa [List.length_take_of_le hn] at h
  unfold stepOn
  split
  · by_cases hpending : s.headerPending = true
    · simp only [hpending, if_true]
      exact s.onFound_cases HeaderRule.settles view fun rule n _ _ => s.actHeader_commits rule n
    · simp only [hpending, Bool.false_eq_true, if_false]
      refine s.onFound_cases TokenRule.settles view fun rule n hscan hn => htake hn ?_
      refine s.actCode_commits rule _ ?_
      rintro rfl
      rw [List.length_take_of_le hn]
      rcases TokenRule.bounded.found _ _ _ hscan with ⟨hrule, -⟩ | ⟨hpos, -⟩
      · cases hrule
      · exact hpos
  · exact s.onFound_cases CommentRule.settles view fun rule n _ hn =>
      htake hn (s.actComment_commits _ _ rule _)
  · split
    · exact s.onFound_cases StringRule.settles view fun rule n _ hn =>
        htake hn (s.actString_commits _ _ rule _)
    · exact s.onFound_cases QuotedRule.settles view fun rule n _ hn =>
        htake hn (s.actQuoted_commits _ _ _ rule _)
  · exact s.onFound_cases QuotationRule.settles view fun rule n _ _ =>
      s.actQuotation_commits _ rule n

end Actions

/-! ## Where a session stands -/

/-- The session stands within what it holds. -/
structure InWindow (s : Session) : Prop where
  base_le : s.window.base ≤ s.pos.offset
  le_stop : s.pos.offset ≤ s.window.stop

section InWindow

variable {s : Session}

/-- What is held ahead ends where the window ends. -/
theorem InWindow.length_lookahead (h : s.InWindow) :
    s.pos.offset + s.lookahead.bytes.length = s.window.stop := by
  have hbase := h.base_le
  have hstop := h.le_stop
  simp only [Window.stop] at hstop
  simp only [lookahead, Window.length_lookahead, Window.stop]
  omega

theorem InWindow.of_commits (h : s.InWindow) {r : Session × Step}
    (hcommits : s.Commits s.lookahead.bytes.length r) (hwindow : r.1.window = s.window) :
    r.1.InWindow := by
  have hlength := h.length_lookahead
  have hle := hcommits.le_offset
  have hbound := hcommits.offset_le
  have hbase := h.base_le
  refine ⟨?_, ?_⟩
  · rw [hwindow]
    omega
  · rw [hwindow]
    omega

/-- A step does not leave what is held. -/
theorem InWindow.step (h : s.InWindow) : s.step.1.InWindow := by
  rcases s.stepOn_cases s.lookahead with ⟨hwaits, -⟩ | hcommits
  · rw [Session.step, hwaits]
    exact h
  · exact h.of_commits hcommits (s.stepOn_window _)

/-- A chunk lets go of nothing from the position on. -/
theorem InWindow.feed (h : s.InWindow) (chunk : List UInt8) : (s.feed chunk).InWindow := by
  have hbase := h.base_le
  have hstop := h.le_stop
  simp only [Window.stop] at hstop
  have hpos : (s.feed chunk).pos = s.pos := rfl
  have hwindow : (s.feed chunk).window =
      ((s.window.releaseBefore s.pos.offset).push chunk).1 := rfl
  refine ⟨?_, ?_⟩
  · rw [hpos, hwindow, Window.push]
    split
    · simp only [Window.releaseBefore]
      omega
    · simp only [Window.releaseBefore]
      omega
  · rw [hpos, hwindow, Window.push]
    split
    · rw [Window.stop_releaseBefore]
      exact h.le_stop
    · simp only [Window.stop, Window.releaseBefore, List.length_append, List.length_drop]
      omega

end InWindow

end Session

/-! ## The end of input -/

/-- Dropping what lies behind an offset changes nothing about what lies ahead. -/
theorem Window.lookahead_releaseBefore (w : Window) (offset : Nat) :
    (w.releaseBefore offset).lookahead offset = w.lookahead offset := by
  simp only [Window.lookahead, Window.releaseBefore, List.drop_drop]
  by_cases h : offset - w.base ≤ w.bytes.length
  · have hdrop : min (offset - w.base) w.bytes.length +
        (offset - (w.base + min (offset - w.base) w.bytes.length)) = offset - w.base := by omega
    rw [hdrop]
  · rw [List.drop_eq_nil_of_le (by omega), List.drop_eq_nil_of_le (by omega)]

namespace Session

/-- Source code is to be read, and nothing is left of it. -/
structure AtEnd (s : Session) : Prop where
  mode : s.mode = .code
  decided : s.headerPending = false
  view : s.lookahead = ⟨[], true⟩

/-- At the end of input the session gives the end token and stays as it is. -/
theorem AtEnd.step {s : Session} (h : s.AtEnd) :
    s.step = (s, .emit ⟨.eof, .point s.pos⟩) := by
  have hscan : TokenRule.scan ⟨[], true⟩ = .found .endOfInput 0 := rfl
  simp only [Session.step, stepOn, h.mode, h.decided, h.view, hscan, onFound, Bool.false_eq_true,
    if_false]
  rfl

theorem AtEnd.next {s : Session} (h : s.AtEnd) :
    s.next = (s, .done ⟨.eof, .point s.pos⟩) := by
  rw [Session.next, run_of_emit h.step]

theorem AtEnd.feed {s : Session} (h : s.AtEnd) (chunk : List UInt8) : (s.feed chunk).AtEnd := by
  have hclosed : s.window.closed = true := congrArg Lookahead.closed h.view
  have hwindow : (s.feed chunk).window = s.window.releaseBefore s.pos.offset := by
    simp [Session.feed, Window.push, Window.releaseBefore, hclosed]
  refine ⟨h.mode, h.decided, ?_⟩
  have hview : (s.feed chunk).lookahead = (s.feed chunk).window.lookahead s.pos.offset := rfl
  rw [hview, hwindow, Window.lookahead_releaseBefore]
  exact h.view

theorem AtEnd.finish {s : Session} (h : s.AtEnd) : s.finish.AtEnd := by
  have hbytes : s.lookahead.bytes = [] := congrArg Lookahead.bytes h.view
  refine ⟨h.mode, h.decided, ?_⟩
  have hview : s.finish.lookahead = ⟨s.lookahead.bytes, true⟩ := rfl
  rw [hview, hbytes]

end Session

/-- The scan of source code finds the end of input only where there is nothing left. -/
theorem TokenRule.view_of_endOfInput {view : Lookahead} {n : Nat}
    (h : TokenRule.scan view = .found .endOfInput n) : view = ⟨[], true⟩ := by
  rcases TokenRule.findsBytes view .endOfInput n h with ⟨-, -, hview⟩ | ⟨hne, -⟩
  · exact hview
  · exact absurd rfl hne

/-- No entry put before the fixed ones makes an end token. -/
def KeywordTable.NoEof (t : KeywordTable) : Prop :=
  ∀ entry ∈ t.overrides, entry.2.isEof = false

/-- None of the fixed words is an end token. -/
theorem KeywordTable.noEof_fixed : KeywordTable.NoEof {} := by
  intro entry hentry
  cases hentry

theorem KeywordTable.NoEof.lookup? {t : KeywordTable} (h : t.NoEof) {word : String}
    {kind : TokenKind} (hlookup : t.lookup? word = some kind) : kind.isEof = false := by
  unfold KeywordTable.lookup? at hlookup
  split at hlookup
  · rename_i kind' hoverride
    obtain ⟨before, after, hentries, -⟩ := List.lookup_eq_some_iff.mp hoverride
    obtain rfl : kind' = kind := by injection hlookup
    exact h (word, kind') (by simp [hentries])
  · unfold fixedKeyword? at hlookup
    split at hlookup
    · cases hlookup
      rfl
    · obtain ⟨cls, -, rfl⟩ := Option.map_eq_some_iff.mp hlookup
      rfl

/-- A lexeme that is a token of its own is no end token. -/
theorem WordRule.read_isEof {keywords : KeywordTable} (hkeywords : keywords.NoEof)
    {rule : WordRule} {lexeme : List UInt8} {kind : TokenKind}
    (h : rule.read keywords lexeme = .ok kind) : kind.isEof = false := by
  have hname : ∀ word other, other.isEof = false →
      ((keywords.lookup? word).getD other).isEof = false := by
    intro word other hother
    cases hlookup : keywords.lookup? word with
    | none => exact hother
    | some kind => exact hkeywords.lookup? hlookup
  cases rule with
  | lower =>
    cases h
    exact hname _ _ rfl
  | upper =>
    cases h
    exact hname _ _ rfl
  | _ =>
    simp only [WordRule.read, WordRule.readLabel] at h
    repeat' split at h
    all_goals cases h
    all_goals rfl

theorem TokenKind.eq_eof_of_isEof {kind : TokenKind} (h : kind.isEof = true) : kind = .eof := by
  cases kind with
  | eof => rfl
  | _ => cases h

/-- The kinds that are given where a construct ends. -/
def TokenKind.isConstruct : TokenKind → Bool
  | .comment _ | .string .. | .quotation => true
  | _ => false

theorem TokenKind.isEof_of_isConstruct {kind : TokenKind} (h : kind.isConstruct = true) :
    kind.isEof = false := by
  cases kind with
  | eof => cases h
  | _ => rfl

namespace Session

theorem onFound_emit {ρ : Type} {s : Session} {verdict : Verdict ρ}
    {act : ρ → Nat → Session × Step} {r : Session} {token : Token}
    (h : s.onFound verdict act = (r, .emit token)) :
    ∃ rule n, verdict = .found rule n ∧ act rule n = (r, .emit token) := by
  cases verdict with
  | undecided => cases h
  | found rule n => exact ⟨rule, n, rfl, h⟩

section Tokens

variable {s r : Session} {token : Token}

theorem actComment_isConstruct {c : OpenComment} {text : List UInt8} {rule : CommentRule}
    {lexeme : List UInt8} (h : s.actComment c text rule lexeme = (r, .emit token)) :
    token.kind.isConstruct = true := by
  cases rule <;> simp only [actComment, goOn, endConstruct] at h
  case close =>
    split at h
    · cases h
    · cases h
      rfl
  all_goals cases h

theorem closeString_isConstruct {o : OpenString} {text terminator : List UInt8}
    (h : s.closeString o text terminator = (r, .emit token)) : token.kind.isConstruct = true := by
  unfold closeString at h
  split at h
  · cases h
  · cases h
    rfl

theorem actString_isConstruct {o : OpenString} {text : List UInt8} {rule : StringRule}
    {lexeme : List UInt8} (h : s.actString o text rule lexeme = (r, .emit token)) :
    token.kind.isConstruct = true := by
  cases rule <;> simp only [actString, goOn] at h
  case close => exact closeString_isConstruct h
  case decimalEscape =>
    split at h
    · cases h
    · split at h <;> cases h
  all_goals cases h

theorem actQuoted_isConstruct {o : OpenString} {id text : List UInt8} {rule : QuotedRule}
    {lexeme : List UInt8} (h : s.actQuoted o id text rule lexeme = (r, .emit token)) :
    token.kind.isConstruct = true := by
  cases rule <;> simp only [actQuoted, goOn] at h
  case terminator =>
    split at h
    · exact closeString_isConstruct h
    · cases h
  all_goals cases h

theorem actQuotation_isConstruct {q : OpenQuotation} {rule : QuotationRule} {n : Nat}
    (h : s.actQuotation q rule n = (r, .emit token)) : token.kind.isConstruct = true := by
  cases rule <;> simp only [actQuotation, goOn, endConstruct] at h
  case close =>
    split at h
    · cases h
    · cases h
      rfl
  all_goals cases h

theorem actCode_emit_eof (hkeywords : s.keywords.NoEof) {rule : TokenRule} {lexeme : List UInt8}
    (h : s.actCode rule lexeme = (r, .emit token)) (heof : token.kind.isEof = true) :
    rule = .endOfInput := by
  cases rule <;> simp only [actCode, goOn] at h
  case word rule =>
    split at h
    · rename_i kind hread
      cases h
      simp [WordRule.read_isEof hkeywords hread] at heof
    · cases h
  case strayClose =>
    cases h
    cases heof
  all_goals first
    | rfl
    | cases h

end Tokens

/-- Where no keyword stands for it, the end token comes at the end of input only. -/
theorem stepOn_emit_eof {s : Session} (hkeywords : s.keywords.NoEof) {view : Lookahead}
    {r : Session} {token : Token} (h : s.stepOn view = (r, .emit token))
    (heof : token.kind.isEof = true) :
    s.mode = .code ∧ s.headerPending = false ∧ view = ⟨[], true⟩ ∧ r = s := by
  have hnot : ∀ {p : Prop}, token.kind.isConstruct = true → p := by
    intro p hconstruct
    rw [TokenKind.isEof_of_isConstruct hconstruct] at heof
    cases heof
  unfold stepOn at h
  split at h
  · rename_i hmode
    by_cases hpending : s.headerPending = true
    · simp only [hpending, if_true] at h
      obtain ⟨rule, n, -, hact⟩ := onFound_emit h
      cases rule <;> cases hact
    · simp only [hpending, Bool.false_eq_true, if_false] at h
      obtain ⟨rule, n, hscan, hact⟩ := onFound_emit h
      obtain rfl := actCode_emit_eof hkeywords hact heof
      obtain rfl := TokenRule.view_of_endOfInput hscan
      refine ⟨hmode, by simpa using hpending, rfl, ?_⟩
      simp only [List.take_nil, actCode] at hact
      cases hact
      rfl
  · obtain ⟨rule, n, -, hact⟩ := onFound_emit h
    exact hnot (actComment_isConstruct hact)
  · split at h
    · obtain ⟨rule, n, -, hact⟩ := onFound_emit h
      exact hnot (actString_isConstruct hact)
    · obtain ⟨rule, n, -, hact⟩ := onFound_emit h
      exact hnot (actQuoted_isConstruct hact)
  · obtain ⟨rule, n, -, hact⟩ := onFound_emit h
    exact hnot (actQuotation_isConstruct hact)

theorem stepOn_keywords (s : Session) (view : Lookahead) :
    (s.stepOn view).1.keywords = s.keywords := by
  rcases s.stepOn_cases view with ⟨hwait, -⟩ | hcommits
  · rw [hwait]
  · exact hcommits.keywords

theorem run_keywords (s : Session) : s.run.1.keywords = s.keywords :=
  run_keeps stepOn_keywords s

theorem next_keywords (s : Session) : s.next.1.keywords = s.keywords := by
  have hrun := run_keywords s
  unfold next
  split
  · rename_i r error heq
    rw [heq] at hrun
    exact hrun
  · exact hrun

/-- After an end token that no keyword stands for, the session is at the end of input. -/
theorem run_atEnd {s : Session} (hkeywords : s.keywords.NoEof) {r : Session} {token : Token}
    (h : s.run = (r, .done token)) (heof : token.kind.isEof = true) : r.AtEnd := by
  have hsame : s.step.1.keywords = s.keywords := stepOn_keywords s _
  induction s using run.induct with
  | case1 s s' hstep ih =>
    rw [hstep] at hsame
    rw [run_of_proceed hstep] at h
    exact ih (by rw [hsame]; exact hkeywords) h (stepOn_keywords s' _)
  | case2 s s' token' hstep =>
    rw [run_of_emit hstep] at h
    cases h
    obtain ⟨hmode, hdecided, hview, hr⟩ := stepOn_emit_eof hkeywords hstep heof
    rw [hr]
    exact ⟨hmode, hdecided, hview⟩
  | case3 s s' error hstep =>
    rw [run_of_fail hstep] at h
    cases h
  | case4 s s' hstep =>
    rw [run_of_starved hstep] at h
    cases h

theorem next_atEnd {s : Session} (hkeywords : s.keywords.NoEof) {r : Session} {token : Token}
    (h : s.next = (r, .done token)) (heof : token.kind.isEof = true) : r.AtEnd := by
  unfold next at h
  split at h
  · cases h
  · exact run_atEnd hkeywords h heof

end Session

end StreamLexer
