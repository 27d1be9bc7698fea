import StreamLexer.Proofs.Position.Moves

/-!
# Lexing reports true positions

`Accurate` is the invariant: every place that a session knows is true, as told by the source and the
directives met so far. A step keeps it, and the directives still to come end behind all places known
by then. The main statement is `positions_true`, about the positions that `lex` gives.
-/
namespace StreamLexer

namespace Session

variable {source : List UInt8} {name : String}

/-- What the session knows of positions is true, as told by the directives met so far. -/
structure Accurate (source : List UInt8) (name : String) (met : List Directive) (s : Session) :
    Prop where
  stands : ∃ rest, s.StandsBefore source rest
  ended : ∀ d ∈ met, d.stop ≤ s.pos.offset
  known : ∀ p, s.Knows p → p.offset ≤ s.pos.offset ∧ IsAt source name met p

/-! ## Directives to come -/

section Ahead

variable {s t : Session} {rest : List UInt8}

/-- The next directive ends where the step over it leads. -/
theorem StandsBefore.step_directive (h : s.StandsBefore source rest) {d : Directive}
    (hd : s.directive? = some d) : s.step.2 = .proceed ∧ s.pos.offset < d.stop ∧
      s.step.1.pos = ⟨d.name?.getD s.pos.file, d.line, d.stop, d.stop⟩ := by
  obtain ⟨hstart, -, hfirst, hstep⟩ := h.directive?_eq_some hd
  have hstop : s.pos.offset + d.lexeme.length = d.stop := by rw [Directive.stop, hstart]
  have hpos : 0 < d.lexeme.length := by
    obtain ⟨body, returns, hlexeme, -⟩ := exists_body_of_directive hfirst
    rw [hlexeme, List.length_append, List.length_append, List.length_singleton]
    omega
  rw [hstep]
  refine ⟨rfl, by omega, ?_⟩
  simp only [actCode, moveTo, ofLexeme_eq hfirst, Position.shifted, hstop]

/-- All directives to come end behind the position. -/
theorem StandsBefore.lt_stop (h : s.StandsBefore source rest) :
    ∀ d ∈ s.directives, s.pos.offset < d.stop := by
  -- the directive that is next ends behind it, and the others behind the position after the step
  have hnext : ∀ {s : Session} {rest : List UInt8}, s.StandsBefore source rest →
      ∀ d ∈ s.directive?.toList, s.pos.offset < d.stop := by
    intro s rest h d hd
    exact (h.step_directive (Option.mem_toList.mp hd)).2.1
  have hcons : ∀ {s t : Session} {rest : List UInt8}, s.StandsBefore source rest → s.step.1 = t →
      (∀ rest, t.StandsBefore source rest → ∀ d ∈ t.directives, t.pos.offset < d.stop) →
      ∀ d ∈ s.directive?.toList ++ t.directives, s.pos.offset < d.stop := by
    intro s t rest h hstep ih d hd
    obtain ⟨taken, later, -, hlater, hoffset⟩ := h.step_forward
    rw [hstep] at hlater hoffset
    rcases List.mem_append.mp hd with hd | hd
    · exact hnext h d hd
    · have hlt := ih later hlater d hd
      omega
  induction s using stepInduction generalizing rest with
  | proceed s t hstep ih =>
    rw [directives_of_proceed hstep]
    exact hcons h (by rw [hstep]) fun rest h => ih h
  | emit s t token hstep heof ih =>
    rw [directives_of_emit hstep heof]
    exact hcons h (by rw [hstep]) fun rest h => ih h
  | final s hfinal =>
    rw [directives_of_final hfinal]
    exact hnext h

end Ahead

/-! ## Steps -/

namespace Accurate

variable {s t : Session} {met : List Directive}

/-- Where a step that makes no error leads to is true as well, as told by the directive that it may
have taken. -/
theorem step_isAt (h : s.Accurate source name met) (hok : ∀ e, s.step.2 ≠ .fail e) :
    IsAt source name (met ++ s.directive?.toList) s.step.1.pos ∧
      ∀ d ∈ s.directive?.toList, d.stop = s.step.1.pos.offset := by
  obtain ⟨rest, hstands⟩ := h.stands
  obtain ⟨-, hpos⟩ := h.known s.pos s.knows_pos
  cases hd : s.directive? with
  | none =>
    obtain ⟨taken, later, hsplit, hpast⟩ := hstands.step_past hd hok
    have hdrop := hstands.drop_eq.trans hsplit
    rw [Option.toList_none, List.append_nil]
    refine ⟨hpos.past hpast hdrop h.ended, ?_⟩
    intro d hd
    cases hd
  | some d =>
    obtain ⟨hstart, ⟨later, hsplit⟩, hfirst, -⟩ := hstands.directive?_eq_some hd
    obtain ⟨-, -, hnext⟩ := hstands.step_directive hd
    obtain ⟨body, returns, hlexeme, -⟩ := exists_body_of_directive hfirst
    rw [← List.append_assoc] at hlexeme
    rw [hnext, Option.toList_some]
    refine ⟨hpos.directive hstart h.ended hlexeme (hstands.drop_eq.trans hsplit), ?_⟩
    intro e he
    rw [List.mem_singleton.mp he]

/-- A step that makes no error keeps everything true. -/
theorem step (h : s.Accurate source name met) (hok : ∀ e, s.step.2 ≠ .fail e) :
    s.step.1.Accurate source name (met ++ s.directive?.toList) := by
  obtain ⟨rest, hstands⟩ := h.stands
  obtain ⟨taken, later, -, hnext, hoffset⟩ := hstands.step_forward
  obtain ⟨hpos, hstop⟩ := h.step_isAt hok
  have hremembers := s.stepOn_remembers s.lookahead
  have hknown : ∀ p, s.Knows p → p.offset ≤ s.step.1.pos.offset ∧
      IsAt source name (met ++ s.directive?.toList) p := by
    intro p hp
    obtain ⟨hle, hat⟩ := h.known p hp
    refine ⟨by omega, hat.append ?_⟩
    intro d hd
    have hlt := (hstands.step_directive (Option.mem_toList.mp hd)).2.1
    omega
  refine ⟨⟨later, hnext⟩, ?_, ?_⟩
  · intro d hd
    rcases List.mem_append.mp hd with hd | hd
    · have hle := h.ended d hd
      omega
    · exact Nat.le_of_eq (hstop d hd)
  · rintro p (rfl | hopened | ⟨w, hw, rfl⟩)
    · exact ⟨Nat.le_refl _, hpos⟩
    · exact hknown p (hremembers.opened p hopened)
    · exact hknown _ (hremembers.warned w hw)

end Accurate

end Session

/-! ## Whole sources -/

/-- The positions that lexing gives are true: both ends of the tokens, and where warnings and errors
start. -/
structure PositionsTrue (source : List UInt8) (name : String) (directives : List Directive)
    (o : LexOutput) : Prop where
  tokens : ∀ token ∈ o.tokens, IsAt source name directives token.span.start ∧
    IsAt source name directives token.span.stop
  warnings : ∀ w ∈ o.warnings, IsAt source name directives w.span.start
  error : ∀ e, o.error = some e → IsAt source name directives e.span.start
  stringStart : ∀ e span, o.error = some e → e.fault = .unterminatedStringInComment span →
    IsAt source name directives span.start

namespace Session

variable {source : List UInt8} {name : String}

theorem accurate_ofSource (config : Config) (source : List UInt8) :
    (Session.ofSource config source).Accurate source config.fileName [] := by
  refine ⟨⟨source, standsBefore_ofSource config source⟩, ?_, ?_⟩
  · intro d hd
    cases hd
  · rintro p (rfl | hopened | ⟨w, hw, -⟩)
    · refine ⟨Nat.le_refl _, ⟨Nat.le_refl 0, .inl rfl, ?_⟩, ?_, rfl⟩
      · show newline ∉ between source 0 0
        rw [between_self]
        exact List.not_mem_nil
      · show 1 = min Position.maxLine (1 + (between source 0 0).count newline)
        rw [between_self]
        rfl
    · cases hopened
    · exact absurd hw (Array.not_mem_empty w)

namespace Accurate

variable {s t : Session} {met : List Directive}

/-- What the session knows stays true whatever directives are still to come. -/
theorem known_isAt (h : s.Accurate source name met) {p : Position} (hp : s.Knows p) :
    IsAt source name (met ++ s.directives) p := by
  obtain ⟨rest, hstands⟩ := h.stands
  obtain ⟨hle, hat⟩ := h.known p hp
  apply hat.append
  intro d hd
  have hlt := hstands.lt_stop d hd
  omega

/-- The positions of a token. -/
theorem token_isAt (h : s.Accurate source name met) {token : Token}
    (hstep : s.step = (t, .emit token)) {more : List Directive}
    (hdirectives : s.directives = s.directive?.toList ++ more)
    (hmore : ∀ d ∈ more, t.pos.offset < d.stop) :
    IsAt source name (met ++ s.directives) token.span.start ∧
      IsAt source name (met ++ s.directives) token.span.stop := by
  have hspan := (stepOn_emit_span hstep).1
  have hnext := (h.step (by simp [hstep])).known s.step.1.pos (knows_pos _)
  rw [hstep] at hnext
  rw [hspan]
  refine ⟨h.known_isAt s.knows_tokenStart, ?_⟩
  rw [hdirectives, ← List.append_assoc]
  exact hnext.2.append hmore

/-- From an accurate session on, all positions that are given are true. -/
theorem output_true (h : s.Accurate source name met) :
    PositionsTrue source name (met ++ s.directives) s.output := by
  induction s using stepInduction generalizing met with
  | proceed s t hstep ih =>
    have hnext := h.step (by simp [hstep])
    rw [hstep] at hnext
    rw [output_of_proceed hstep, directives_of_proceed hstep, ← List.append_assoc]
    exact ih hnext
  | emit s t token hstep heof ih =>
    have hnext := h.step (by simp [hstep])
    rw [hstep] at hnext
    obtain ⟨rest, hstands⟩ := hnext.stands
    have hdirectives := directives_of_emit hstep heof
    have htoken := h.token_isAt hstep hdirectives hstands.lt_stop
    have htrue := ih hnext
    rw [List.append_assoc, ← hdirectives] at htrue
    rw [output_of_emit hstep heof]
    refine ⟨?_, htrue.warnings, htrue.error, htrue.stringStart⟩
    intro other hother
    rcases List.mem_cons.mp hother with rfl | hother
    · exact htoken
    · exact htrue.tokens other hother
  | final s hfinal =>
    have hremembers := s.stepOn_remembers s.lookahead
    have hwarnings : ∀ w ∈ s.step.1.warnings.toList,
        IsAt source name (met ++ s.directives) w.span.start := by
      intro w hw
      exact h.known_isAt (hremembers.warned w (Array.mem_def.mpr hw))
    have hdirectives : s.directives = s.directive?.toList ++ [] := by
      rw [directives_of_final hfinal, List.append_nil]
    have hplaces : ∀ e, s.step.2 = .fail e → ∀ p ∈ e.places,
        IsAt source name (met ++ s.directives) p := by
      intro e he p hp
      exact h.known_isAt (hremembers.failed e he p hp)
    cases hstep : s.step with
    | mk t outcome =>
      rw [hstep] at hfinal hwarnings hplaces
      cases outcome with
      | proceed => cases hfinal
      | emit last =>
        rw [output_of_end hstep hfinal]
        refine ⟨?_, hwarnings, by simp, by simp⟩
        intro other hother
        rw [List.mem_singleton.mp hother]
        exact h.token_isAt hstep hdirectives (by simp)
      | fail error =>
        rw [output_of_fail hstep]
        refine ⟨by simp, hwarnings, ?_, ?_⟩
        · intro e he
          cases he
          apply hplaces _ rfl
          unfold LexError.places
          split <;> exact List.mem_cons_self
        · intro e span he hfault
          cases he
          apply hplaces _ rfl
          simp [LexError.places, hfault]
      | starved =>
        rw [output_of_starved hstep]
        exact ⟨by simp, hwarnings, by simp, by simp⟩

end Accurate

end Session

/-- Every position that lexing reports is true: its line starts just behind the last newline before
it, its line number counts the newlines since the last line directive or the start, and its file is
that of the last directive that names one. -/
theorem positions_true (source : List UInt8) (config : Config) :
    PositionsTrue source config.fileName (Session.ofSource config source).directives
      (lex source config) := by
  have htrue := (Session.accurate_ofSource config source).output_true
  rwa [List.nil_append] at htrue

end StreamLexer
