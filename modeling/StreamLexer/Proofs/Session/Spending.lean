import StreamLexer.Proofs.Scan.BodyArms
import StreamLexer.Proofs.Scan.SourceArms
import StreamLexer.Session.Step

/-!
# What a step takes

A step takes at least one byte or decides about the header, unless the session waits, has failed or
is at the end after it (`Session.step_spends`). This is why a run of steps comes to an end. A step
on complete input does not wait (`Session.step_answers`).
-/
namespace StreamLexer

namespace Session

/-! ## Actions -/

/-- What an action keeps, that it takes at least one byte of a lexeme that has one, and that it does
not wait. -/
def Takes (s : Session) (n : Nat) (r : Session × Step) : Prop :=
  r.1.window = s.window ∧ r.1.headerPending = s.headerPending ∧
    s.pos.offset + min n 1 ≤ r.1.pos.offset ∧ r.2 ≠ .starved

theorem actCode_takes (s : Session) (rule : TokenRule) (lexeme : List UInt8) :
    s.Takes lexeme.length (s.actCode rule lexeme) := by
  cases rule with
  | word rule =>
    simp only [actCode]
    have : (wordStop rule (s.pos.shifted lexeme.length)).offset = s.pos.offset + lexeme.length := by
      unfold wordStop
      split <;> rfl
    split <;> refine ⟨rfl, rfl, ?_, nofun⟩ <;> simp only [moveTo, this] <;> omega
  | _ =>
    refine ⟨rfl, rfl, ?_, nofun⟩
    simp only [actCode, goOn, moveTo, warn, lineEnded, Position.addLines, Position.shifted]
    omega

theorem actComment_takes (s : Session) (c : OpenComment) (text : List UInt8) (rule : CommentRule)
    (lexeme : List UInt8) : s.Takes lexeme.length (s.actComment c text rule lexeme) := by
  cases rule <;> simp only [actComment] <;> try split
  all_goals
    refine ⟨rfl, rfl, ?_, nofun⟩
    simp only [goOn, endConstruct, moveTo, lineEnded, lineEndedInChar, Position.addLines,
      Position.shifted]
    omega

theorem moveTo_takes (s : Session) (n : Nat) {step : Step} (h : step ≠ .starved) :
    s.Takes n (s.moveTo (s.pos.shifted n), step) :=
  ⟨rfl, rfl, by simp only [moveTo, Position.shifted]; omega, h⟩

theorem closeString_takes (s : Session) (n : Nat) (o : OpenString) (text terminator : List UInt8) :
    s.Takes n ((s.moveTo (s.pos.shifted n)).closeString o text terminator) := by
  unfold closeString
  split <;> exact moveTo_takes s n nofun

theorem actString_takes (s : Session) (o : OpenString) (text : List UInt8) (rule : StringRule)
    (lexeme : List UInt8) : s.Takes lexeme.length (s.actString o text rule lexeme) := by
  cases rule with
  | close => exact closeString_takes s _ o text lexeme
  | decimalEscape =>
    simp only [actString]
    split
    · exact moveTo_takes s _ nofun
    · split <;> exact moveTo_takes s _ nofun
  | newline =>
    simp only [actString]
    split <;> exact moveTo_takes s _ nofun
  | _ => exact moveTo_takes s _ nofun

theorem actQuoted_takes (s : Session) (o : OpenString) (id text : List UInt8) (rule : QuotedRule)
    (lexeme : List UInt8) : s.Takes lexeme.length (s.actQuoted o id text rule lexeme) := by
  cases rule with
  | terminator =>
    simp only [actQuoted]
    split
    · exact closeString_takes s _ o text lexeme
    · exact moveTo_takes s _ nofun
  | _ => exact moveTo_takes s _ nofun

theorem actQuotation_takes (s : Session) (q : OpenQuotation) (rule : QuotationRule) (n : Nat) :
    s.Takes n (s.actQuotation q rule n) := by
  cases rule with
  | close =>
    simp only [actQuotation]
    split <;> exact moveTo_takes s _ nofun
  | _ => exact moveTo_takes s _ nofun

end Session

/-! ## Steps -/

/-- The session does not go on by itself after this outcome: it waits, has failed, or is at the end
of its input. -/
def Step.isFinal : Step → Bool
  | .starved | .fail _ => true
  | .emit token => token.kind.isEof
  | .proceed => false

namespace Session

/-- A step takes weight from the session, or is final and adds none. It waits on open input only. -/
def Spends (s : Session) (r : Session × Step) : Prop :=
  (r.1.weight < s.weight ∨ r.2.isFinal = true ∧ r.1.weight ≤ s.weight) ∧
    (s.window.closed = true → r.2 ≠ .starved)

theorem Takes.spends {s : Session} {n : Nat} {r : Session × Step} (h : s.Takes n r)
    (hn : 0 < n ∧ n ≤ s.lookahead.bytes.length ∨ r.2.isFinal = true) : s.Spends r := by
  obtain ⟨hwindow, hpending, hoffset, hanswers⟩ := h
  refine ⟨?_, fun _ => hanswers⟩
  simp only [weight, remaining, hwindow, hpending]
  rcases hn with ⟨hpos, hle⟩ | hfinal
  · have : s.pos.offset < s.window.stop :=
      Window.lt_stop_of_lookahead (Nat.lt_of_lt_of_le hpos hle)
    exact .inl (by omega)
  · exact .inr ⟨hfinal, by omega⟩

theorem onFound_spends {ρ : Type} {s : Session} {scan : Lookahead → Verdict ρ} {last : ρ}
    (hbounded : Bounded scan last) {act : ρ → Nat → Session × Step}
    (htakes : ∀ rule n, n ≤ s.lookahead.bytes.length → s.Takes n (act rule n))
    (hlast : (act last 0).2.isFinal = true) : s.Spends (s.onFound (scan s.lookahead) act) := by
  cases hscan : scan s.lookahead with
  | undecided =>
    refine ⟨.inr ⟨rfl, Nat.le_refl _⟩, fun hclosed => ?_⟩
    exact absurd hscan (hbounded.answers _ hclosed)
  | found rule n =>
    rcases hbounded.found _ rule n hscan with ⟨rfl, rfl⟩ | ⟨hpos, hle⟩
    · exact (htakes rule 0 (Nat.zero_le _)).spends (.inr hlast)
    · exact (htakes rule n hle).spends (.inl ⟨hpos, hle⟩)

theorem actHeader_spends (s : Session) (h : s.headerPending = true) (rule : HeaderRule) (n : Nat) :
    s.Spends (s.actHeader rule n) := by
  refine ⟨.inl ?_, fun _ => ?_⟩
  · simp only [weight, h]
    cases rule <;>
      simp [actHeader, moveTo, remaining, Position.addLines, Position.shifted] <;> omega
  · cases rule <;> nofun

theorem stepOn_spends (s : Session) : s.Spends (s.stepOn s.lookahead) := by
  have htake : ∀ {n : Nat} {r : Session × Step}, n ≤ s.lookahead.bytes.length →
      s.Takes (s.lookahead.bytes.take n).length r → s.Takes n r := fun hn h => by
    rwa [List.length_take_of_le hn] at h
  unfold stepOn
  split
  · split
    · rename_i hpending
      cases hscan : HeaderRule.scan s.lookahead with
      | undecided =>
        refine ⟨.inr ⟨rfl, Nat.le_refl _⟩, fun hclosed => ?_⟩
        exact absurd hscan (HeaderRule.bounded.answers _ hclosed)
      | found rule n => exact actHeader_spends s hpending rule n
    · exact onFound_spends TokenRule.bounded
        (fun rule n hn => htake hn (actCode_takes s rule _)) rfl
  · rename_i c text _
    exact onFound_spends CommentRule.bounded
      (fun rule n hn => htake hn (actComment_takes s c text rule _)) rfl
  · rename_i o text _
    split
    · exact onFound_spends StringRule.bounded
        (fun rule n hn => htake hn (actString_takes s o text rule _)) rfl
    · rename_i id _
      exact onFound_spends QuotedRule.bounded
        (fun rule n hn => htake hn (actQuoted_takes s o id text rule _)) rfl
  · rename_i q _
    exact onFound_spends QuotationRule.bounded
      (fun rule n _ => actQuotation_takes s q rule n) rfl

/-- Every step takes a byte or decides about the header, but for a final one. -/
theorem step_spends (s : Session) :
    s.step.1.weight < s.weight ∨ s.step.2.isFinal = true ∧ s.step.1.weight ≤ s.weight :=
  s.stepOn_spends.1

/-- A session that knows the end of its input does not wait. -/
theorem step_answers {s : Session} (h : s.window.closed = true) : s.step.2 ≠ .starved :=
  s.stepOn_spends.2 h

end Session

end StreamLexer
