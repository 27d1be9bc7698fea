import StreamLexer.Proofs.Session.Spending
import StreamLexer.Resumable.Basic

/-!
Tokens of a session. `Session.token` asks for the next token and answers at once if the held input
decides it; otherwise it hands back the rest of the computation, to be gone on with after more
input. All that this rest does is to ask the session again, wherever it then stands.

`lex` takes a whole source through a session. `Session.next_spent` says that a token before the end
of input costs the session at least one byte.
-/
namespace StreamLexer

namespace Session

set_option linter.unusedVariables false in
/-- Steps until there is a token, an error, or no more to decide. -/
def run (s : Session) : Session × Poll LexError Token :=
  match h : s.step with
  | (s, .proceed) => s.run
  | (s, .emit token) => (s, .done token)
  | (s, .fail error) => (s, .failed error)
  | (s, .starved) => (s, .pending)
termination_by s.weight
decreasing_by
  rcases h ▸ step_spends _ with hlt | ⟨hfinal, -⟩
  · exact hlt
  · cases hfinal

/-- Asks the session for its next token. An error ends the session. -/
def next (s : Session) : Session × Poll LexError Token :=
  match s.run with
  | (s, .failed error) => (s.halt error, .failed error)
  | answer => answer

/-! ## Progress -/

/-- After an answer other than a token before the end of input, the session has not gone back;
after such a token it has taken a byte. -/
def Spent (s : Session) (answer : Session × Poll LexError Token) : Prop :=
  answer.1.weight ≤ s.weight ∧
    ∀ token, answer.2 = .done token → token.kind.isEof = false → answer.1.weight < s.weight

theorem run_spent (s : Session) : s.Spent s.run := by
  induction s using run.induct with
  | case1 s s' h ih =>
    have hlt : s'.weight < s.weight := by
      rcases h ▸ step_spends s with hlt | ⟨hfinal, -⟩
      · exact hlt
      · cases hfinal
    rw [run, h]
    exact ⟨Nat.le_of_lt (Nat.lt_of_le_of_lt ih.1 hlt),
      fun token hdone heof => Nat.lt_trans (ih.2 token hdone heof) hlt⟩
  | case2 s s' token h =>
    rw [run, h]
    rcases h ▸ step_spends s with hlt | ⟨hfinal, hle⟩
    · exact ⟨Nat.le_of_lt hlt, fun _ _ _ => hlt⟩
    · refine ⟨hle, fun t ht heof => ?_⟩
      cases ht
      simp [Step.isFinal, heof] at hfinal
  | case3 s s' error h =>
    rw [run, h]
    refine ⟨?_, fun t ht => by cases ht⟩
    rcases h ▸ step_spends s with hlt | ⟨-, hle⟩
    · exact Nat.le_of_lt hlt
    · exact hle
  | case4 s s' h =>
    rw [run, h]
    refine ⟨?_, fun t ht => by cases ht⟩
    rcases h ▸ step_spends s with hlt | ⟨-, hle⟩
    · exact Nat.le_of_lt hlt
    · exact hle

theorem next_spent (s : Session) : s.Spent s.next := by
  have h := run_spent s
  unfold next
  split
  · rename_i s' error heq
    rw [heq] at h
    exact ⟨h.1, fun t ht => by cases ht⟩
  · exact h

theorem next_weight_lt {s s' : Session} {token : Token} (h : s.next = (s', .done token))
    (heof : token.kind.isEof = false) : s'.weight < s.weight := by
  have := (next_spent s).2 token (by rw [h]) heof
  rwa [h] at this

/-- A comment token is not the end of input. -/
theorem isEof_of_isComment {kind : TokenKind} (h : kind.isComment = true) : kind.isEof = false := by
  cases kind <;> simp_all [TokenKind.isComment, TokenKind.isEof]

/-! ## Tokens -/

/-- The rest of a request for a token that could not be answered at once. -/
def resumeToken : Resumable Session LexError Token :=
  .poll next

/-- The next token. At the end of input that is the end token, again and again; after an error it is
that error. -/
def token (s : Session) : Session × Progress Session LexError Token :=
  match s.failure with
  | some error => (s, .failed error)
  | none => resumeToken.start s

set_option linter.unusedVariables false in
/-- Asks the session for its next token that is not a comment. -/
def nextSignificant (s : Session) : Session × Poll LexError Token :=
  match h : s.next with
  | (s, .done token) =>
    if hcomment : token.kind.isComment then
      match s.failure with
      | some error => (s, .failed error)
      | none => s.nextSignificant
    else (s, .done token)
  | answer => answer
termination_by s.weight
decreasing_by exact next_weight_lt h (isEof_of_isComment hcomment)

theorem nextSignificant_spent (s : Session) : s.Spent s.nextSignificant := by
  induction s using nextSignificant.induct with
  | case1 s s' token h hcomment error hfailure =>
    have hlt := next_weight_lt h (isEof_of_isComment hcomment)
    rw [nextSignificant]
    split
    · rename_i s₁ token₁ h₁
      rw [h] at h₁
      cases h₁
      simp only [hcomment, dif_pos, hfailure]
      exact ⟨Nat.le_of_lt hlt, fun t ht => by cases ht⟩
    · rename_i hother
      exact absurd h (hother s' token)
  | case2 s s' token h hcomment hfailure ih =>
    have hlt := next_weight_lt h (isEof_of_isComment hcomment)
    rw [nextSignificant]
    split
    · rename_i s₁ token₁ h₁
      rw [h] at h₁
      cases h₁
      simp only [hcomment, dif_pos, hfailure]
      exact ⟨Nat.le_trans ih.1 (Nat.le_of_lt hlt),
        fun t ht heof => Nat.lt_trans (ih.2 t ht heof) hlt⟩
    · rename_i hother
      exact absurd h (hother s' token)
  | case3 s s' token h hcomment =>
    have hspent := next_spent s
    rw [nextSignificant]
    split
    · rename_i s₁ token₁ h₁
      rw [h] at h₁
      cases h₁
      rw [dif_neg hcomment, ← h]
      exact hspent
    · rename_i hother
      exact absurd h (hother s' token)
  | case4 s hother =>
    have hspent := next_spent s
    rw [nextSignificant]
    split
    · rename_i s₁ token₁ h₁
      exact absurd h₁ (hother s₁ token₁)
    · exact hspent

/-- The rest of a request for a token that is not a comment. -/
def resumeSignificant : Resumable Session LexError Token :=
  .poll nextSignificant

/-- The next token that is not a comment. -/
def significantToken (s : Session) : Session × Progress Session LexError Token :=
  match s.failure with
  | some error => (s, .failed error)
  | none => resumeSignificant.start s

set_option linter.unusedVariables false in
/-- All tokens that can be had without more input, up to the end token or an error. -/
def tokens (s : Session) : Session × List Token × Option LexError :=
  match h : s.next with
  | (s, .done token) =>
    if heof : token.kind.isEof then (s, [token], none)
    else
      let (s, rest, error) := s.tokens
      (s, token :: rest, error)
  | (s, .failed error) => (s, [], some error)
  | (s, .pending) => (s, [], none)
termination_by s.weight
decreasing_by exact next_weight_lt h (by simpa using heof)

end Session

/-- What lexing a whole source gives. -/
structure LexOutput where
  /-- The tokens in order, up to the end token unless there is an error. -/
  tokens : List Token
  warnings : List Warning
  /-- The error that stopped the lexing. -/
  error : Option LexError

/-- Lexes a whole source. Quotations may nest to any depth; counted in 32 bits they give the same in
every source of fewer than `2 ^ 32` bytes, `FlatSession.lexes_iff`. -/
def lex (source : List UInt8) (config : Config) : LexOutput :=
  let (s, tokens, error) := (Session.ofSource config source).tokens
  { tokens, warnings := s.warnings.toList, error }

end StreamLexer
