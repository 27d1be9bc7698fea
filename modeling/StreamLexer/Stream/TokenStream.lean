import StreamLexer.Proofs.Session.Closed
import StreamLexer.Stream.Source

/-!
Token streams: a session together with the source of its input. Whenever the session cannot decide,
the next chunk is pulled and handed over; when the source runs dry the session is told that its
input has ended. A stream ends after the end token, after a lexical error, or after an input error.

The main statement is `TokenStream.size_next_lt`: every item brings the stream nearer to its end, so
`TokenStream.items` can list them all.
-/
namespace StreamLexer

/-- Why a stream ended without an end token. -/
inductive StreamError where
  | lex (error : LexError)
  | input (message : String)
  deriving DecidableEq

/-- The error in words. -/
def StreamError.message : StreamError → String
  | .lex error => error.message
  | .input message => s!"failed to read input: {message}"

/-- A session with its source. -/
structure TokenStream where
  session : Session
  source : ChunkSource
  /-- Comments are left out. -/
  skipComments : Bool := false
  /-- The last item has been given. -/
  ended : Bool := false

namespace TokenStream

/-- A stream at its start. -/
def new (config : Config) (source : ChunkSource) (skipComments : Bool) : TokenStream :=
  { session := .new config, source, skipComments }

/-- Asks the session for its next token, or the next one that is not a comment. -/
def ask (st : TokenStream) (s : Session) : Session × Poll LexError Token :=
  if st.skipComments then s.nextSignificant else s.next

theorem ask_ne_pending (st : TokenStream) {s : Session} (h : s.window.closed = true) :
    (st.ask s).2 ≠ .pending := by
  unfold ask
  split
  · exact Session.nextSignificant_ne_pending h
  · exact Session.next_ne_pending h

/-- One for an answer that is still to come. -/
def toCome (answer : Session × Poll LexError Token) : Nat :=
  match answer.2 with
  | .pending => 1
  | _ => 0

theorem toCome_le (answer : Session × Poll LexError Token) : toCome answer ≤ 1 := by
  unfold toCome
  split <;> omega

theorem toCome_of_ne {answer : Session × Poll LexError Token} (h : answer.2 ≠ .pending) :
    toCome answer = 0 := by
  unfold toCome
  split
  · rename_i hpending
    exact absurd hpending h
  · rfl

set_option linter.unusedVariables false in
/-- Gives the session input until it has an answer. The end of input leaves nothing undecided, so
the source is not asked again behind it. -/
def settle (st : TokenStream) (answer : Session × Poll LexError Token) :
    TokenStream × Option (Except StreamError Token) :=
  match answer with
  | (session, .done token) => ({ st with session, ended := token.kind.isEof }, some (.ok token))
  | (session, .failed error) => ({ st with session, ended := true }, some (.error (.lex error)))
  | (session, .pending) =>
    match h : st.source.next with
    | (source, .error message) =>
      ({ st with session, source, ended := true }, some (.error (.input message)))
    | (source, .ok (some chunk)) =>
      settle { st with session, source } (st.ask (session.feed chunk))
    | (source, .ok none) => settle { st with session, source } (st.ask session.finish)
termination_by st.source.weight + toCome answer
decreasing_by
  · have hless := (ChunkSource.next_weight h).2
    have hle := toCome_le (st.ask (session.feed chunk))
    simp only [toCome] at hle ⊢
    omega
  · have hle := st.source.next_weight_le
    have hnone := toCome_of_ne (st.ask_ne_pending (s := session.finish) rfl)
    rw [h] at hle
    simp only [toCome] at hle hnone ⊢
    omega

/-- The next item, none after the last one. -/
def next (st : TokenStream) : TokenStream × Option (Except StreamError Token) :=
  if st.ended then (st, none)
  else
    match st.session.failure with
    | some error => st.settle (st.session, .failed error)
    | none => st.settle (st.ask st.session)

/-! ## Streams end -/

theorem ask_spent (st : TokenStream) (s : Session) : s.Spent (st.ask s) := by
  unfold ask
  split
  · exact Session.nextSignificant_spent s
  · exact Session.next_spent s

theorem feed_weight_le (s : Session) (chunk : List UInt8) :
    (s.feed chunk).weight ≤ s.weight + chunk.length := by
  have h := Window.stop_push_le (s.window.releaseBefore s.pos.offset) chunk
  simp only [Window.stop_releaseBefore] at h
  simp only [Session.feed, Session.weight, Session.remaining]
  omega

/-- An answer within a bound on what the session can still take and the source still give: it stays
within it, and a token before the end of input stays below it. -/
def Within (bound : Nat) (source : ChunkSource) (answer : Session × Poll LexError Token) : Prop :=
  answer.1.weight + source.weight ≤ bound ∧
    ∀ token, answer.2 = .done token → token.kind.isEof = false →
      answer.1.weight + source.weight < bound

theorem ask_within {bound : Nat} {source : ChunkSource} {s : Session} (st : TokenStream)
    (h : s.weight + source.weight ≤ bound) : Within bound source (st.ask s) := by
  have hspent := ask_spent st s
  exact ⟨Nat.le_trans (Nat.add_le_add_right hspent.1 _) h, fun token hdone heof =>
    Nat.lt_of_lt_of_le (Nat.add_lt_add_right (hspent.2 token hdone heof) _) h⟩

theorem settle_within {bound : Nat} (st : TokenStream) (answer : Session × Poll LexError Token)
    (h : Within bound st.source answer) :
    (st.settle answer).1.ended = true ∨
      (st.settle answer).1.session.weight + (st.settle answer).1.source.weight < bound := by
  fun_induction settle st answer with
  | case1 st session token =>
    cases heof : token.kind.isEof with
    | true => exact .inl rfl
    | false => exact .inr (h.2 token rfl heof)
  | case2 => exact .inl rfl
  | case3 => exact .inl rfl
  | case4 st session source chunk hnext ih =>
    refine ih (ask_within _ ?_)
    have hsource := (ChunkSource.next_weight hnext).1
    have hfeed := feed_weight_le session chunk
    have hbound := h.1
    simp only at hbound ⊢
    omega
  | case5 st session source hnext ih =>
    refine ih (ask_within _ ?_)
    have hsource := ChunkSource.next_weight_le st.source
    rw [hnext] at hsource
    exact Nat.le_trans (Nat.add_le_add_left hsource _) h.1

/-- A bound on the number of items that are still to come. -/
def size (st : TokenStream) : Nat :=
  if st.ended then 0 else st.session.weight + st.source.weight + 1

theorem size_next_lt {st st' : TokenStream} {item : Except StreamError Token}
    (h : st.next = (st', some item)) : st'.size < st.size := by
  unfold next at h
  split at h
  · cases h
  · rename_i hended
    have hsize : st.size = st.session.weight + st.source.weight + 1 := by simp [size, hended]
    have hbound : ∀ answer, Within (st.session.weight + st.source.weight) st.source answer →
        st.settle answer = (st', some item) → st'.size < st.size := by
      intro answer hwithin hsettle
      have hdone := settle_within st answer hwithin
      rw [hsettle] at hdone
      rw [hsize, size]
      rcases hdone with hdone | hlt
      · simp only at hdone
        simp [hdone]
      · simp only at hlt
        split <;> omega
    split at h
    · exact hbound _ ⟨Nat.le_refl _, fun token hdone => by cases hdone⟩ h
    · exact hbound _ (ask_within st (Nat.le_refl _)) h

set_option linter.unusedVariables false in
/-- All items, with the stream after them. -/
def items (st : TokenStream) : TokenStream × List (Except StreamError Token) :=
  match h : st.next with
  | (st, none) => (st, [])
  | (st, some item) =>
    let (st, rest) := st.items
    (st, item :: rest)
termination_by st.size
decreasing_by exact size_next_lt h

end TokenStream

end StreamLexer
