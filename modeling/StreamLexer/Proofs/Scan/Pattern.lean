import StreamLexer.Byte.Class

/-!
# Lexical patterns

A pattern is a sequence of pieces, each one byte of a set or a run of bytes of a
set; alternatives are several patterns. `Pattern.Accepts` is the language of a pattern,
`Pattern.after` its derivative: what is left to match once a byte has been read. The main statement
is `Pattern.accepts_cons_iff`, which ties the two together.
-/
namespace StreamLexer

/-- A step of a pattern. -/
inductive Piece where
  /-- Exactly one byte of the set. -/
  | one (set : UInt8 → Bool)
  /-- Any number of bytes of the set, none included. -/
  | many (set : UInt8 → Bool)

/-- The bytes of a piece. -/
def Piece.set : Piece → UInt8 → Bool
  | .one set => set
  | .many set => set

/-- A sequence of pieces. -/
abbrev Pattern := List Piece

/-- The byte of a character, once. -/
def Piece.char (c : Char) : Piece :=
  .one (· == c.toUInt8)

/-- One of some characters, once. -/
def Piece.anyOf (cs : List Char) : Piece :=
  .one (Byte.isAny cs)

namespace Pattern

/-- The pattern of one fixed spelling. -/
def literal (cs : List Char) : Pattern :=
  cs.map Piece.char

/-- The words of a pattern. -/
def Accepts : Pattern → List UInt8 → Prop
  | [], w => w = []
  | .one set :: r, w => ∃ b v, w = b :: v ∧ set b = true ∧ Accepts r v
  | .many set :: r, w => ∃ u v, w = u ++ v ∧ (∀ b ∈ u, set b = true) ∧ Accepts r v

/-- The pattern has the empty word. -/
def acceptsEmpty : Pattern → Bool
  | [] => true
  | .one _ :: _ => false
  | .many _ :: r => acceptsEmpty r

/-- What is left of the pattern after a byte: the words that follow the byte in its words are those
of the patterns listed. -/
def after (b : UInt8) : Pattern → List Pattern
  | [] => []
  | .one set :: r => if set b then [r] else []
  | .many set :: r => if set b then (.many set :: r) :: after b r else after b r

theorem acceptsEmpty_iff (p : Pattern) : p.acceptsEmpty = true ↔ p.Accepts [] := by
  induction p with
  | nil => simp [acceptsEmpty, Accepts]
  | cons piece r ih =>
    cases piece with
    | one set => simp [acceptsEmpty, Accepts]
    | many set =>
      simp only [acceptsEmpty, Accepts, ih]
      constructor
      · intro h
        exact ⟨[], [], rfl, by simp, h⟩
      · rintro ⟨u, v, huv, -, h⟩
        obtain ⟨-, rfl⟩ : u = [] ∧ v = [] := by simpa using huv.symm
        exact h

/-- Reading a byte of a word leaves a word of one of the patterns after the byte. -/
theorem accepts_cons_iff (p : Pattern) (b : UInt8) (w : List UInt8) :
    p.Accepts (b :: w) ↔ ∃ q ∈ p.after b, Accepts q w := by
  induction p with
  | nil => simp [after, Accepts]
  | cons piece r ih =>
    cases piece with
    | one set =>
      by_cases h : set b = true
      · simp only [after, h, if_true, List.mem_singleton, exists_eq_left, Accepts]
        constructor
        · rintro ⟨c, v, hw, -, hv⟩
          obtain ⟨rfl, rfl⟩ := List.cons.inj hw
          exact hv
        · exact fun hv => ⟨b, w, rfl, h, hv⟩
      · simp only [after, h, Bool.false_eq_true, if_false, List.not_mem_nil, false_and,
          exists_false, iff_false, Accepts]
        rintro ⟨c, v, hw, hc, -⟩
        obtain ⟨rfl, rfl⟩ := List.cons.inj hw
        exact h hc
    | many set =>
      have split : Accepts (.many set :: r) (b :: w) ↔
          (set b = true ∧ Accepts (.many set :: r) w) ∨ Accepts r (b :: w) := by
        simp only [Accepts]
        constructor
        · rintro ⟨u, v, huv, hu, hv⟩
          cases u with
          | nil => exact .inr (huv ▸ hv)
          | cons c u =>
            obtain ⟨rfl, rfl⟩ := List.cons.inj huv
            exact .inl ⟨hu _ (by simp), u, v, rfl, fun x hx => hu x (by simp [hx]), hv⟩
        · rintro (⟨hb, u, v, rfl, hu, hv⟩ | hv)
          · exact ⟨b :: u, v, rfl, by simpa [hb] using hu, hv⟩
          · exact ⟨[], b :: w, rfl, by simp, hv⟩
      rw [split, ih]
      by_cases h : set b = true <;> simp [after, h]

/-! ## Bytes that no word has -/

/-- No piece of the pattern has one of the bytes. -/
def avoids (bytes : List UInt8) (p : Pattern) : Bool :=
  p.all fun piece => bytes.all fun b => !piece.set b

theorem avoids_cons {bytes : List UInt8} {piece : Piece} {p : Pattern}
    (h : avoids bytes (piece :: p) = true) :
    (∀ b ∈ bytes, piece.set b = false) ∧ avoids bytes p = true := by
  simpa [avoids] using h

/-- Then no word of the pattern has one of them either. -/
theorem not_mem_of_avoids {bytes : List UInt8} {p : Pattern} (h : p.avoids bytes = true)
    {w : List UInt8} (hw : p.Accepts w) : ∀ b ∈ bytes, b ∉ w := by
  induction p generalizing w with
  | nil =>
    obtain rfl : w = [] := hw
    simp
  | cons piece p ih =>
    obtain ⟨hset, hrest⟩ := avoids_cons h
    intro b hb
    cases piece with
    | one set =>
      obtain ⟨c, v, rfl, hc, hv⟩ := hw
      rw [List.mem_cons, not_or]
      refine ⟨?_, ih hrest hv b hb⟩
      rintro rfl
      have hfalse := hset b hb
      rw [show Piece.set (.one set) b = set b from rfl, hc] at hfalse
      cases hfalse
    | many set =>
      obtain ⟨u, v, rfl, hu, hv⟩ := hw
      rw [List.mem_append, not_or]
      refine ⟨?_, ih hrest hv b hb⟩
      intro hmem
      have hfalse := hset b hb
      rw [show Piece.set (.many set) b = set b from rfl, hu b hmem] at hfalse
      cases hfalse

end Pattern

end StreamLexer
