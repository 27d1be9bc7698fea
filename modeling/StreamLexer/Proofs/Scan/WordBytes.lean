import StreamLexer.Proofs.Scan.Rows
import StreamLexer.Proofs.Scan.SourceGrammar
import StreamLexer.Session.Word

/-!
# Bytes in the words of a pattern

What the pieces of a pattern say about the bytes of its words: which ones each of them has
(`exists_mem_of_needs`), and which ones it starts with; which ones none of them has is told by
`not_mem_of_avoids`. That is often enough to tell that two rows have no word in common. Labels are
told in full: `eq_label`.
-/
namespace StreamLexer

namespace Pattern

/-- A word of two patterns, one behind the other. -/
theorem accepts_append {p q : Pattern} {w : List UInt8} (h : (p ++ q).Accepts w) :
    ∃ u v, w = u ++ v ∧ p.Accepts u ∧ q.Accepts v := by
  rw [← mem_language, language_append, Language.mem_mul] at h
  obtain ⟨u, hu, v, hv, rfl⟩ := h
  exact ⟨u, v, rfl, hu, hv⟩

/-- Words of two patterns make one, one behind the other. -/
theorem Accepts.append {p q : Pattern} {u v : List UInt8} (hu : p.Accepts u) (hv : q.Accepts v) :
    (p ++ q).Accepts (u ++ v) := by
  rw [← mem_language, language_append, Language.mem_mul]
  exact ⟨u, hu, v, hv, rfl⟩

/-- A fixed spelling has one word. -/
theorem accepts_literal {cs : List Char} {w : List UInt8} :
    (literal cs).Accepts w ↔ w = cs.map Char.toUInt8 := by
  rw [← mem_language, language_literal]
  exact Iff.rfl

/-- Some piece is one byte of the listed ones. -/
def needs (bytes : List UInt8) (p : Pattern) : Bool :=
  p.any fun
    | .one set => (List.range 256).all fun n =>
      !set (UInt8.ofNat n) || bytes.contains (UInt8.ofNat n)
    | .many _ => false

/-- Then every word of the pattern has one of them. -/
theorem exists_mem_of_needs {bytes : List UInt8} {p : Pattern} (h : p.needs bytes = true)
    {w : List UInt8} (hw : p.Accepts w) : ∃ b ∈ w, b ∈ bytes := by
  induction p generalizing w with
  | nil => cases h
  | cons piece p ih =>
    rw [needs, List.any_cons, Bool.or_eq_true] at h
    cases piece with
    | one set =>
      obtain ⟨c, v, rfl, hc, hv⟩ := hw
      rcases h with hset | hrest
      · have hmem := Byte.forall_of_range (p := fun b => !set b || bytes.contains b) hset c
        exact ⟨c, List.mem_cons_self, by simpa [hc] using hmem⟩
      · obtain ⟨b, hb, hbytes⟩ := ih hrest hv
        exact ⟨b, List.mem_cons_of_mem c hb, hbytes⟩
    | many set =>
      obtain ⟨u, v, rfl, hu, hv⟩ := hw
      rcases h with hset | hrest
      · cases hset
      · obtain ⟨b, hb, hbytes⟩ := ih hrest hv
        exact ⟨b, List.mem_append_right u hb, hbytes⟩

/-- The byte stands in runs only. -/
def inRunsOnly (b : UInt8) (p : Pattern) : Bool :=
  p.all fun
    | .one set => !set b
    | .many _ => true

/-- Then a word of the pattern is still one without the byte. -/
theorem accepts_filter {b : UInt8} {p : Pattern} (h : p.inRunsOnly b = true) {w : List UInt8}
    (hw : p.Accepts w) : p.Accepts (w.filter (· != b)) := by
  induction p generalizing w with
  | nil =>
    obtain rfl : w = [] := hw
    rfl
  | cons piece p ih =>
    rw [inRunsOnly, List.all_cons, Bool.and_eq_true] at h
    obtain ⟨hpiece, hrest⟩ := h
    cases piece with
    | one set =>
      obtain ⟨c, v, rfl, hc, hv⟩ := hw
      have hkept : (c != b) = true := by
        rw [bne_iff_ne]
        rintro rfl
        simp [hc] at hpiece
      exact ⟨c, v.filter (· != b), List.filter_cons_of_pos hkept, hc, ih hrest hv⟩
    | many set =>
      obtain ⟨u, v, rfl, hu, hv⟩ := hw
      refine ⟨u.filter (· != b), v.filter (· != b), List.filter_append u v, ?_, ih hrest hv⟩
      intro c hc
      exact hu c (List.mem_of_mem_filter hc)

/-- Some word of the pattern may start with one of the bytes. -/
def canStart (bytes : List UInt8) (p : Pattern) : Bool :=
  bytes.any fun b => !(p.after b).isEmpty

theorem canStart_of_accepts {bytes : List UInt8} {p : Pattern} {b : UInt8} {w : List UInt8}
    (hb : b ∈ bytes) (h : p.Accepts (b :: w)) : p.canStart bytes = true := by
  obtain ⟨q, hq, -⟩ := (accepts_cons_iff p b w).mp h
  refine List.any_eq_true.mpr ⟨b, hb, ?_⟩
  cases hafter : p.after b with
  | nil =>
    rw [hafter] at hq
    cases hq
  | cons => rfl

/-- The name of a label stands between its mark and a colon. -/
theorem eq_label {mark : Char} {lexeme : List UInt8}
    (h : Pattern.Accepts [.char mark, .one Byte.isLower, .many Byte.isIdent, .char ':'] lexeme) :
    lexeme = mark.toUInt8 :: (Lexeme.inner lexeme ++ [':'.toUInt8]) := by
  obtain ⟨first, _, rfl, hfirst, b, _, rfl, -, name, _, rfl, -, last, _, rfl, hlast, rfl⟩ := h
  obtain rfl := eq_of_beq hfirst
  obtain rfl := eq_of_beq hlast
  have hinner : Lexeme.inner (mark.toUInt8 :: b :: (name ++ [':'.toUInt8])) = b :: name := by
    rw [Lexeme.inner, List.drop_one, List.tail_cons, ← List.cons_append, List.dropLast_concat]
  rw [hinner, List.cons_append]

end Pattern

/-! ## Rows that count -/

section Rows

variable {ρ : Type} {rows : List (ρ × Pattern)} {w : List UInt8}

/-- Rows that do not accept the word may be left out. -/
theorem firstAccepting?_filter {keep : ρ → Bool}
    (h : ∀ row ∈ rows, keep row.1 = false → ¬ row.2.Accepts w) :
    firstAccepting? (rows.filter fun row => keep row.1) w = firstAccepting? rows w := by
  induction rows with
  | nil => rfl
  | cons row rows ih =>
    have hrest := ih fun other hother => h other (List.mem_cons_of_mem row hother)
    rw [List.filter_cons]
    cases hkeep : keep row.1 with
    | true => rw [if_pos rfl, firstAccepting?_cons, firstAccepting?_cons, hrest]
    | false =>
      have hnot : row.2.accepts w = false := by
        rw [Bool.eq_false_iff, ne_eq, Pattern.accepts_iff]
        exact h row List.mem_cons_self hkeep
      rw [if_neg Bool.false_ne_true, hrest, firstAccepting?_cons, hnot]
      rfl

/-- Only the rows of the kept rules count for a word that starts with one of the bytes. -/
theorem firstAccepting?_of_canStart {bytes : List UInt8} {keep : ρ → Bool}
    (hrows : (rows.all fun row => keep row.1 || !row.2.canStart bytes) = true) {b : UInt8}
    (hb : b ∈ bytes) :
    firstAccepting? rows (b :: w) =
      firstAccepting? (rows.filter fun row => keep row.1) (b :: w) := by
  refine (firstAccepting?_filter ?_).symm
  intro row hrow hkeep haccepts
  have hcheck := List.all_eq_true.mp hrows row hrow
  simp [hkeep, Pattern.canStart_of_accepts hb haccepts] at hcheck

/-- The lexeme of a rule with one fixed spelling. -/
theorem eq_of_literal [DecidableEq ρ] {rule : ρ} (cs : List Char)
    (hpatterns : patternsOf rows rule = [Pattern.literal cs])
    (h : firstAccepting? rows w = some rule) : w = cs.map Char.toUInt8 := by
  obtain ⟨p, hp, haccepts⟩ := exists_patternsOf h
  rw [hpatterns] at hp
  obtain rfl := List.mem_singleton.mp hp
  exact Pattern.accepts_literal.mp haccepts

end Rows

end StreamLexer
