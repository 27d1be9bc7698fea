import StreamLexer.Proofs.Position.Directive
import StreamLexer.Proofs.Position.Places

/-!
# True positions

A position says where it is by a file, a line and the start of that line. What these should be can
be told from the bytes of the source before it and the line directives among them: `IsAt`.

A lexeme moves the position over its bytes, past as many newlines as there are in them: `Past`. So
positions stay true: `IsAt.past`; a line directive makes the position after it true again:
`IsAt.directive`.
-/
namespace StreamLexer

/-! ## What a position should say -/

/-- The line of the offset starts there: just behind the last newline before the offset, or at the
start of the source. -/
structure IsLineStart (source : List UInt8) (offset bol : Nat) : Prop where
  le : bol ≤ offset
  after : bol = 0 ∨ source[bol - 1]? = some newline
  last : newline ∉ between source bol offset

/-- The directives that end at or before an offset. -/
def endedBy (directives : List Directive) (offset : Nat) : List Directive :=
  directives.filter (·.stop ≤ offset)

/-- The line number of an offset: newlines are counted from the last directive before it, or from
the start of the source. -/
def lineAt (source : List UInt8) (directives : List Directive) (offset : Nat) : Nat :=
  match (endedBy directives offset).getLast? with
  | none => min Position.maxLine (1 + (between source 0 offset).count newline)
  | some d => min Position.maxLine (d.line + (between source d.stop offset).count newline)

/-- The file name of an offset: that of the last directive before it that gives one. -/
def fileAt (name : String) (directives : List Directive) (offset : Nat) : String :=
  ((endedBy directives offset).filterMap Directive.name?).getLast?.getD name

/-- The position says where it is in a source of that name with these line directives. -/
structure IsAt (source : List UInt8) (name : String) (directives : List Directive)
    (p : Position) : Prop where
  bol : IsLineStart source p.offset p.bol
  line : p.line = lineAt source directives p.offset
  file : p.file = fileAt name directives p.offset

/-! ## Moving over bytes -/

/-- The position after some bytes, none of which belongs to a directive. -/
inductive Past (p : Position) : List UInt8 → Position → Prop
  | within {bytes : List UInt8} (h : newline ∉ bytes) : Past p bytes (p.shifted bytes.length)
  | lines {u v : List UInt8} (h : newline ∉ v) : Past p (u ++ newline :: v)
      ((p.shifted (u ++ newline :: v).length).addLines (u.count newline + 1)
        (p.offset + u.length + 1))

theorem Past.line {p : Position} {bytes u v : List UInt8} {bol : Nat}
    (hbytes : bytes = u ++ newline :: v) (hu : newline ∉ u) (hv : newline ∉ v)
    (hbol : bol = p.offset + u.length + 1) :
    Past p bytes ((p.shifted bytes.length).addLines 1 bol) := by
  have hlines := Past.lines (p := p) (u := u) hv
  rw [List.count_eq_zero_of_not_mem hu] at hlines
  rw [hbytes, hbol]
  exact hlines

section Moves

variable {source : List UInt8} {name : String} {directives more : List Directive}
  {p q : Position} {taken later : List UInt8}

theorem endedBy_eq_self {offset : Nat} (h : ∀ d ∈ directives, d.stop ≤ offset) :
    endedBy directives offset = directives := by
  rw [endedBy, List.filter_eq_self]
  intro d hd
  exact decide_eq_true (h d hd)

theorem IsLineStart.past {offset bol : Nat} (h : IsLineStart source offset bol)
    (hdrop : source.drop offset = taken ++ later) (htaken : newline ∉ taken) :
    IsLineStart source (offset + taken.length) bol := by
  have hle := h.le
  refine ⟨by omega, h.after, ?_⟩
  rw [between_append source hle (Nat.le_add_right _ _), between_of_drop hdrop, List.mem_append,
    not_or]
  exact ⟨h.last, htaken⟩

theorem isLineStart_after {offset : Nat} {u v : List UInt8}
    (hdrop : source.drop offset = u ++ newline :: v ++ later) (hv : newline ∉ v) :
    IsLineStart source (offset + (u ++ newline :: v).length) (offset + u.length + 1) := by
  have hlength : offset + (u ++ newline :: v).length = offset + u.length + 1 + v.length := by
    rw [List.length_append, List.length_cons]
    omega
  refine ⟨by omega, .inr ?_, ?_⟩
  · have hget : source[offset + u.length]? = (source.drop offset)[u.length]? := by
      rw [List.getElem?_drop]
    rw [Nat.add_sub_cancel, hget, hdrop]
    simp
  · have hrest : source.drop (offset + u.length + 1) = v ++ later := by
      rw [Nat.add_assoc, ← List.drop_drop, hdrop]
      simp [List.drop_append]
    rw [hlength, between_of_drop hrest]
    exact hv

/-- The number of newlines counts on. -/
theorem lineAt_past (hdrop : source.drop p.offset = taken ++ later)
    (hended : ∀ d ∈ directives, d.stop ≤ p.offset) :
    lineAt source directives (p.offset + taken.length) =
      min Position.maxLine (lineAt source directives p.offset + taken.count newline) := by
  have hended' : ∀ d ∈ directives, d.stop ≤ p.offset + taken.length := by
    intro d hd
    exact Nat.le_trans (hended d hd) (Nat.le_add_right _ _)
  have hcount : ∀ start, start ≤ p.offset →
      (between source start (p.offset + taken.length)).count newline =
        (between source start p.offset).count newline + taken.count newline := by
    intro start hstart
    rw [between_append source hstart (Nat.le_add_right _ _), between_of_drop hdrop,
      List.count_append]
  simp only [lineAt, endedBy_eq_self hended, endedBy_eq_self hended']
  cases hlast : directives.getLast? with
  | none =>
    simp only [hcount 0 (Nat.zero_le _)]
    omega
  | some d =>
    simp only [hcount d.stop (hended d (List.mem_of_getLast? hlast))]
    omega

/-- A true position is true again after more bytes. -/
theorem IsAt.past (h : IsAt source name directives p) (hpast : Past p taken q)
    (hdrop : source.drop p.offset = taken ++ later)
    (hended : ∀ d ∈ directives, d.stop ≤ p.offset) : IsAt source name directives q := by
  have hline := lineAt_past hdrop hended
  rw [← h.line] at hline
  have hfile : fileAt name directives (p.offset + taken.length) = p.file := by
    rw [h.file, fileAt, fileAt, endedBy_eq_self hended, endedBy_eq_self]
    intro d hd
    exact Nat.le_trans (hended d hd) (Nat.le_add_right _ _)
  have hmax : p.line ≤ Position.maxLine := by
    rw [h.line, lineAt]
    split <;> exact Nat.min_le_left _ _
  cases hpast with
  | within htaken =>
    refine ⟨h.bol.past hdrop htaken, ?_, hfile.symm⟩
    rw [List.count_eq_zero_of_not_mem htaken] at hline
    show p.line = lineAt source directives (p.offset + taken.length)
    omega
  | @lines u v hv =>
    refine ⟨isLineStart_after hdrop hv, ?_, hfile.symm⟩
    rw [List.count_append, List.count_cons_self, List.count_eq_zero_of_not_mem hv] at hline
    show min (p.line + (u.count newline + 1)) Position.maxLine =
      lineAt source directives (p.offset + (u ++ newline :: v).length)
    omega

/-- A position does not depend on directives that end behind it. -/
theorem IsAt.append (h : IsAt source name directives p) (hmore : ∀ d ∈ more, p.offset < d.stop) :
    IsAt source name (directives ++ more) p := by
  have hnone : endedBy more p.offset = [] := by
    rw [endedBy, List.filter_eq_nil_iff]
    intro d hd
    have hlt := hmore d hd
    simp only [decide_eq_true_eq]
    omega
  have hsame : endedBy (directives ++ more) p.offset = endedBy directives p.offset := by
    have happend : endedBy (directives ++ more) p.offset =
        endedBy directives p.offset ++ endedBy more p.offset := List.filter_append ..
    rw [happend, hnone, List.append_nil]
  refine ⟨h.bol, ?_, ?_⟩
  · rw [h.line, lineAt, lineAt, hsame]
  · rw [h.file, fileAt, fileAt, hsame]

/-- The position after a directive says what the directive says. -/
theorem IsAt.directive (h : IsAt source name directives p) {d : Directive}
    (hstart : d.start = p.offset) (hended : ∀ d ∈ directives, d.stop ≤ p.offset)
    {u : List UInt8} (hlexeme : d.lexeme = u ++ [newline])
    (hdrop : source.drop p.offset = d.lexeme ++ later) :
    IsAt source name (directives ++ [d]) ⟨d.name?.getD p.file, d.line, d.stop, d.stop⟩ := by
  have hstop : d.stop = p.offset + d.lexeme.length := by rw [Directive.stop, hstart]
  have hall : endedBy (directives ++ [d]) d.stop = directives ++ [d] := by
    apply endedBy_eq_self
    intro e he
    rcases List.mem_append.mp he with he | he
    · have hle := hended e he
      omega
    · rw [List.mem_singleton.mp he]
  refine ⟨?_, ?_, ?_⟩
  · show IsLineStart source d.stop d.stop
    rw [hlexeme] at hdrop hstop
    have hline := isLineStart_after hdrop List.not_mem_nil
    have hbol : p.offset + u.length + 1 = d.stop := by
      rw [hstop, List.length_append, List.length_singleton]
      omega
    rwa [← hstop, hbol] at hline
  · show d.line = lineAt source (directives ++ [d]) d.stop
    have hmax : d.line ≤ Position.maxLine := Nat.min_le_left _ _
    simp only [lineAt, hall, List.getLast?_append, List.getLast?_singleton, Option.some_or,
      between_self, List.count_nil]
    omega
  · show d.name?.getD p.file = fileAt name (directives ++ [d]) d.stop
    rw [fileAt, hall, List.filterMap_append, List.getLast?_append, h.file, fileAt,
      endedBy_eq_self hended]
    cases hname : d.name? with
    | none => simp [hname]
    | some file => simp [hname]

end Moves

end StreamLexer
