import StreamLexer.Proofs.Scan.Rows
import StreamLexer.Proofs.Scan.SourceGrammar
import StreamLexer.Proofs.Session.Course

/-!
# What lies between tokens

A gap between two tokens is made of blanks, line ends and line directives, the lexemes that source
code takes without making a token. Before the first gap there may be a header. Both are described
as languages, and the lexemes of the scans as words of these.
-/
namespace StreamLexer

open scoped Computability

/-- The bytes of the source from one offset up to another. -/
def between (source : List UInt8) (start stop : Nat) : List UInt8 :=
  (source.drop start).take (stop - start)

@[simp] theorem between_self (source : List UInt8) (offset : Nat) :
    between source offset offset = [] := by
  simp [between]

theorem between_append (source : List UInt8) {a b c : Nat} (hab : a ≤ b) (hbc : b ≤ c) :
    between source a c = between source a b ++ between source b c := by
  have hc : c - a = (b - a) + (c - b) := by omega
  have hb : b = a + (b - a) := by omega
  rw [between, between, between, hc, List.take_add, List.drop_drop, ← hb]

theorem between_of_drop {source taken later : List UInt8} {offset : Nat}
    (h : source.drop offset = taken ++ later) :
    between source offset (offset + taken.length) = taken := by
  rw [between, h, Nat.add_sub_cancel_left, List.take_left]

namespace Grammar

/-- What source code passes over between two tokens. -/
def separator : Language UInt8 :=
  repeated (byteIn Byte.isBlank) + lineEnd + lineDirective

/-- A gap between two tokens. -/
def gap : Language UInt8 :=
  separator∗

/-- The bytes up to the end of a line, and that end. -/
def restOfLine : Language UInt8 :=
  (byteIn (· != '\n'.toUInt8))∗ * char '\n'

/-- A line that starts with `#!`, which another line and a line `!#` may follow. -/
def header : Language UInt8 :=
  text ['#', '!'] * restOfLine * optional (restOfLine * text ['!', '#', '\n'])

theorem nil_mem_gap : [] ∈ gap :=
  Language.nil_mem_kstar _

theorem append_mem_gap {u v : List UInt8} (hu : u ∈ separator) (hv : v ∈ gap) : u ++ v ∈ gap := by
  rw [gap, ← Language.one_add_self_mul_kstar_eq_kstar]
  exact .inr ⟨u, hu, v, hv, rfl⟩

end Grammar

open Grammar

/-- The rule takes its lexeme without making a token or opening a construct. -/
def TokenRule.isSeparator : TokenRule → Bool
  | .blank | .newline | .lineDirective => true
  | _ => false

/-- The lexeme of a rule is a word of the language that the patterns of the rule make up. -/
theorem mem_of_first {ρ : Type} [DecidableEq ρ] {rows : List (ρ × Pattern)} {rule : ρ}
    {lang : Language UInt8} {lexeme : List UInt8} (patterns : List Pattern)
    (hpatterns : patternsOf rows rule = patterns)
    (hlang : (patterns.map Pattern.language).sum = lang)
    (h : firstAccepting? rows lexeme = some rule) : lexeme ∈ lang := by
  obtain ⟨p, hp, haccepts⟩ := exists_patternsOf h
  rw [hpatterns] at hp
  rw [← hlang, ← Pattern.any_accepts_iff, List.any_eq_true]
  exact ⟨p, hp, (Pattern.accepts_iff p lexeme).mpr haccepts⟩

/-- The lexemes of these rules are the separators of the grammar. -/
theorem mem_separator {rule : TokenRule} {lexeme : List UInt8} (hrule : rule.isSeparator = true)
    (h : firstAccepting? TokenRule.rows lexeme = some rule) : lexeme ∈ separator := by
  rw [separator, Language.mem_add, Language.mem_add]
  cases rule with
  | blank =>
    refine .inl (.inl (mem_of_first [[.one Byte.isBlank, .many Byte.isBlank]] rfl ?_ h))
    simp [repeated]
  | newline =>
    refine .inl (.inr (mem_of_first [Pattern.lineEnd] rfl ?_ h))
    simp [Pattern.language_lineEnd]
  | lineDirective => exact .inr (mem_of_first Pattern.lineDirectives rfl sum_lineDirectives h)
  | _ => cases hrule

/-- The header of a source: the longest one that it starts with, or nothing. -/
structure IsHeader (source header : List UInt8) : Prop where
  isPrefix : header <+: source
  form : header = [] ∨ header ∈ Grammar.header
  longest : ∀ other, other <+: source → other ∈ Grammar.header → other.length ≤ header.length

theorem mem_header_iff (w : List UInt8) :
    w ∈ Grammar.header ↔ (firstAccepting? HeaderRule.rows w).isSome = true := by
  have hsum : Grammar.header = ((HeaderRule.rows.map (·.2)).map Pattern.language).sum := by
    simp only [Grammar.header, restOfLine, Grammar.optional, HeaderRule.rows, List.map_cons,
      List.map_nil, List.sum_cons, List.sum_nil, Pattern.language_append, Pattern.language_literal,
      Pattern.language_many, Pattern.language_char, Pattern.language_nil, mul_add, mul_one,
      add_zero, mul_assoc]
  rw [hsum, ← Pattern.any_accepts_iff]
  simp [firstAccepting?]

/-- The scan for a header finds the header. -/
theorem isHeader_of_scan {rule : HeaderRule} {lexeme later : List UInt8}
    (h : HeaderRule.scan ⟨lexeme ++ later, true⟩ = .found rule lexeme.length) :
    IsHeader (lexeme ++ later) lexeme ∧ (rule = .absent → lexeme = []) := by
  rw [HeaderRule.scan_eq_munch] at h
  have hlongest : ∀ other, other <+: lexeme ++ later → other ∈ Grammar.header →
      other.length ≤ lexeme.length := by
    intro other hprefix hother
    by_contra hlonger
    have hnone := munch_longest h (by omega) hprefix.length_le
    rw [← List.prefix_iff_eq_take.mp hprefix] at hnone
    rw [mem_header_iff, hnone] at hother
    cases hother
  rcases munch_first h with ⟨-, rfl⟩ | ⟨-, hfirst⟩
  · exact ⟨⟨List.prefix_append _ _, .inl rfl, hlongest⟩, fun _ => rfl⟩
  · have hform : lexeme ∈ Grammar.header := by
      rw [mem_header_iff, hfirst]
      rfl
    refine ⟨⟨List.prefix_append _ _, .inr hform, hlongest⟩, ?_⟩
    rintro rfl
    obtain ⟨p, hp, -⟩ := exists_of_firstAccepting? hfirst
    have hrules : ∀ row ∈ HeaderRule.rows, row.1 ≠ .absent := by decide
    exact absurd rfl (hrules _ hp)

end StreamLexer
