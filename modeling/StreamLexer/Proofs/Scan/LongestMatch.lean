import Mathlib.Computability.Language
import StreamLexer.Proofs.Scan.Munch

/-!
# The longest match of a rule table

The declarative side of maximal munch. A rule table is a list of languages, one row a rule, in order
of precedence; `LongestMatch` says which rule and which length a source has by it, without reading
the source byte by byte.

`munch` works on patterns and reads each byte once. `munch_closed` describes what it finds in a
complete source, and `munch_found_iff` says that this is the longest match of the languages of its
rows. What it makes of an incomplete source is in `StreamLexer.Proofs.Scan.Starvation`.
-/
namespace StreamLexer

variable {ρ : Type}

/-! ## Rule tables as lists of languages -/

/-- The first row that has the word in its language is one of the rule. -/
def FirstRow (table : List (ρ × Language UInt8)) (word : List UInt8) (rule : ρ) : Prop :=
  ∃ before lang after, table = before ++ (rule, lang) :: after ∧ word ∈ lang ∧
    ∀ row ∈ before, word ∉ row.2

/-- The lexeme that a table gives a source by maximal munch: the longest prefix that is in some
row's language, under the first rule that has it. -/
structure LongestMatch (table : List (ρ × Language UInt8)) (source : List UInt8) (rule : ρ)
    (length : Nat) : Prop where
  length_le : length ≤ source.length
  first : FirstRow table (source.take length) rule
  longest : ∀ n, length < n → n ≤ source.length → ∀ row ∈ table, source.take n ∉ row.2

theorem not_firstRow_nil (word : List UInt8) (rule : ρ) :
    ¬ FirstRow ([] : List (ρ × Language UInt8)) word rule := by
  rintro ⟨before, lang, after, h, -⟩
  simp at h

/-- The first row decides if it has the word; otherwise the rest of the table does. -/
theorem firstRow_cons (row : ρ × Language UInt8) (table : List (ρ × Language UInt8))
    (word : List UInt8) (rule : ρ) :
    FirstRow (row :: table) word rule ↔
      word ∈ row.2 ∧ row.1 = rule ∨ word ∉ row.2 ∧ FirstRow table word rule := by
  constructor
  · rintro ⟨before, lang, after, h, hword, hbefore⟩
    cases before with
    | nil =>
      obtain ⟨rfl, rfl⟩ : row = (rule, lang) ∧ table = after := by simpa using h
      exact .inl ⟨hword, rfl⟩
    | cons first before =>
      obtain ⟨rfl, rfl⟩ : row = first ∧ table = before ++ (rule, lang) :: after := by simpa using h
      exact .inr ⟨hbefore row (by simp), before, lang, after, rfl, hword,
        fun r hr => hbefore r (by simp [hr])⟩
  · rintro (⟨hword, rfl⟩ | ⟨hrow, before, lang, after, rfl, hword, hbefore⟩)
    · exact ⟨[], row.2, table, rfl, hword, by simp⟩
    · refine ⟨row :: before, lang, after, rfl, hword, ?_⟩
      intro r hr
      rcases List.mem_cons.mp hr with rfl | hr
      · exact hrow
      · exact hbefore r hr

open Classical in
/-- The rule of the first row that has a word. -/
noncomputable def firstRule? (table : List (ρ × Language UInt8)) (word : List UInt8) : Option ρ :=
  (table.find? fun row => decide (word ∈ row.2)).map (·.1)

open Classical in
theorem firstRule?_cons (row : ρ × Language UInt8) (table : List (ρ × Language UInt8))
    (word : List UInt8) :
    firstRule? (row :: table) word =
      if word ∈ row.2 then some row.1 else firstRule? table word := by
  by_cases h : word ∈ row.2 <;> simp [firstRule?, h]

theorem firstRule?_append (table table' : List (ρ × Language UInt8)) (word : List UInt8) :
    firstRule? (table ++ table') word = (firstRule? table word).or (firstRule? table' word) := by
  induction table with
  | nil => rfl
  | cons row table ih =>
    rw [List.cons_append, firstRule?_cons, firstRule?_cons, ih]
    split <;> simp

theorem firstRule?_eq_some_iff (table : List (ρ × Language UInt8)) (word : List UInt8) (rule : ρ) :
    firstRule? table word = some rule ↔ FirstRow table word rule := by
  induction table with
  | nil => simpa [firstRule?] using not_firstRow_nil word rule
  | cons row table ih =>
    rw [firstRow_cons, firstRule?_cons, ← ih]
    by_cases h : word ∈ row.2 <;> simp [h]

/-- A word has a first row exactly where some row has it. -/
theorem exists_firstRow_iff (table : List (ρ × Language UInt8)) (word : List UInt8) :
    (∃ rule, FirstRow table word rule) ↔ ∃ row ∈ table, word ∈ row.2 := by
  induction table with
  | nil => simpa using not_firstRow_nil word
  | cons row table ih =>
    simp only [firstRow_cons, List.exists_mem_cons_iff]
    by_cases h : word ∈ row.2
    · simp [h]
    · simp [h, ih]

/-- Tables with the same first row for each word have the same longest matches. -/
theorem longestMatch_congr {table table' : List (ρ × Language UInt8)}
    (hfirst : ∀ word rule, FirstRow table word rule ↔ FirstRow table' word rule)
    (source : List UInt8) (rule : ρ) (length : Nat) :
    LongestMatch table source rule length ↔ LongestMatch table' source rule length := by
  have hsome : ∀ word, (∃ row ∈ table, word ∈ row.2) ↔ ∃ row ∈ table', word ∈ row.2 := by
    intro word
    rw [← exists_firstRow_iff, ← exists_firstRow_iff]
    exact exists_congr fun rule => hfirst word rule
  have hnone : ∀ word, (∀ row ∈ table, word ∉ row.2) ↔ ∀ row ∈ table', word ∉ row.2 := by
    intro word
    have := not_congr (hsome word)
    push Not at this
    exact this
  constructor
  · rintro ⟨hle, hrow, hlongest⟩
    exact ⟨hle, (hfirst _ _).mp hrow, fun n hn hn' => (hnone _).mp (hlongest n hn hn')⟩
  · rintro ⟨hle, hrow, hlongest⟩
    exact ⟨hle, (hfirst _ _).mpr hrow, fun n hn hn' => (hnone _).mpr (hlongest n hn hn')⟩

/-! ## Reading a word by derivatives -/

namespace Pattern

/-- Whether a pattern accepts a word, read byte by byte. -/
def accepts (p : Pattern) : List UInt8 → Bool
  | [] => p.acceptsEmpty
  | b :: w => (p.after b).any fun q => accepts q w

theorem accepts_iff (p : Pattern) (w : List UInt8) : p.accepts w = true ↔ p.Accepts w := by
  induction w generalizing p with
  | nil => exact acceptsEmpty_iff p
  | cons b w ih => simp [accepts, accepts_cons_iff, ih]

instance (p : Pattern) (w : List UInt8) : Decidable (p.Accepts w) :=
  decidable_of_iff _ (accepts_iff p w)

/-- The words of a pattern, as a language. -/
def language (p : Pattern) : Language UInt8 :=
  {w : List UInt8 | p.Accepts w}

@[simp] theorem mem_language (p : Pattern) (w : List UInt8) : w ∈ p.language ↔ p.Accepts w :=
  Iff.rfl

end Pattern

/-- The languages of the rows. -/
def languages (rows : List (ρ × Pattern)) : List (ρ × Language UInt8) :=
  rows.map fun row => (row.1, row.2.language)

/-- The rule of the first row that accepts a word. -/
def firstAccepting? (rows : List (ρ × Pattern)) (w : List UInt8) : Option ρ :=
  (rows.find? (·.2.accepts w)).map (·.1)

@[simp] theorem firstAccepting?_empty (rows : List (ρ × Pattern)) :
    firstAccepting? rows [] = firstEnding? rows := rfl

@[simp] theorem firstAccepting?_nil (w : List UInt8) :
    firstAccepting? ([] : List (ρ × Pattern)) w = none := rfl

theorem firstAccepting?_cons (row : ρ × Pattern) (rows : List (ρ × Pattern)) (w : List UInt8) :
    firstAccepting? (row :: rows) w =
      if row.2.accepts w then some row.1 else firstAccepting? rows w := by
  by_cases h : row.2.accepts w = true <;> simp [firstAccepting?, h]

theorem firstAccepting?_append (rows rows' : List (ρ × Pattern)) (w : List UInt8) :
    firstAccepting? (rows ++ rows') w =
      (firstAccepting? rows w).or (firstAccepting? rows' w) := by
  induction rows with
  | nil => simp
  | cons row rows ih =>
    rw [List.cons_append, firstAccepting?_cons, firstAccepting?_cons, ih]
    split <;> simp

/-- Several patterns of one rule accept what one of them accepts. -/
theorem firstAccepting?_map (rule : ρ) (ps : List Pattern) (w : List UInt8) :
    firstAccepting? (ps.map (rule, ·)) w = if ps.any (·.accepts w) then some rule else none := by
  induction ps with
  | nil => rfl
  | cons p ps ih =>
    rw [List.map_cons, firstAccepting?_cons, ih, List.any_cons]
    by_cases h : p.accepts w = true <;> simp [h]

/-- Once a byte is read, the rows after it answer for the rest of the word. -/
theorem firstAccepting?_rowsAfter (rows : List (ρ × Pattern)) (b : UInt8) (w : List UInt8) :
    firstAccepting? rows (b :: w) = firstAccepting? (rowsAfter b rows) w := by
  induction rows with
  | nil => rfl
  | cons row rows ih =>
    have hcons : rowsAfter b (row :: rows) =
        (row.2.after b).map (row.1, ·) ++ rowsAfter b rows := rfl
    rw [firstAccepting?_cons, ih, hcons, firstAccepting?_append, firstAccepting?_map]
    show (if (row.2.after b).any (·.accepts w) then _ else _) = _
    split <;> simp

/-- The rows and their languages agree on the first row that has a word. -/
theorem firstRule?_languages (rows : List (ρ × Pattern)) (w : List UInt8) :
    firstRule? (languages rows) w = firstAccepting? rows w := by
  induction rows with
  | nil => rfl
  | cons row rows ih =>
    have hcons : languages (row :: rows) = (row.1, row.2.language) :: languages rows := rfl
    rw [hcons, firstRule?_cons, firstAccepting?_cons, ih]
    simp [Pattern.accepts_iff]

theorem firstAccepting?_eq_some_iff (rows : List (ρ × Pattern)) (w : List UInt8) (rule : ρ) :
    firstAccepting? rows w = some rule ↔ FirstRow (languages rows) w rule := by
  rw [← firstRule?_languages, firstRule?_eq_some_iff]

theorem firstAccepting?_eq_none_iff (rows : List (ρ × Pattern)) (w : List UInt8) :
    firstAccepting? rows w = none ↔ ∀ row ∈ rows, ¬ row.2.Accepts w := by
  simp [firstAccepting?, Pattern.accepts_iff]

/-! ## What munch finds in a complete source -/

/-- The outcome of a munch that has read `n` bytes and goes on with these rows: either one of the
rows accepts more, and the longest such prefix counts, or `best` stays. -/
def Munched (best : ρ × Nat) (n : Nat) (rows : List (ρ × Pattern)) (bytes : List UInt8)
    (found : ρ × Nat) : Prop :=
  (∃ k, 0 < k ∧ k ≤ bytes.length ∧ found.2 = n + k ∧
      firstAccepting? rows (bytes.take k) = some found.1 ∧
      ∀ m, k < m → m ≤ bytes.length → firstAccepting? rows (bytes.take m) = none) ∨
    found = best ∧ ∀ m, 0 < m → m ≤ bytes.length → firstAccepting? rows (bytes.take m) = none

theorem firstAccepting?_take_succ (rows : List (ρ × Pattern)) (b : UInt8) (bytes : List UInt8)
    (m : Nat) : firstAccepting? rows ((b :: bytes).take (m + 1)) =
      firstAccepting? (rowsAfter b rows) (bytes.take m) := by
  rw [List.take_succ_cons, firstAccepting?_rowsAfter]

/-- That no longer prefix is accepted is said after a byte of prefixes which are a byte shorter. -/
theorem longest_cons {rows : List (ρ × Pattern)} {b : UInt8} {bytes : List UInt8} {k : Nat}
    (h : ∀ m, k < m → m ≤ bytes.length →
      firstAccepting? (rowsAfter b rows) (bytes.take m) = none) :
    ∀ m, k + 1 < m → m ≤ (b :: bytes).length →
      firstAccepting? rows ((b :: bytes).take m) = none := by
  intro m hm hle
  obtain ⟨m, rfl⟩ : ∃ m', m = m' + 1 := ⟨m - 1, by omega⟩
  rw [firstAccepting?_take_succ]
  exact h m (by omega) (by simpa using hle)

/-- In a complete source `munchFrom` always finds something, and that is the longest prefix. -/
theorem munchFrom_closed (best : ρ × Nat) (n : Nat) (rows : List (ρ × Pattern))
    (bytes : List UInt8) :
    ∃ found, munchFrom true best n rows bytes = .found found.1 found.2 ∧
      Munched best n rows bytes found := by
  induction bytes generalizing best n rows with
  | nil =>
    refine ⟨best, by simp [munchFrom], .inr ⟨rfl, ?_⟩⟩
    intro m hm hle
    simp only [List.length_nil] at hle
    omega
  | cons b bytes ih =>
    by_cases hex : exhausted rows = true
    · refine ⟨best, by simp [munchFrom, hex], .inr ⟨rfl, ?_⟩⟩
      intro m hm hle
      obtain ⟨m, rfl⟩ : ∃ m', m = m' + 1 := ⟨m - 1, by omega⟩
      rw [firstAccepting?_take_succ, rowsAfter_of_exhausted hex]
      rfl
    · -- the rule that ends with `b` is the best one so far, if there is such a rule
      obtain ⟨next, hnext, hending, hnot⟩ : ∃ next,
          munchFrom true best n rows (b :: bytes) =
            munchFrom true next (n + 1) (rowsAfter b rows) bytes ∧
          (∀ rule, firstEnding? (rowsAfter b rows) = some rule → next = (rule, n + 1)) ∧
          (firstEnding? (rowsAfter b rows) = none → next = best) := by
        cases hend : firstEnding? (rowsAfter b rows) with
        | some rule => exact ⟨(rule, n + 1), by simp [munchFrom, hex, hend], by simp, by simp⟩
        | none => exact ⟨best, by simp [munchFrom, hex, hend], by simp, by simp⟩
      rw [hnext]
      obtain ⟨found, hfound, ⟨k, hk, hle, hlen, hfirst, hlongest⟩ | ⟨hbest, hnone⟩⟩ :=
        ih next (n + 1) (rowsAfter b rows)
      · refine ⟨found, hfound, .inl ⟨k + 1, by omega, by simp; omega, by omega, ?_, ?_⟩⟩
        · rw [firstAccepting?_take_succ, hfirst]
        · exact longest_cons hlongest
      · refine ⟨found, hfound, ?_⟩
        cases hend : firstEnding? (rowsAfter b rows) with
        | some rule =>
          rw [hending rule hend] at hbest
          subst hbest
          refine .inl ⟨1, by omega, by simp, rfl, ?_, longest_cons hnone⟩
          rw [firstAccepting?_take_succ, List.take_zero, firstAccepting?_empty, hend]
        | none =>
          refine .inr ⟨hbest.trans (hnot hend), ?_⟩
          intro m hm hle
          rcases Nat.lt_or_ge 1 m with hlt | hge
          · exact longest_cons hnone m hlt hle
          · obtain rfl : m = 0 + 1 := by omega
            rw [firstAccepting?_take_succ, List.take_zero, firstAccepting?_empty, hend]

/-- In a complete source munch always finds something: the longest prefix that some row accepts, or
nothing but the empty prefix under the fallback rule. -/
theorem munch_closed (fallback : ρ) (rows : List (ρ × Pattern)) (source : List UInt8) :
    ∃ rule n, munch fallback rows ⟨source, true⟩ = .found rule n ∧
      (0 < n ∧ n ≤ source.length ∧ firstAccepting? rows (source.take n) = some rule ∧
          (∀ m, n < m → m ≤ source.length → firstAccepting? rows (source.take m) = none) ∨
        rule = fallback ∧ n = 0 ∧
          ∀ m, 0 < m → m ≤ source.length → firstAccepting? rows (source.take m) = none) := by
  obtain ⟨⟨rule, n⟩, hfound, ⟨k, hk, hle, hlen, hfirst, hlongest⟩ | ⟨hbest, hnone⟩⟩ :=
    munchFrom_closed (fallback, 0) 0 rows source
  · obtain rfl : n = k := by simpa using hlen
    exact ⟨rule, n, hfound, .inl ⟨hk, hle, hfirst, hlongest⟩⟩
  · obtain ⟨rfl, rfl⟩ : rule = fallback ∧ n = 0 := by simpa using hbest
    exact ⟨rule, 0, hfound, .inr ⟨rfl, rfl, hnone⟩⟩

/-- A prefix that no row can better, under the first rule that accepts it, is what munch finds. -/
theorem munch_of_longest {fallback : ρ} {rows : List (ρ × Pattern)} {source : List UInt8}
    {rule : ρ} {n : Nat} (hpos : 0 < n) (hle : n ≤ source.length)
    (hfirst : firstAccepting? rows (source.take n) = some rule)
    (hlongest : ∀ m, n < m → m ≤ source.length → firstAccepting? rows (source.take m) = none) :
    munch fallback rows ⟨source, true⟩ = .found rule n := by
  obtain ⟨rule', k, hfound, ⟨hk, hkle, hkfirst, hklongest⟩ | ⟨-, -, hnone⟩⟩ :=
    munch_closed fallback rows source
  · -- of two lengths the shorter one is not longest
    have heq : k = n := by
      rcases Nat.lt_trichotomy k n with hlt | heq | hlt
      · rw [hklongest n hlt hle] at hfirst
        cases hfirst
      · exact heq
      · rw [hlongest k hlt hkle] at hkfirst
        cases hkfirst
    subst heq
    rw [hkfirst] at hfirst
    cases hfirst
    exact hfound
  · rw [hnone n hpos hle] at hfirst
    cases hfirst

/-- Where no row accepts the empty word and some row accepts a prefix, munch finds exactly the
longest match of the table. -/
theorem munch_found_iff (fallback : ρ) {rows : List (ρ × Pattern)} {source : List UInt8}
    (hempty : firstAccepting? rows [] = none)
    (hsome : ∃ n, n ≤ source.length ∧ (firstAccepting? rows (source.take n)).isSome)
    (rule : ρ) (n : Nat) :
    munch fallback rows ⟨source, true⟩ = .found rule n ↔
      LongestMatch (languages rows) source rule n := by
  have hnone : ∀ w, (∀ row ∈ languages rows, w ∉ row.2) ↔ firstAccepting? rows w = none := by
    intro w
    rw [firstAccepting?_eq_none_iff, languages, List.forall_mem_map]
    rfl
  constructor
  · intro h
    obtain ⟨rule', k, hfound, ⟨hk, hle, hfirst, hlongest⟩ | ⟨-, -, hall⟩⟩ :=
      munch_closed fallback rows source
    · rw [hfound] at h
      cases h
      exact ⟨hle, (firstAccepting?_eq_some_iff _ _ _).mp hfirst,
        fun m hm hm' => (hnone _).mpr (hlongest m hm hm')⟩
    · obtain ⟨m, hm, hacc⟩ := hsome
      rcases Nat.eq_zero_or_pos m with rfl | hpos
      · rw [List.take_zero, hempty] at hacc
        cases hacc
      · rw [hall m hpos hm] at hacc
        cases hacc
  · rintro ⟨hle, hfirst, hlongest⟩
    have hfirst' := (firstAccepting?_eq_some_iff _ _ _).mpr hfirst
    refine munch_of_longest ?_ hle hfirst' fun m hm hm' => (hnone _).mp (hlongest m hm hm')
    rcases Nat.eq_zero_or_pos n with rfl | hpos
    · rw [List.take_zero, hempty] at hfirst'
      cases hfirst'
    · exact hpos

end StreamLexer
