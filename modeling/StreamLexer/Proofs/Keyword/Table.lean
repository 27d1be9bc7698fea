import Mathlib.Data.Finset.Card
import Mathlib.Data.List.Induction
import StreamLexer.Byte.Class
import StreamLexer.Token.KeywordTable
import StreamLexer.Token.Printer

/-!
# The two layers of a keyword table

The entries put before the fixed words come one by one or as a list, in any mixture. What counts of
them is the last entry for a word (`Built.lookup_overrides`) and the number of different words
(`Built.size_eq`).

The fixed words can be looked up faster, by the length of the word first. `bucketed?` does so, and
`bucketed?_eq` says that it finds the same words.
-/
namespace StreamLexer

namespace KeywordTable

/-! ## Entries -/

theorem lookup_filter {α : Type} (entries : List (String × α)) {word other : String}
    (hne : other ≠ word) :
    (entries.filter (·.1 != word)).lookup other = entries.lookup other := by
  induction entries with
  | nil => rfl
  | cons entry rest ih =>
    obtain ⟨key, value⟩ := entry
    by_cases hkey : key = word
    · subst hkey
      rw [List.filter_cons_of_neg (by simp), ih, List.lookup_cons, beq_false_of_ne hne]
    · rw [List.filter_cons_of_pos (by simpa using hkey), List.lookup_cons, List.lookup_cons, ih]

/-- An entry counts for its own word only. -/
theorem lookup_insert (t : KeywordTable) (word : String) (kind : TokenKind) (other : String) :
    (t.insert word kind).overrides.lookup other =
      if other = word then some kind else t.overrides.lookup other := by
  rw [insert, List.lookup_cons]
  by_cases hsame : other = word
  · rw [if_pos hsame, beq_iff_eq.mpr hsame]
  · rw [if_neg hsame, beq_false_of_ne hsame, lookup_filter _ hsame]

/-- The words that have an entry. -/
def words (t : KeywordTable) : List String :=
  t.overrides.map (·.1)

theorem words_insert (t : KeywordTable) (word : String) (kind : TokenKind) :
    (t.insert word kind).words = word :: t.words.filter (· != word) := by
  rw [words, insert, List.map_cons, words, List.filter_map]
  rfl

/-- A table made from entries, in the order in which they were put in: from the table without
entries or from a list of them, and then one by one. -/
inductive Built : List (String × TokenKind) → KeywordTable → Prop
  | empty : Built [] {}
  | collect (entries : List (String × TokenKind)) : Built entries (.ofList entries)
  | insert {entries : List (String × TokenKind)} {t : KeywordTable} (rest : Built entries t)
      (word : String) (kind : TokenKind) : Built (entries ++ [(word, kind)]) (t.insert word kind)

theorem ofList_concat (entries : List (String × TokenKind)) (entry : String × TokenKind) :
    ofList (entries ++ [entry]) = (ofList entries).insert entry.1 entry.2 := by
  rw [ofList, List.foldl_append]
  rfl

namespace Built

variable {entries : List (String × TokenKind)} {t : KeywordTable}

/-- It does not matter how the entries came into the table. -/
theorem eq_ofList (h : Built entries t) : t = ofList entries := by
  induction h with
  | empty => rfl
  | collect entries => rfl
  | insert _ word kind ih => rw [ofList_concat, ih]

/-- The last entry for a word counts. -/
theorem lookup_overrides (h : Built entries t) (word : String) :
    t.overrides.lookup word = entries.reverse.lookup word := by
  rw [h.eq_ofList]
  clear h
  induction entries using List.reverseRecOn with
  | nil => rfl
  | append_singleton entries entry ih =>
    rw [ofList_concat, lookup_insert, ih, List.reverse_concat, List.lookup_cons]
    by_cases hsame : word = entry.1
    · rw [if_pos hsame, beq_iff_eq.mpr hsame]
    · rw [if_neg hsame, beq_false_of_ne hsame]

/-- Each word that has an entry is held once. -/
theorem words_nodup (h : Built entries t) :
    t.words.Nodup ∧ t.words.toFinset = (entries.map (·.1)).toFinset := by
  rw [h.eq_ofList]
  clear h
  induction entries using List.reverseRecOn with
  | nil => exact ⟨List.nodup_nil, rfl⟩
  | append_singleton entries entry ih =>
    obtain ⟨hnodup, hsame⟩ := ih
    rw [ofList_concat, words_insert]
    refine ⟨List.nodup_cons.mpr ⟨?_, hnodup.filter _⟩, ?_⟩
    · simp
    · ext word
      have hmem : word ∈ (ofList entries).words ↔ word ∈ entries.map (·.1) := by
        rw [← List.mem_toFinset, hsame, List.mem_toFinset]
      by_cases hword : word = entry.1
      · simp [hword]
      · simp only [List.mem_toFinset, List.mem_cons, List.mem_filter, hmem, List.map_append,
          List.mem_append, List.map_cons, List.map_nil, List.not_mem_nil, hword, false_or,
          or_false, bne_iff_ne, ne_eq, not_false_eq_true, and_true]

/-- The table counts the different words among its entries. -/
theorem size_eq (h : Built entries t) : t.size = (entries.map (·.1)).toFinset.card := by
  obtain ⟨hnodup, hsame⟩ := h.words_nodup
  rw [← hsame, List.toFinset_card_of_nodup hnodup, words, List.length_map, size]

/-- A word is reserved by an entry for it, or as a fixed word. -/
theorem isReserved_iff (h : Built entries t) (word : String) :
    t.isReserved word = true ↔
      word ∈ entries.map (·.1) ∨ (fixedKeyword? word).isSome = true := by
  have hentry : (t.overrides.lookup word).isSome = true ↔ word ∈ entries.map (·.1) := by
    rw [h.lookup_overrides, List.lookup_isSome_iff]
    simp
  rw [← hentry, isReserved, lookup?]
  cases t.overrides.lookup word with
  | some kind => simp
  | none => simp

theorem lookup?_eq (h : Built entries t) (word : String) :
    t.lookup? word = (entries.reverse.lookup word).or (fixedKeyword? word) := by
  rw [lookup?, h.lookup_overrides]
  cases entries.reverse.lookup word <;> rfl

end Built

/-! ## Fixed words by their length -/

/-- The fixed words of a length, with their meanings. -/
def bucket : Nat → List (String × TokenKind)
  | 2 => [("as", .keyword .kwAs), ("do", .keyword .kwDo), ("if", .keyword .kwIf),
      ("in", .keyword .kwIn), ("of", .keyword .kwOf), ("or", .keyword .kwOr),
      ("to", .keyword .kwTo)]
  | 3 => [("and", .keyword .kwAnd), ("end", .keyword .kwEnd), ("for", .keyword .kwFor),
      ("fun", .keyword .kwFun), ("let", .keyword .kwLet), ("new", .keyword .kwNew),
      ("rec", .keyword .kwRec), ("sig", .keyword .kwSig), ("try", .keyword .kwTry),
      ("val", .keyword .kwVal), ("mod", .operator .level3 "mod"),
      ("lor", .operator .level3 "lor"), ("lsl", .operator .level4 "lsl"),
      ("lsr", .operator .level4 "lsr"), ("asr", .operator .level4 "asr")]
  | 4 => [("done", .keyword .kwDone), ("else", .keyword .kwElse), ("lazy", .keyword .kwLazy),
      ("open", .keyword .kwOpen), ("then", .keyword .kwThen), ("true", .keyword .kwTrue),
      ("type", .keyword .kwType), ("when", .keyword .kwWhen), ("with", .keyword .kwWith),
      ("land", .operator .level3 "land"), ("lxor", .operator .level3 "lxor")]
  | 5 => [("begin", .keyword .kwBegin), ("class", .keyword .kwClass),
      ("false", .keyword .kwFalse), ("match", .keyword .kwMatch), ("while", .keyword .kwWhile)]
  | 6 => [("assert", .keyword .kwAssert), ("downto", .keyword .kwDownto),
      ("method", .keyword .kwMethod), ("module", .keyword .kwModule),
      ("nonrec", .keyword .kwNonrec), ("object", .keyword .kwObject),
      ("struct", .keyword .kwStruct)]
  | 7 => [("functor", .keyword .kwFunctor), ("include", .keyword .kwInclude),
      ("inherit", .keyword .kwInherit), ("mutable", .keyword .kwMutable),
      ("private", .keyword .kwPrivate), ("virtual", .keyword .kwVirtual)]
  | 8 => [("external", .keyword .kwExternal), ("function", .keyword .kwFunction)]
  | 9 => [("exception", .keyword .kwException)]
  | 10 => [("constraint", .keyword .kwConstraint)]
  | 11 => [("initializer", .keyword .kwInitializer)]
  | _ => []

/-- The meaning of a fixed word, looked up among those of its length in UTF-8. A word that is too
short or too long, or starts with no small letter, is not looked up at all. -/
def bucketed? (word : String) : Option TokenKind :=
  let bytes := word.toUTF8.data.toList
  if 2 ≤ bytes.length ∧ bytes.length ≤ 11 ∧ Byte.inRange 'a' 'z' (bytes.headD 0) = true then
    (bucket bytes.length).lookup word
  else none

/-- The rows of all buckets. -/
def bucketRows : List (String × TokenKind) :=
  (List.range 12).flatMap bucket

theorem mem_bucketRows {n : Nat} {row : String × TokenKind} (h : row ∈ bucket n) :
    row ∈ bucketRows := by
  refine List.mem_flatMap.mpr ⟨n, List.mem_range.mpr ?_, h⟩
  unfold bucket at h
  split at h <;> first | omega | cases h

/-- No row stands in the bucket of another length or behind another row for its word, and each means
the fixed word that it names. -/
theorem bucketed?_of_mem_rows : ∀ row ∈ bucketRows,
    bucketed? row.1 = some row.2 ∧ fixedKeyword? row.1 = some row.2 ∧ row.2.display = row.1 := by
  decide +kernel

/-- Every fixed word has a row. -/
theorem mem_rows_of_fixed : (∀ word ∈ Keyword.all, (word.spelling, .keyword word) ∈ bucketRows) ∧
    ∀ row ∈ operatorWords, (row.1, .operator row.2 row.1) ∈ bucketRows := by
  decide +kernel

theorem mem_rows_of_bucketed? {word : String} {kind : TokenKind}
    (h : bucketed? word = some kind) : (word, kind) ∈ bucketRows := by
  dsimp only [bucketed?] at h
  split at h
  · obtain ⟨before, after, hrows, -⟩ := List.lookup_eq_some_iff.mp h
    refine mem_bucketRows (n := word.toUTF8.data.toList.length) ?_
    rw [hrows]
    exact List.mem_append_right before List.mem_cons_self
  · cases h

theorem mem_rows_of_fixedKeyword? {word : String} {kind : TokenKind}
    (h : fixedKeyword? word = some kind) : (word, kind) ∈ bucketRows := by
  unfold fixedKeyword? at h
  split at h
  · rename_i keyword hfind
    cases h
    have hspelling : keyword.spelling = word := by simpa using List.find?_some hfind
    rw [← hspelling]
    exact mem_rows_of_fixed.1 keyword (List.mem_of_find?_eq_some hfind)
  · obtain ⟨cls, hlookup, rfl⟩ := Option.map_eq_some_iff.mp h
    obtain ⟨before, after, hrows, -⟩ := List.lookup_eq_some_iff.mp hlookup
    refine mem_rows_of_fixed.2 (word, cls) ?_
    rw [hrows]
    exact List.mem_append_right before List.mem_cons_self

/-- The buckets hold the fixed words and no other. -/
theorem bucketed?_eq (word : String) : bucketed? word = fixedKeyword? word := by
  ext kind
  constructor
  · intro h
    exact (bucketed?_of_mem_rows _ (mem_rows_of_bucketed? h)).2.1
  · intro h
    exact (bucketed?_of_mem_rows _ (mem_rows_of_fixedKeyword? h)).1

/-- What the lookup by length finds: all of its rows, each by its own word, and nothing else. -/
structure FindsRows : Prop where
  rows : ∀ n, ∀ row ∈ bucket n, bucketed? row.1 = some row.2 ∧ row.2.display = row.1
  others : ∀ word, (∀ n, word ∉ (bucket n).map (·.1)) → bucketed? word = none
  fixed : ∀ word, bucketed? word = fixedKeyword? word

theorem findsRows : FindsRows := by
  refine ⟨fun n row hrow => ?_, fun word hnone => ?_, bucketed?_eq⟩
  · obtain ⟨hfound, -, hdisplay⟩ := bucketed?_of_mem_rows row (mem_bucketRows hrow)
    exact ⟨hfound, hdisplay⟩
  · cases hfound : bucketed? word with
    | none => rfl
    | some kind =>
      obtain ⟨n, -, hrow⟩ := List.mem_flatMap.mp (mem_rows_of_bucketed? hfound)
      exact absurd (List.mem_map_of_mem hrow) (hnone n)

end KeywordTable

end StreamLexer
