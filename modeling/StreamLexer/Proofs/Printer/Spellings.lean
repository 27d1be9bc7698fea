import StreamLexer.Proofs.Keyword.Names
import StreamLexer.Proofs.Printer.Words

/-!
# Words displayed as they are written

A mark or reserved word has one spelling, and the table reads it as that mark or word:
`roundTrips_punct`, `roundTrips_keyword`. Identifiers, operators and labels keep the bytes that
they were read from: `display_identifier`, `display_label`.
-/
namespace StreamLexer

/-! ## Marks -/

theorem Punct.mem_all (mark : Punct) : mark ∈ Punct.all := by
  cases mark <;> decide

/-- No row before that of a mark has its spelling. -/
theorem firstAccepting?_punct (mark : Punct) :
    firstAccepting? TokenRule.rows (mark.chars.map Char.toUInt8) =
      some (.word (.punct mark)) := by
  have h : ∀ mark ∈ Punct.all, firstAccepting? TokenRule.rows (mark.chars.map Char.toUInt8) =
      some (.word (.punct mark)) := by
    decide +kernel
  exact h mark mark.mem_all

theorem Punct.toNat_lt_of_mem_chars (mark : Punct) : ∀ c ∈ mark.chars, c.toNat < 256 := by
  cases mark <;> simp [chars]

theorem roundTrips_punct (mark : Punct) : RoundTrips (.punct mark) := by
  apply roundTrips_of_word (firstAccepting?_punct mark) rfl
  show Latin1.encode? mark.spelling = _
  rw [mark.spelling_eq, Latin1.encode?_ofList mark.toNat_lt_of_mem_chars]

/-! ## Reserved words -/

/-- The small letters. -/
def letters : List UInt8 :=
  (List.range 26).map fun n => UInt8.ofNat ('a'.toNat + n)

theorem toUInt8_mem_letters {c : Char} (h : 'a'.toNat ≤ c.toNat ∧ c.toNat ≤ 'z'.toNat) :
    c.toUInt8 ∈ letters := by
  refine List.mem_map.mpr ⟨c.toNat - 'a'.toNat, List.mem_range.mpr ?_, ?_⟩
  · have hz : 'z'.toNat = 'a'.toNat + 25 := rfl
    omega
  · rw [Nat.add_sub_cancel' h.1]
    rfl

/-- Small letters are an identifier or a reserved word. -/
theorem firstAccepting?_letters {b : UInt8} {rest : List UInt8} (hb : b ∈ letters)
    (hrest : ∀ c ∈ rest, c ∈ letters) :
    firstAccepting? TokenRule.rows (b :: rest) = some (.word .lower) := by
  have hlower : ∀ c ∈ letters, Byte.isLower c = true := by decide +kernel
  have hidentifier : Lexeme.isIdentifier (b :: rest) = true := by
    simp only [Lexeme.isIdentifier, hlower b hb, Bool.true_or, Bool.true_and, List.all_eq_true]
    intro c hc
    exact Byte.isIdent_of_start (by simp [hlower c (hrest c hc)])
  have hne : b :: rest ≠ ['_'.toUInt8] := by
    intro hsame
    obtain ⟨rfl, -⟩ := List.cons.inj hsame
    exact absurd hb (by decide +kernel)
  rw [firstAccepting?_identifier hidentifier hne, WordRule.ofFirst, if_pos (hlower b hb)]

namespace Keyword

theorem mem_all (word : Keyword) : word ∈ all := by
  cases word <;> decide

theorem exists_letters (word : Keyword) : ∃ c cs, word.spelling.toList = c :: cs ∧
    ∀ d ∈ c :: cs, 'a'.toNat ≤ d.toNat ∧ d.toNat ≤ 'z'.toNat := by
  cases word <;> simp [spelling]

theorem spelling_injective : Function.Injective spelling := by
  have hnodup : (all.map spelling).Nodup := by simp [all, spelling]
  intro word other hsame
  exact List.inj_on_of_nodup_map hnodup word.mem_all other.mem_all hsame

end Keyword

/-- A reserved word is looked up by its spelling. -/
theorem fixedKeyword?_spelling (word : Keyword) :
    fixedKeyword? word.spelling = some (.keyword word) := by
  have hfound : Keyword.all.find? (·.spelling == word.spelling) = some word := by
    cases hfind : Keyword.all.find? (·.spelling == word.spelling) with
    | none => simpa using List.find?_eq_none.mp hfind word word.mem_all
    | some other =>
      have hsame : other.spelling = word.spelling := by simpa using List.find?_some hfind
      rw [Keyword.spelling_injective hsame]
  simp only [fixedKeyword?, hfound]

theorem roundTrips_keyword (word : Keyword) : RoundTrips (.keyword word) := by
  obtain ⟨c, cs, hspelling, hletters⟩ := word.exists_letters
  have hword : word.spelling = String.ofList (c :: cs) := by
    rw [← hspelling, String.ofList_toList]
  have hlatin : ∀ d ∈ c :: cs, d.toNat < 256 := fun d hd =>
    Nat.lt_of_le_of_lt (hletters d hd).2 (by decide)
  have hfirst : firstAccepting? TokenRule.rows ((c :: cs).map Char.toUInt8) =
      some (.word .lower) := by
    apply firstAccepting?_letters
    · exact toUInt8_mem_letters (hletters c List.mem_cons_self)
    · intro b hb
      obtain ⟨d, hd, rfl⟩ := List.mem_map.mp hb
      exact toUInt8_mem_letters (hletters d (List.mem_cons_of_mem c hd))
  refine roundTrips_of_word hfirst ?_ ?_
  · have hlookup : KeywordTable.lookup? {} (Latin1.decode ((c :: cs).map Char.toUInt8)) =
        some (.keyword word) := by
      rw [Latin1.decode_toUInt8 hlatin, ← hword]
      exact fixedKeyword?_spelling word
    simp only [WordRule.read, hlookup, Option.getD_some]
  · show Latin1.encode? word.spelling = _
    rw [hword, Latin1.encode?_ofList hlatin]

/-! ## Identifiers -/

/-- A reserved word is displayed as itself, whatever it means. -/
theorem display_of_fixedKeyword? {name : String} {kind : TokenKind}
    (h : fixedKeyword? name = some kind) : kind.display = name := by
  unfold fixedKeyword? at h
  split at h
  · rename_i word hfind
    cases h
    show word.spelling = name
    simpa using List.find?_some hfind
  · obtain ⟨cls, -, rfl⟩ := Option.map_eq_some_iff.mp h
    rfl

/-- So an identifier, reserved or not, is displayed as it is written. -/
theorem display_identifier {make : String → TokenKind} (hmake : ∀ name, (make name).display = name)
    (name : String) : ((fixedKeyword? name).getD (make name)).display = name := by
  cases hfixed : fixedKeyword? name with
  | none => exact hmake name
  | some kind => exact display_of_fixedKeyword? hfixed

/-- A word that reads as a kind displayed as it is written. -/
theorem roundTrips_of_decode {lexeme : List UInt8} {rule : WordRule} {kind : TokenKind}
    (hfirst : firstAccepting? TokenRule.rows lexeme = some (.word rule))
    (hread : rule.read {} lexeme = .ok kind) (hdisplay : kind.display = Latin1.decode lexeme) :
    RoundTrips kind :=
  roundTrips_of_word hfirst hread (by rw [hdisplay, Latin1.encode?_decode])

/-! ## Labels -/

/-- The name between its mark and the colon is the label as it is written. -/
theorem display_label {mark : Char} (hmark : mark.toNat < 256) {lexeme : List UInt8}
    (h : Pattern.Accepts [.char mark, .one Byte.isLower, .many Byte.isIdent, .char ':'] lexeme) :
    String.ofList [mark] ++ Latin1.decode (Lexeme.inner lexeme) ++ ":" = Latin1.decode lexeme := by
  have hfirst : Latin1.decode [mark.toUInt8] = String.ofList [mark] := by
    rw [Latin1.decode, List.map_singleton, Latin1.char_toUInt8 hmark]
  have hlast : Latin1.decode [':'.toUInt8] = ":" := rfl
  calc String.ofList [mark] ++ Latin1.decode (Lexeme.inner lexeme) ++ ":"
      = Latin1.decode ([mark.toUInt8] ++ (Lexeme.inner lexeme ++ [':'.toUInt8])) := by
        rw [Latin1.decode_append, Latin1.decode_append, hfirst, hlast, String.append_assoc]
    _ = Latin1.decode lexeme := congrArg Latin1.decode (Pattern.eq_label h).symm

end StreamLexer
