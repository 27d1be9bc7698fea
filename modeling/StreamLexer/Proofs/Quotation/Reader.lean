import StreamLexer.Proofs.Comment.Reader
import StreamLexer.Proofs.Scan.WordBytes

/-!
# A reader of quotations

What follows the opener of a quotation, read from left to right: an opener of any of the three forms
adds a level, a closer removes one, and every other byte is content. Nothing else counts inside a
quotation, and the reader has no rules to choose from: at a `<` it asks for an opener, at a `>` for
a closer.

`readQuotation` is the reader. `quotationOpener?_eq_some` and `quotationOpener?_append` say which
words it takes for openers, and `readQuotation_content` that bytes other than `<` and `>` are of no
account.
-/
namespace StreamLexer.Reader

/-- What follows a name of identifier characters, which may be empty, and the mark behind it. -/
def afterName? (mark : Char) (bytes : List UInt8) : Option (List UInt8) :=
  after? [mark] (bytes.dropWhile Byte.isIdent)

/-- What follows the opener of a quotation, `<:id<`, `<:id@id<` or `<@id<`. -/
def quotationOpener? (bytes : List UInt8) : Option (List UInt8) :=
  ((after? ['<', ':'] bytes).bind fun rest =>
      (afterName? '<' rest).or ((afterName? '@' rest).bind (afterName? '<'))).or
    ((after? ['<', '@'] bytes).bind (afterName? '<'))

/-! ## Names and openers -/

theorem afterName?_eq_some {mark : Char} {bytes rest : List UInt8}
    (h : afterName? mark bytes = some rest) :
    ∃ name, bytes = name ++ mark.toUInt8 :: rest ∧ ∀ b ∈ name, Byte.isIdent b = true := by
  have hdrop := after?_eq_some_iff.mp h
  refine ⟨bytes.takeWhile Byte.isIdent, ?_, fun b hb => List.all_eq_true.mp List.all_takeWhile b hb⟩
  conv => lhs; rw [← List.takeWhile_append_dropWhile (p := Byte.isIdent) (l := bytes), hdrop]
  rfl

/-- Behind the name stands one mark only. -/
theorem afterName?_append {mark stop : Char} (hstop : Byte.isIdent stop.toUInt8 = false)
    {name : List UInt8} (hname : ∀ b ∈ name, Byte.isIdent b = true) (rest : List UInt8) :
    afterName? mark (name ++ stop.toUInt8 :: rest) = after? [mark] (stop.toUInt8 :: rest) := by
  rw [afterName?, List.dropWhile_append_of_pos hname, List.dropWhile_cons_of_neg (by simp [hstop])]

/-- The three forms of openers. -/
theorem quotationOpener?_eq_some {bytes rest : List UInt8}
    (h : quotationOpener? bytes = some rest) :
    ∃ opener, bytes = opener ++ rest ∧ ∃ p ∈ Pattern.quotationOpens, p.Accepts opener := by
  rcases Option.or_eq_some_iff.mp h with hcolon | ⟨-, hat⟩
  · obtain ⟨body, hbody, hnames⟩ := Option.bind_eq_some_iff.mp hcolon
    obtain rfl := after?_eq_some_iff.mp hbody
    rcases Option.or_eq_some_iff.mp hnames with hone | ⟨-, htwo⟩
    · obtain ⟨name, rfl, hname⟩ := afterName?_eq_some hone
      refine ⟨'<'.toUInt8 :: ':'.toUInt8 :: name ++ ['<'.toUInt8], by simp, _,
        List.mem_cons_self, ?_⟩
      exact ⟨_, _, rfl, rfl, _, _, rfl, rfl, name, _, rfl, hname, _, _, rfl, rfl, rfl⟩
    · obtain ⟨later, hfirst, hsecond⟩ := Option.bind_eq_some_iff.mp htwo
      obtain ⟨name, rfl, hname⟩ := afterName?_eq_some hfirst
      obtain ⟨other, rfl, hother⟩ := afterName?_eq_some hsecond
      refine ⟨'<'.toUInt8 :: ':'.toUInt8 :: name ++ '@'.toUInt8 :: other ++ ['<'.toUInt8],
        by simp, _, List.mem_cons_of_mem _ List.mem_cons_self, ?_⟩
      exact ⟨_, _, rfl, rfl, _, _, rfl, rfl, name, '@'.toUInt8 :: other ++ ['<'.toUInt8],
        by simp, hname, _, _, rfl, rfl, other, _, rfl, hother, _, _, rfl, rfl, rfl⟩
  · obtain ⟨body, hbody, hbehind⟩ := Option.bind_eq_some_iff.mp hat
    obtain rfl := after?_eq_some_iff.mp hbody
    obtain ⟨name, rfl, hname⟩ := afterName?_eq_some hbehind
    refine ⟨'<'.toUInt8 :: '@'.toUInt8 :: name ++ ['<'.toUInt8], by simp, _,
      List.mem_cons_of_mem _ (List.mem_cons_of_mem _ List.mem_cons_self), ?_⟩
    exact ⟨_, _, rfl, rfl, _, _, rfl, rfl, name, _, rfl, hname, _, _, rfl, rfl, rfl⟩

/-- A word of one of the forms is taken for an opener, whatever follows it. -/
theorem quotationOpener?_append {opener : List UInt8} {p : Pattern}
    (hp : p ∈ Pattern.quotationOpens) (h : p.Accepts opener) (rest : List UInt8) :
    quotationOpener? (opener ++ rest) = some rest := by
  have hless : Byte.isIdent '<'.toUInt8 = false := rfl
  have hat : Byte.isIdent '@'.toUInt8 = false := rfl
  have hmark : ∀ (c : Char) (rest : List UInt8), after? [c] (c.toUInt8 :: rest) = some rest :=
    fun c rest => after?_eq_some_iff.mpr rfl
  simp only [Pattern.quotationOpens, List.mem_cons, List.not_mem_nil, or_false] at hp
  rcases hp with rfl | rfl | rfl
  · obtain ⟨a, _, rfl, ha, b, _, rfl, hb, name, _, rfl, hname, c, _, rfl, hc, rfl⟩ := h
    obtain rfl := eq_of_beq ha
    obtain rfl := eq_of_beq hb
    obtain rfl := eq_of_beq hc
    have hopen : after? ['<', ':'] ('<'.toUInt8 :: ':'.toUInt8 :: (name ++ '<'.toUInt8 :: rest)) =
        some (name ++ '<'.toUInt8 :: rest) := after?_eq_some_iff.mpr rfl
    simp [quotationOpener?, hopen, afterName?_append hless hname, hmark]
  · obtain ⟨a, _, rfl, ha, b, _, rfl, hb, name, _, rfl, hname, c, _, rfl, hc, other, _, rfl, hother,
      d, _, rfl, hd, rfl⟩ := h
    obtain rfl := eq_of_beq ha
    obtain rfl := eq_of_beq hb
    obtain rfl := eq_of_beq hc
    obtain rfl := eq_of_beq hd
    have hopen : after? ['<', ':'] ('<'.toUInt8 :: ':'.toUInt8 ::
        (name ++ '@'.toUInt8 :: (other ++ '<'.toUInt8 :: rest))) =
          some (name ++ '@'.toUInt8 :: (other ++ '<'.toUInt8 :: rest)) := after?_eq_some_iff.mpr rfl
    have hnone : after? ['<'] ('@'.toUInt8 :: (other ++ '<'.toUInt8 :: rest)) = none := rfl
    simp [quotationOpener?, hopen, afterName?_append hat hname, afterName?_append hless hother,
      hmark, hnone]
  · obtain ⟨a, _, rfl, ha, b, _, rfl, hb, name, _, rfl, hname, c, _, rfl, hc, rfl⟩ := h
    obtain rfl := eq_of_beq ha
    obtain rfl := eq_of_beq hb
    obtain rfl := eq_of_beq hc
    have hnone : after? ['<', ':'] ('<'.toUInt8 :: '@'.toUInt8 :: (name ++ '<'.toUInt8 :: rest)) =
        none := rfl
    have hopen : after? ['<', '@'] ('<'.toUInt8 :: '@'.toUInt8 :: (name ++ '<'.toUInt8 :: rest)) =
        some (name ++ '<'.toUInt8 :: rest) := after?_eq_some_iff.mpr rfl
    simp [quotationOpener?, hnone, hopen, afterName?_append hless hname, hmark]

theorem head_of_quotationOpener? {b : UInt8} {bytes rest : List UInt8}
    (h : quotationOpener? (b :: bytes) = some rest) : b = '<'.toUInt8 := by
  rcases Option.or_eq_some_iff.mp h with hcolon | ⟨-, hat⟩
  · obtain ⟨body, hbody, -⟩ := Option.bind_eq_some_iff.mp hcolon
    exact (List.cons.inj (after?_eq_some_iff.mp hbody)).1
  · obtain ⟨body, hbody, -⟩ := Option.bind_eq_some_iff.mp hat
    exact (List.cons.inj (after?_eq_some_iff.mp hbody)).1

theorem quotationOpener?_length {bytes rest : List UInt8}
    (h : quotationOpener? bytes = some rest) : rest.length < bytes.length := by
  obtain ⟨opener, rfl, p, hp, haccepts⟩ := quotationOpener?_eq_some h
  have hempty : ∀ p ∈ Pattern.quotationOpens, ¬ p.Accepts [] := by decide
  have hne : opener ≠ [] := by
    rintro rfl
    exact hempty p hp haccepts
  have hpos := List.length_pos_of_ne_nil hne
  rw [List.length_append]
  omega

/-! ## The reader -/

/-- What follows the `>>` that ends a quotation, read from behind its opener, with `inner` more
quotations open inside it. There is none where the bytes end first. -/
def readQuotation (inner : Nat) (bytes : List UInt8) : Option (List UInt8) :=
  match bytes with
  | [] => none
  | b :: rest =>
    match hopen : quotationOpener? (b :: rest) with
    | some next => readQuotation (inner + 1) next
    | none =>
      if b == '>'.toUInt8 && rest.head? == some '>'.toUInt8 then
        match inner with
        | 0 => some rest.tail
        | inner + 1 => readQuotation inner rest.tail
      else readQuotation inner rest
termination_by bytes.length
decreasing_by
  · exact quotationOpener?_length hopen
  · simp only [List.length_tail, List.length_cons]
    omega
  · simp

theorem readQuotation_open {bytes next : List UInt8} (h : quotationOpener? bytes = some next)
    (inner : Nat) : readQuotation inner bytes = readQuotation (inner + 1) next := by
  cases bytes with
  | nil => cases h
  | cons b rest =>
    rw [readQuotation.eq_def]
    dsimp only
    split
    · rename_i next' hnext'
      rw [h] at hnext'
      cases hnext'
      rfl
    · rename_i hnone
      rw [h] at hnone
      cases hnone

theorem readQuotation_close (inner : Nat) (rest : List UInt8) :
    readQuotation inner ('>'.toUInt8 :: '>'.toUInt8 :: rest) =
      match inner with
      | 0 => some rest
      | inner + 1 => readQuotation inner rest := by
  rw [readQuotation.eq_def]
  dsimp only
  split
  · rename_i next hnext
    cases head_of_quotationOpener? hnext
  · rfl

/-- A byte that starts neither an opener nor a closer is content. -/
theorem readQuotation_byte {b : UInt8} {rest : List UInt8}
    (hopen : quotationOpener? (b :: rest) = none)
    (hclose : ¬ (b = '>'.toUInt8 ∧ rest.head? = some '>'.toUInt8)) (inner : Nat) :
    readQuotation inner (b :: rest) = readQuotation inner rest := by
  rw [readQuotation.eq_def]
  dsimp only
  split
  · rename_i next hnext
    rw [hopen] at hnext
    cases hnext
  · rw [if_neg (by simpa using hclose)]

theorem readQuotation_content {content : List UInt8}
    (h : ∀ b ∈ content, b ≠ '<'.toUInt8 ∧ b ≠ '>'.toUInt8) (inner : Nat) (rest : List UInt8) :
    readQuotation inner (content ++ rest) = readQuotation inner rest := by
  induction content with
  | nil => rfl
  | cons b content ih =>
    obtain ⟨hless, hgreater⟩ := h b List.mem_cons_self
    have hopen : quotationOpener? (b :: (content ++ rest)) = none := by
      rw [Option.eq_none_iff_forall_ne_some]
      intro next hnext
      exact hless (head_of_quotationOpener? hnext)
    rw [List.cons_append, readQuotation_byte hopen (fun hclose => hgreater hclose.1)]
    exact ih fun c hc => h c (List.mem_cons_of_mem b hc)

/-- Quotes, comment marks and a lone `<` are content. Pairs of `>` are told off from the left. -/
example :
    readQuotation 0 ("'<:a<\"<(*<:b@c<>>*)>>".toList.map Char.toUInt8) = none ∧
      readQuotation 0 ("<:<<b>>>>>".toList.map Char.toUInt8) = some ['>'.toUInt8] := by
  decide +kernel

end StreamLexer.Reader
