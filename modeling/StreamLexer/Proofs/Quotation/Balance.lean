import StreamLexer.Proofs.Quotation.Reader
import StreamLexer.Proofs.Scan.Advance
import StreamLexer.Proofs.Session.Course

/-!
# Quotations end where their levels balance

A session takes a quotation in lexemes, the reader of `StreamLexer.Proofs.Quotation.Reader` in
bytes. A lexeme moves the reader by what its rule says: `QuotationRule.readQuotation_lexeme`. So the
session comes to the end that the reader finds, or fails where the reader finds none.

The main statement is `quotations_balance`.
-/
namespace StreamLexer

open Reader (quotationOpener? readQuotation)

/-! ## Lexemes -/

/-- At a byte that starts a rule of a body, no row accepts more than the lexeme. -/
theorem none_longer_of_body {ρ : Type} {scan : Lookahead → Verdict ρ} {isStop : UInt8 → Bool}
    {skip : Cursor → Nat × Cursor} {endOfInput plain rule : ρ} {rows : List (ρ × Pattern)}
    {b : UInt8} {rest : List UInt8} {n m : Nat}
    (hbody : scan = bodyScan isStop skip endOfInput plain rows) (hb : isStop b = true)
    (h : scan ⟨b :: rest, true⟩ = .found rule n) (hlt : n < m) (hle : m ≤ (b :: rest).length) :
    firstAccepting? rows ((b :: rest).take m) = none := by
  rw [hbody, bodyScan_eq_munch (by simpa using hb)] at h
  have hnone := munch_longest h hlt hle
  rw [firstAccepting?_append] at hnone
  exact (Option.or_eq_none_iff.mp hnone).1

namespace QuotationRule

theorem mem_rows_of_opener {p : Pattern} (hp : p ∈ Pattern.quotationOpens) :
    (QuotationRule.nestedOpen, p) ∈ rows := by
  simp [rows, hp]

/-- Bytes that start no rule are parts of no mark. -/
theorem ne_marks_of_plain {b : UInt8} (h : Byte.isQuotationStop b = false) :
    b ≠ '<'.toUInt8 ∧ b ≠ '>'.toUInt8 := by
  constructor <;>
    · rintro rfl
      cases h

/-- A byte that is a lexeme by itself, although it starts a rule, starts no mark. -/
theorem not_mark_of_single {b : UInt8} {later : List UInt8}
    (hb : Byte.isQuotationStop b = true)
    (h : scan ⟨b :: later, true⟩ = .found .plain 1) (hfirst : firstAccepting? rows [b] = none) :
    quotationOpener? (b :: later) = none ∧
      ¬ (b = '>'.toUInt8 ∧ later.head? = some '>'.toUInt8) := by
  have hnone : ∀ mark rest rule p, b :: later = mark ++ rest → (rule, p) ∈ rows →
      ¬ p.Accepts mark := by
    intro mark rest rule p hsplit hrow haccepts
    have hrejects : firstAccepting? rows mark = none := by
      have hlength := congrArg List.length hsplit
      rw [List.length_append] at hlength
      rcases Nat.lt_or_ge 1 mark.length with hlong | hshort
      · have hlongest := none_longer_of_body scan_eq_bodyScan hb h hlong (by omega)
        rwa [hsplit, List.take_left] at hlongest
      · match mark, hshort with
        | [], _ =>
          have hempty : ∀ row ∈ rows, ¬ row.2.Accepts [] := by decide
          exact absurd haccepts (hempty _ hrow)
        | [c], _ =>
          obtain rfl : b = c := (List.cons.inj hsplit).1
          exact hfirst
    exact (firstAccepting?_eq_none_iff _ _).mp hrejects _ hrow haccepts
  refine ⟨?_, ?_⟩
  · rw [Option.eq_none_iff_forall_ne_some]
    intro rest hopener
    obtain ⟨opener, hsplit, p, hp, haccepts⟩ := Reader.quotationOpener?_eq_some hopener
    exact hnone opener rest _ p hsplit (mem_rows_of_opener hp) haccepts
  · rintro ⟨rfl, hhead⟩
    obtain ⟨rest, rfl⟩ := List.head?_eq_some_iff.mp hhead
    refine hnone ['>'.toUInt8, '>'.toUInt8] rest .close (Pattern.literal ['>', '>']) rfl ?_ ?_
    · simp [rows]
    · exact Pattern.accepts_literal.mpr rfl

/-- What is read behind a lexeme of the rule, with `inner` quotations open before it inside the
outermost one. -/
def readBehind (rule : QuotationRule) (inner : Nat) (later : List UInt8) : Option (List UInt8) :=
  match rule with
  | .nestedOpen => readQuotation (inner + 1) later
  | .close =>
    match inner with
    | 0 => some later
    | inner + 1 => readQuotation inner later
  | .newline | .plain => readQuotation inner later
  | .endOfInput => none

/-- A lexeme moves the reader as its rule says. -/
theorem readQuotation_lexeme {rule : QuotationRule} {lexeme later : List UInt8}
    (h : scan ⟨lexeme ++ later, true⟩ = .found rule lexeme.length) (inner : Nat) :
    readQuotation inner (lexeme ++ later) = rule.readBehind inner later := by
  by_cases hend : rule = .endOfInput
  · subst hend
    obtain ⟨-, -, hview⟩ | ⟨hne, -⟩ := findsBytes _ _ _ h
    · rw [show lexeme ++ later = [] from congrArg Lookahead.bytes hview, readQuotation]
      rfl
    · exact absurd rfl hne
  rcases first_cases_of_body scan_eq_bodyScan bodyTable h with ⟨hrule, -⟩ | ⟨rfl, hplain⟩ |
    ⟨rfl, ⟨b, rfl⟩, hfirst⟩ | hrow
  · exact absurd hrule hend
  · exact Reader.readQuotation_content (fun b hb => ne_marks_of_plain (hplain b hb)) inner later
  · cases hb : Byte.isQuotationStop b with
    | true =>
      obtain ⟨hopen, hclose⟩ := not_mark_of_single hb h hfirst
      exact Reader.readQuotation_byte hopen hclose inner
    | false =>
      refine Reader.readQuotation_content (fun c hc => ?_) inner later
      obtain rfl := List.mem_singleton.mp hc
      exact ne_marks_of_plain hb
  · obtain ⟨p, hp, haccepts⟩ := exists_of_firstAccepting? hrow
    simp only [rows, List.cons_append, List.mem_cons, List.mem_append, List.mem_map, Prod.mk.injEq,
      List.not_mem_nil, or_false] at hp
    rcases hp with ⟨rfl, rfl⟩ | ⟨q, hq, rfl, rfl⟩ | ⟨rfl, rfl⟩
    · obtain rfl := Pattern.accepts_literal.mp haccepts
      exact Reader.readQuotation_close inner later
    · exact Reader.readQuotation_open (Reader.quotationOpener?_append hq haccepts later) inner
    · have hnoMark : Pattern.lineEnd.avoids ['<'.toUInt8, '>'.toUInt8] = true := rfl
      have havoids := Pattern.not_mem_of_avoids hnoMark haccepts
      refine Reader.readQuotation_content (fun b hb => ⟨?_, ?_⟩) inner later
      · rintro rfl
        exact havoids _ (by simp) hb
      · rintro rfl
        exact havoids _ (by simp) hb

end QuotationRule

namespace Session

variable {s : Session} {source bytes rest : List UInt8} {q : OpenQuotation}

/-! ## Through a quotation -/

theorem StandsBefore.step_quotation (lexeme : List UInt8) {rule : QuotationRule}
    (h : s.StandsBefore source (lexeme ++ rest)) (hmode : s.mode = .quotation q)
    (hscan : QuotationRule.scan ⟨lexeme ++ rest, true⟩ = .found rule lexeme.length) :
    s.step = s.actQuotation q rule lexeme.length := by
  simp only [step, stepOn, hmode, h.lookahead_eq, hscan, onFound]

/-- What a session in a quotation comes to, given what follows the end of the quotation. It records
no warning on the way. -/
def EndsQuotation (s : Session) (source : List UInt8) (q : OpenQuotation) :
    Option (List UInt8) → Prop
  | some rest => ∃ t : Session, s.Reaches [⟨.quotation, ⟨q.outer.start, t.pos⟩⟩] t ∧
      t.StandsBefore source rest ∧ t.mode = .code ∧ t.warnings = s.warnings
  | none => ∃ t u : Session, s.Reaches [] t ∧
      t.step = (u, .fail (.unterminatedQuotation q.outer)) ∧ u.warnings = s.warnings

/-- A lexeme that leaves the quotation open is passed over first. -/
theorem EndsQuotation.of_proceed {t : Session} {q' : OpenQuotation} {end? : Option (List UInt8)}
    (hstep : s.step = (t, .proceed)) (hwarnings : t.warnings = s.warnings)
    (houter : q'.outer = q.outer) (h : t.EndsQuotation source q' end?) :
    s.EndsQuotation source q end? := by
  cases end? with
  | some rest =>
    obtain ⟨u, hreach, hu, hmode, hsame⟩ := h
    rw [houter] at hreach
    exact ⟨u, .proceed hstep hreach, hu, hmode, hsame.trans hwarnings⟩
  | none =>
    obtain ⟨u, v, hreach, hfail, hsame⟩ := h
    rw [houter] at hfail
    exact ⟨u, v, .proceed hstep hreach, hfail, hsame.trans hwarnings⟩

/-- A session in a quotation comes to the end that the reader finds. -/
theorem StandsBefore.endsQuotation (h : s.StandsBefore source bytes)
    (hmode : s.mode = .quotation q) :
    s.EndsQuotation source q (readQuotation q.inner bytes) := by
  -- the session goes from lexeme to lexeme, with fewer bytes left each time
  induction hlength : bytes.length using Nat.strongRecOn generalizing s q bytes with
  | ind n ih =>
    subst hlength
    obtain ⟨rule, lexeme, later, rfl, hscan⟩ :=
      exists_lexeme QuotationRule.settles bytes
    have hstep := h.step_quotation lexeme hmode hscan
    have hread := QuotationRule.readQuotation_lexeme hscan q.inner
    have hnext : ∀ {t : Session} {q' : OpenQuotation}, rule ≠ .endOfInput →
        s.step = (t, .proceed) → t.window = s.window →
        t.pos.offset = s.pos.offset + lexeme.length → t.warnings = s.warnings →
        t.mode = .quotation q' → q'.outer = q.outer →
        s.EndsQuotation source q (readQuotation q'.inner later) := by
      intro t q' hrule hproceed hwindow hoffset hwarnings hmode' houter
      have hpos : 0 < lexeme.length := by
        rcases QuotationRule.findsBytes _ _ _ hscan with ⟨hend, -⟩ | ⟨-, hpos, -⟩
        · exact absurd hend hrule
        · exact hpos
      refine .of_proceed hproceed hwarnings houter ?_
      exact ih later.length (by rw [List.length_append]; omega)
        (h.advance lexeme hwindow hoffset) hmode' rfl
    rw [hread]
    cases rule with
    | nestedOpen => exact hnext (by simp) hstep rfl rfl rfl rfl rfl
    | close =>
      cases hinner : q.inner with
      | zero =>
        simp only [actQuotation, hinner, endConstruct] at hstep
        exact ⟨{ s.moveTo (s.pos.shifted lexeme.length) with mode := .code },
          .emit hstep rfl (.here _), h.advance lexeme rfl rfl, rfl, rfl⟩
      | succ inner =>
        simp only [actQuotation, hinner] at hstep
        exact hnext (by simp) hstep rfl rfl rfl rfl rfl
    | newline => exact hnext (by simp) hstep rfl rfl rfl rfl rfl
    | plain => exact hnext (by simp) hstep rfl rfl rfl rfl rfl
    | endOfInput => exact ⟨s, _, .here s, hstep, rfl⟩

end Session

/-! ## Quotations in a source -/

/-- No header starts with the opener of a quotation. -/
theorem HeaderRule.scan_absent_of_quotationOpen {lexeme later : List UInt8}
    (h : TokenRule.scan ⟨lexeme ++ later, true⟩ = .found .quotationOpen lexeme.length) :
    HeaderRule.scan ⟨lexeme ++ later, true⟩ = .found .absent 0 := by
  obtain ⟨hend, -⟩ | ⟨hne, hfirst⟩ := TokenRule.scan_first h
  · cases hend
  obtain ⟨p, hp, haccepts⟩ := exists_patternsOf hfirst
  have hopener := Reader.quotationOpener?_append (p := p) hp haccepts later
  cases lexeme with
  | nil => exact absurd rfl hne
  | cons b lexeme =>
    obtain rfl := Reader.head_of_quotationOpener? hopener
    exact HeaderRule.scan_absent_of_ne (by decide) _

/-- Where source code meets an opener, the session enters the quotation behind it. -/
theorem Session.StandsBefore.opensQuotation {t : Session} {source lexeme body : List UInt8}
    (h : t.StandsBefore source (lexeme ++ body)) (hmode : t.mode = .code)
    (hopener : TokenRule.scan ⟨lexeme ++ body, true⟩ = .found .quotationOpen lexeme.length) :
    ∃ r, t.Reaches [] r ∧ r.StandsBefore source body ∧
      r.mode = .quotation { outer := ⟨t.pos, t.pos.shifted lexeme.length⟩ } ∧
      r.warnings = t.warnings := by
  have hdecided := h.reaches_absent hmode (HeaderRule.scan_absent_of_quotationOpen hopener)
  have hstep := h.decided.step_code lexeme hmode rfl hopener
  have hbehind : Session.StandsBefore (Session.actCode { t with headerPending := false }
      .quotationOpen lexeme).1 source body := h.decided.advance lexeme rfl rfl
  exact ⟨_, hdecided.trans (.proceed hstep (.here _)), hbehind, rfl, rfl⟩

/-- What lexing makes of a quotation that source code enters at `t` by an opener with this span,
after the tokens `before`, given what follows the end of the quotation. -/
def LexesQuotation (source : List UInt8) (config : Config) (before : List Token) (t : Session)
    (opener : Span) : Option (List UInt8) → Prop
  | some rest => ∃ u : Session,
      let token : Token := ⟨.quotation, ⟨t.pos, u.pos⟩⟩
      (Session.ofSource config source).Reaches (before ++ [token]) u ∧
        u.StandsBefore source rest ∧ u.mode = .code ∧ u.warnings = t.warnings ∧
        before ++ [token] <+: (lex source config).tokens
  | none => ∃ error : LexError, error.fault = .unterminatedString ∧
      error.context = .insideQuotation ∧ error.span = opener ∧
      lex source config = ⟨before, t.warnings.toList, some error⟩

/-- Where source code meets the opener of a quotation, lexing gives one token, from there to the end
of the closer that leaves no quotation open, or fails at the opener where there is none. -/
theorem quotations_balance {source : List UInt8} {config : Config} {before : List Token}
    {t : Session} {n : Nat} (hreach : (Session.ofSource config source).Reaches before t)
    (hmode : t.mode = .code)
    (hopener : TokenRule.scan ⟨source.drop t.pos.offset, true⟩ = .found .quotationOpen n) :
    LexesQuotation source config before t ⟨t.pos, t.pos.shifted n⟩
      (readQuotation 0 (source.drop (t.pos.offset + n))) := by
  obtain ⟨later, hstands⟩ := hreach.standsBefore (Session.standsBefore_ofSource config source)
  have hdrop := hstands.drop_eq
  rw [hdrop] at hopener
  obtain ⟨lexeme, body, rfl, rfl⟩ : ∃ lexeme body, later = lexeme ++ body ∧ lexeme.length = n := by
    rcases TokenRule.findsBytes _ _ _ hopener with ⟨hend, -⟩ | ⟨-, -, hle⟩
    · cases hend
    · exact ⟨later.take n, later.drop n, (List.take_append_drop n later).symm,
        List.length_take_of_le hle⟩
  rw [← List.drop_drop, hdrop, List.drop_left]
  obtain ⟨r, hopening, hr, hinside, hsame⟩ := hstands.opensQuotation hmode hopener
  have hends := hr.endsQuotation hinside
  cases hend : readQuotation 0 body with
  | some rest =>
    rw [hend] at hends
    obtain ⟨u, hread, hu, hmode', hwarnings⟩ := hends
    have hthrough := hreach.trans (hopening.trans hread)
    have houtput := hthrough.output_eq
    rw [Session.output_ofSource] at houtput
    refine ⟨u, hthrough, hu, hmode', hwarnings.trans hsame, ?_⟩
    rw [houtput]
    exact List.prefix_append _ _
  | none =>
    rw [hend] at hends
    obtain ⟨v, u, hread, hfail, hwarnings⟩ := hends
    have houtput := (hreach.trans (hopening.trans hread)).output_eq
    rw [Session.output_ofSource, Session.output_of_fail hfail, hwarnings, hsame] at houtput
    exact ⟨.unterminatedQuotation _, rfl, rfl, rfl, by simpa using houtput⟩

/-- Quotes, a comment mark and openers of all three forms, one of which ends at a `>>` that a third
`>` follows; then the same up to that. -/
theorem quotations_balance_nested :
    let source := " <:a<'\"(*<@b<>>x<:c@d<y>>>z>> t".toList.map Char.toUInt8
    let cut := source.take 26
    let s := Session.ofSource {} source
    let t : Session := { s with pos := s.pos.shifted 1, headerPending := false }
    let r := Session.ofSource {} cut
    let u : Session := { r with pos := r.pos.shifted 1, headerPending := false }
    (TokenRule.scan ⟨source.drop t.pos.offset, true⟩ = .found .quotationOpen 4 ∧
      readQuotation 0 (source.drop 5) = some [' '.toUInt8, 't'.toUInt8] ∧
      LexesQuotation source {} [] t ⟨t.pos, t.pos.shifted 4⟩ (readQuotation 0 (source.drop 5))) ∧
    TokenRule.scan ⟨cut.drop u.pos.offset, true⟩ = .found .quotationOpen 4 ∧
      readQuotation 0 (cut.drop 5) = none ∧
      LexesQuotation cut {} [] u ⟨u.pos, u.pos.shifted 4⟩ (readQuotation 0 (cut.drop 5)) := by
  intro source cut s t r u
  have hreach : s.Reaches [] t :=
    .proceed (t := { s with headerPending := false }) rfl (.proceed rfl (.here _))
  have hreach' : r.Reaches [] u :=
    .proceed (t := { r with headerPending := false }) rfl (.proceed rfl (.here _))
  have hopener : TokenRule.scan ⟨source.drop t.pos.offset, true⟩ = .found .quotationOpen 4 := by
    decide +kernel
  have hopener' : TokenRule.scan ⟨cut.drop u.pos.offset, true⟩ = .found .quotationOpen 4 := by
    decide +kernel
  exact ⟨⟨hopener, by decide +kernel, quotations_balance hreach rfl hopener⟩,
    hopener', by decide +kernel, quotations_balance hreach' rfl hopener'⟩

end StreamLexer
