import StreamLexer.Proofs.Scan.WordBytes
import StreamLexer.Proofs.Session.Course

/-!
# Quoted strings

A quoted string ends at the first place behind its opener where its terminator stands, told by
`FirstOccurrence` of the bytes alone. A session takes the bytes before that place in pieces, and
among them whole terminators of other strings. No terminator starts inside a piece, because it
starts with a bar and a piece has a bar at its first byte at most: `StandsBefore.step_quotedPiece`.

The main statement is `quoted_string_ends`, for openers that source code meets and for those in
comments.
-/
namespace StreamLexer

/-! ## First occurrences -/

/-- The mark stands in the bytes behind `text`, before `rest`, and nowhere further to the front. -/
structure FirstOccurrence (mark bytes text rest : List UInt8) : Prop where
  split : bytes = text ++ (mark ++ rest)
  first : ∀ before after, bytes = before ++ (mark ++ after) → text.length ≤ before.length

/-- Where the mark stands anywhere, it stands somewhere for the first time. -/
theorem exists_firstOccurrence {mark bytes : List UInt8} (h : mark <:+: bytes) :
    ∃ text rest, FirstOccurrence mark bytes text rest := by
  induction bytes with
  | nil =>
    obtain rfl := List.infix_nil.mp h
    exact ⟨[], [], rfl, fun before after _ => Nat.zero_le _⟩
  | cons b bytes ih =>
    by_cases hhere : mark <+: b :: bytes
    · obtain ⟨rest, hrest⟩ := hhere
      exact ⟨[], rest, hrest.symm, fun before after _ => Nat.zero_le _⟩
    · obtain ⟨text, rest, hfirst⟩ := ih ((List.infix_cons_iff.mp h).resolve_left hhere)
      refine ⟨b :: text, rest, by rw [hfirst.split]; rfl, ?_⟩
      intro before after hsplit
      cases before with
      | nil => exact absurd ⟨after, hsplit.symm⟩ hhere
      | cons c before =>
        have htail : bytes = before ++ (mark ++ after) := (List.cons.inj hsplit).2
        have hle := hfirst.first before after htail
        simp only [List.length_cons]
        omega

/-- Nowhere before its first occurrence does the mark start. -/
theorem FirstOccurrence.clear {mark bytes text rest : List UInt8}
    (h : FirstOccurrence mark bytes text rest) {u v : List UInt8} (htext : text = u ++ v)
    (hv : v ≠ []) : ¬ mark <+: v ++ (mark ++ rest) := by
  rintro ⟨after, hafter⟩
  have hsplit : bytes = u ++ (mark ++ after) := by
    rw [hafter, ← List.append_assoc, ← htext]
    exact h.split
  have hle := h.first u after hsplit
  have hpos := List.length_pos_of_ne_nil hv
  rw [htext, List.length_append] at hle
  omega

/-! ## Openers -/

/-- The opener of a quoted string. -/
def openerOf (id : List UInt8) : List UInt8 :=
  '\x7b'.toUInt8 :: id ++ ['|'.toUInt8]

theorem inner_openerOf (id : List UInt8) : Lexeme.inner (openerOf id) = id := by
  simp [Lexeme.inner, openerOf]

theorem length_openerOf (id : List UInt8) : (openerOf id).length = id.length + 2 := by
  simp [openerOf]

/-- Neither a letter of a delimiter nor the bar behind them goes on with a `{<`. -/
theorem ne_less_of_delimiter {b : UInt8} (h : Byte.isLower b = true ∨ b = '|'.toUInt8) :
    (b == '<'.toUInt8) = false := by
  rcases h with h | rfl
  · have hb := Byte.forall_of_range (p := fun b => !Byte.isLower b || b != '<'.toUInt8)
      (by decide +kernel) b
    simpa [h] using hb
  · rfl

/-- Source code meets the opener as a lexeme of its own. -/
theorem TokenRule.scan_openerOf {id : List UInt8} (hid : ∀ b ∈ id, Byte.isLower b = true)
    (rest : List UInt8) :
    TokenRule.scan ⟨openerOf id ++ rest, true⟩ = .found .quotedOpen (openerOf id).length := by
  have hbytes : openerOf id ++ rest = '\x7b'.toUInt8 :: (id ++ '|'.toUInt8 :: rest) := by
    simp [openerOf]
  have hbar : Byte.isLower '|'.toUInt8 = false := rfl
  have hstop : ∀ b, Byte.isLower b = true → (b == '|'.toUInt8) = false :=
    fun _ hb => (Byte.isLower_disjoint hb).1
  obtain ⟨b, tail, hcons, hb⟩ : ∃ b tail, id ++ '|'.toUInt8 :: rest = b :: tail ∧
      (Byte.isLower b = true ∨ b = '|'.toUInt8) := by
    cases id with
    | nil => exact ⟨_, _, rfl, .inr rfl⟩
    | cons b id => exact ⟨_, _, rfl, .inl (hid b (by simp))⟩
  have hless := ne_less_of_delimiter hb
  rw [hbytes]
  -- behind the brace only one row goes on with such a byte
  rw [TokenRule.scan_eq_munch]
  show munchFrom true (TokenRule.word (.punct .lBrace), 1) 1
    [(.word (.punct .lBrace), []), (.word (.punct .lBraceLess), [.char '<']),
     (.quotedOpen, .many Byte.isLower :: [(· == '|'.toUInt8)].map .one), (.word .illegalByte, [])]
    (id ++ '|'.toUInt8 :: rest) = _
  have hrows : rowsAfter b
      [(TokenRule.word (.punct .lBrace), []), (.word (.punct .lBraceLess), [.char '<']),
       (.quotedOpen, .many Byte.isLower :: [(· == '|'.toUInt8)].map .one),
       (.word .illegalByte, [])] =
      rowsAfter b [(.quotedOpen, .many Byte.isLower :: [(· == '|'.toUInt8)].map .one)] := by
    simp [rowsAfter, Pattern.after, Piece.char, hless]
  rw [hcons, munchFrom_congr hrows rfl rfl, munchFrom_run _ _ _ hstop, ← hcons,
    List.dropWhile_append_of_pos hid, List.takeWhile_append_of_pos hid]
  simp [startsIn, hbar, length_openerOf]
  omega

/-- So does a comment. -/
theorem CommentRule.scan_openerOf {id : List UInt8} (hid : ∀ b ∈ id, Byte.isLower b = true)
    (rest : List UInt8) :
    CommentRule.scan ⟨openerOf id ++ rest, true⟩ = .found .quotedOpen (openerOf id).length := by
  have hbytes : openerOf id ++ rest = '\x7b'.toUInt8 :: (id ++ '|'.toUInt8 :: rest) := by
    simp [openerOf]
  have hbar : Byte.isLower '|'.toUInt8 = false := rfl
  have hopener : Reader.quotedOpener? ('\x7b'.toUInt8 :: (id ++ '|'.toUInt8 :: rest)) =
      some (id, rest) := by
    rw [Reader.quotedOpener?, after?_cons, Option.bind_some, List.dropWhile_append_of_pos hid,
      List.takeWhile_append_of_pos hid]
    simp [hbar, after?_cons]
  rw [hbytes, CommentRule.scan_brace, hopener, length_openerOf]

namespace Session

variable {s : Session} {source bytes stored id : List UInt8} {o : OpenString}

/-! ## Pieces -/

/-- Only the first byte of a lexeme in a quoted string can be a bar, and a terminator has the bytes
of one. -/
theorem quoted_lexeme {rule : QuotedRule} {lexeme later : List UInt8}
    (h : QuotedRule.scan ⟨lexeme ++ later, true⟩ = .found rule lexeme.length) (hne : lexeme ≠ []) :
    rule ≠ .endOfInput ∧ '|'.toUInt8 ∉ lexeme.tail ∧
      (rule = .terminator → lexeme = terminatorOf (Lexeme.inner lexeme)) := by
  have hbar : Byte.isQuotedStop '|'.toUInt8 = true := rfl
  rcases first_cases_of_body QuotedRule.scan_eq_bodyScan QuotedRule.bodyTable h with
    ⟨-, hnil⟩ | ⟨rfl, hplain⟩ | ⟨rfl, ⟨b, rfl⟩, -⟩ | hrow
  · exact absurd hnil hne
  · refine ⟨by simp, fun hmem => ?_, by simp⟩
    have hstop := hplain _ (List.mem_of_mem_tail hmem)
    rw [hbar] at hstop
    cases hstop
  · exact ⟨by simp, by simp, by simp⟩
  · obtain ⟨p, hmem, haccepts⟩ := exists_of_firstAccepting? hrow
    simp only [QuotedRule.rows, List.mem_cons, Prod.mk.injEq, List.not_mem_nil, or_false] at hmem
    rcases hmem with ⟨rfl, rfl⟩ | ⟨rfl, rfl⟩
    · obtain ⟨c, v, rfl, hc, htail⟩ := haccepts
      have hnone := Pattern.not_mem_of_avoids (by decide) htail _
        (List.mem_singleton_self '|'.toUInt8)
      obtain ⟨other, w, rfl, hother, d, v, rfl, hd, rfl⟩ := htail
      obtain rfl := eq_of_beq hc
      obtain rfl := eq_of_beq hd
      have hshape : '|'.toUInt8 :: (other ++ ['\x7d'.toUInt8]) = terminatorOf other := rfl
      refine ⟨by simp, hnone, fun _ => ?_⟩
      rw [hshape, inner_terminatorOf]
    · have hnone := Pattern.not_mem_of_avoids (by decide) haccepts _
        (List.mem_singleton_self '|'.toUInt8)
      exact ⟨by simp, fun hmem => hnone (List.mem_of_mem_tail hmem), by simp⟩

/-- Before bytes that do not start with the terminator, a session takes a piece of the text that has
a bar at its first byte at most. -/
theorem StandsBefore.step_quotedPiece (h : s.StandsBefore source bytes)
    (hmode : s.mode = .string o stored) (hdelimiter : o.delimiter = some id) (hne : bytes ≠ [])
    (hclear : ¬ terminatorOf id <+: bytes) :
    ∃ (lexeme later : List UInt8) (t : Session), bytes = lexeme ++ later ∧ lexeme ≠ [] ∧
      '|'.toUInt8 ∉ lexeme.tail ∧ s.step = (t, .proceed) ∧ t.StandsBefore source later ∧
      t.mode = .string o (lexeme.reverse ++ stored) ∧ t.warnings = s.warnings := by
  have hsettles : Settles QuotedRule.scan := QuotedRule.settles
  obtain ⟨rule, lexeme, later, rfl, hscan⟩ := exists_lexeme hsettles bytes
  have hlexeme : lexeme ≠ [] := by
    rintro rfl
    rcases QuotedRule.findsBytes _ _ _ hscan with ⟨-, -, hview⟩ | ⟨-, hpos, -⟩
    · injection hview with hbytes
      exact hne hbytes
    · exact absurd hpos (Nat.lt_irrefl 0)
  obtain ⟨hend, hbar, hterminator⟩ := quoted_lexeme hscan hlexeme
  have hstep := h.step_quoted lexeme hmode hdelimiter hscan
  have hinner : rule = .terminator → Lexeme.inner lexeme ≠ id := by
    rintro hrule rfl
    refine hclear ?_
    rw [← hterminator hrule]
    exact List.prefix_append _ _
  cases rule with
  | terminator =>
    simp only [actQuoted, if_neg (hinner rfl)] at hstep
    exact ⟨lexeme, later, _, rfl, hlexeme, hbar, hstep, h.advance lexeme rfl rfl, rfl, rfl⟩
  | newline | plain =>
    exact ⟨lexeme, later, _, rfl, hlexeme, hbar, hstep, h.advance lexeme rfl rfl, rfl, rfl⟩
  | endOfInput => exact absurd rfl hend

/-- A session takes all bytes up to where a terminator can end them: none starts among them, and
what follows them starts with a bar, unless the input ends there. -/
theorem StandsBefore.reads_quoted {text rest : List UInt8}
    (h : s.StandsBefore source (text ++ rest)) (hmode : s.mode = .string o stored)
    (hdelimiter : o.delimiter = some id)
    (hclear : ∀ u v, text = u ++ v → v ≠ [] → ¬ terminatorOf id <+: v ++ rest)
    (hrest : ∀ b ∈ rest.head?, b = '|'.toUInt8) :
    ∃ t : Session, s.Reaches [] t ∧ t.StandsBefore source rest ∧
      t.mode = .string o (text.reverse ++ stored) ∧ t.warnings = s.warnings := by
  -- the session goes from piece to piece, with less text left each time
  induction hlength : text.length using Nat.strongRecOn generalizing s stored text with
  | ind n ih =>
    subst hlength
    by_cases hnil : text = []
    · subst hnil
      exact ⟨s, .here s, h, hmode, rfl⟩
    obtain ⟨lexeme, later, t, hsplit, hlexeme, hbar, hstep, ht, hmode', hwarnings⟩ :=
      h.step_quotedPiece hmode hdelimiter (by simp [hnil]) (hclear [] text rfl hnil)
    obtain ⟨left, rfl, rfl⟩ : ∃ left, text = lexeme ++ left ∧ later = left ++ rest := by
      rcases List.append_eq_append_iff.mp hsplit with ⟨beyond, hlexeme', hbeyond⟩ | hinside
      · -- a piece that goes on behind the text has the bar that starts `rest` in its tail
        cases beyond with
        | nil => exact ⟨[], by rw [hlexeme']; simp, by rw [hbeyond]; rfl⟩
        | cons b beyond =>
          obtain rfl : b = '|'.toUInt8 := hrest b (by rw [hbeyond]; rfl)
          rw [hlexeme', List.tail_append_of_ne_nil hnil] at hbar
          exact absurd (by simp) hbar
      · exact hinside
    have hshorter : left.length < (lexeme ++ left).length := by
      have hpos := List.length_pos_of_ne_nil hlexeme
      rw [List.length_append]
      omega
    obtain ⟨u, hreach, hu, hmode'', hwarnings'⟩ := ih left.length hshorter ht hmode'
      (fun before v hv hne => hclear (lexeme ++ before) v (by rw [hv, List.append_assoc]) hne) rfl
    refine ⟨u, .proceed hstep hreach, hu, ?_, hwarnings'.trans hwarnings⟩
    rw [hmode'', List.reverse_append, List.append_assoc]

/-! ## Ends -/

section Ends

variable {text rest : List UInt8}

/-- A session in a quoted string comes to the first terminator, with the bytes before it as text. -/
theorem StandsBefore.quoted_closes (h : s.StandsBefore source bytes)
    (hmode : s.mode = .string o stored) (hdelimiter : o.delimiter = some id)
    (hid : ∀ b ∈ id, Byte.isLower b = true)
    (hfirst : FirstOccurrence (terminatorOf id) bytes text rest) :
    ∃ t : Session, s.Reaches [] t ∧ t.StandsBefore source (terminatorOf id ++ rest) ∧
      t.warnings = s.warnings ∧
      t.step = (t.moveTo (t.pos.shifted (terminatorOf id).length)).closeString o
        (text.reverse ++ stored) (terminatorOf id) := by
  have hbytes := hfirst.split
  subst hbytes
  obtain ⟨t, hreach, ht, hmode', hwarnings⟩ := h.reads_quoted hmode hdelimiter
    (fun u v htext hv => hfirst.clear htext hv) (by simp [terminatorOf])
  refine ⟨t, hreach, ht, hwarnings, ?_⟩
  rw [ht.step_quoted (terminatorOf id) hmode' hdelimiter (scan_terminatorOf hid rest)]
  simp only [actQuoted, inner_terminatorOf, if_true]

/-- Outside comments that ends the string with its token. -/
theorem StandsBefore.quoted_emits (h : s.StandsBefore source bytes)
    (hmode : s.mode = .string o stored) (hdelimiter : o.delimiter = some id)
    (henclosing : o.enclosing = none) (hid : ∀ b ∈ id, Byte.isLower b = true)
    (hfirst : FirstOccurrence (terminatorOf id) bytes text rest) :
    ∃ t : Session, s.Reaches [⟨.string (stored.reverse ++ text) (some (Latin1.decode id)),
        ⟨o.opener.start, t.pos⟩⟩] t ∧
      t.StandsBefore source rest ∧ t.mode = .code ∧ t.warnings = s.warnings := by
  obtain ⟨t, hreach, ht, hwarnings, hstep⟩ := h.quoted_closes hmode hdelimiter hid hfirst
  have htext : (text.reverse ++ stored).reverse = stored.reverse ++ text := by simp
  simp only [closeString, henclosing, hdelimiter, Option.map_some, htext, endConstruct] at hstep
  exact ⟨{ t.moveTo (t.pos.shifted (terminatorOf id).length) with mode := .code },
    hreach.trans (.emit hstep rfl (.here _)), ht.advance (terminatorOf id) rfl rfl, rfl, hwarnings⟩

/-- In a comment the terminator joins the text behind the string. -/
theorem StandsBefore.quoted_returns {c : OpenComment} (h : s.StandsBefore source bytes)
    (hmode : s.mode = .string o stored) (hdelimiter : o.delimiter = some id)
    (henclosing : o.enclosing = some c) (hid : ∀ b ∈ id, Byte.isLower b = true)
    (hfirst : FirstOccurrence (terminatorOf id) bytes text rest) :
    ∃ t : Session, s.Reaches [] t ∧ t.StandsBefore source rest ∧
      t.mode = .comment c ((text ++ terminatorOf id).reverse ++ stored) ∧
      t.warnings = s.warnings := by
  obtain ⟨t, hreach, ht, hwarnings, hstep⟩ := h.quoted_closes hmode hdelimiter hid hfirst
  have htext : (terminatorOf id).reverse ++ (text.reverse ++ stored) =
      (text ++ terminatorOf id).reverse ++ stored := by simp
  simp only [closeString, henclosing, htext] at hstep
  exact ⟨_, hreach.trans (.proceed hstep (.here _)), ht.advance (terminatorOf id) rfl rfl, rfl,
    hwarnings⟩

/-- Without a terminator it comes to the end of the input and fails there. -/
theorem StandsBefore.quoted_lacksEnd (h : s.StandsBefore source bytes)
    (hmode : s.mode = .string o stored) (hdelimiter : o.delimiter = some id)
    (hnone : ¬ terminatorOf id <:+: bytes) :
    ∃ t u : Session, s.Reaches [] t ∧ t.step = (u, .fail (unterminated o)) ∧
      u.warnings = s.warnings := by
  have hclear : ∀ u v, bytes = u ++ v → v ≠ [] → ¬ terminatorOf id <+: v ++ [] := by
    intro u v hbytes _ hprefix
    rw [List.append_nil] at hprefix
    refine hnone ?_
    rw [hbytes]
    exact hprefix.isInfix.trans (List.suffix_append u v).isInfix
  rw [← List.append_nil bytes] at h
  obtain ⟨t, hreach, ht, hmode', hwarnings⟩ := h.reads_quoted hmode hdelimiter hclear (by simp)
  exact ⟨t, _, hreach, ht.step_quoted [] hmode' hdelimiter rfl, hwarnings⟩

end Ends

/-! ## Starts -/

/-- Where source code meets an opener, the session goes on in the quoted string. -/
theorem StandsBefore.opensQuoted {body : List UInt8}
    (h : s.StandsBefore source (openerOf id ++ body)) (hmode : s.mode = .code)
    (hid : ∀ b ∈ id, Byte.isLower b = true) :
    ∃ t : Session, s.Reaches [] t ∧ t.StandsBefore source body ∧ t.warnings = s.warnings ∧
      t.mode = .string ⟨⟨s.pos, s.pos.shifted (openerOf id).length⟩, some id, none⟩ [] := by
  have hdecided := h.reaches_decided hmode (by decide)
  have hstep := h.decided.step_code (openerOf id) hmode rfl (TokenRule.scan_openerOf hid body)
  simp only [actCode, inner_openerOf] at hstep
  exact ⟨_, hdecided.trans (.proceed hstep (.here _)), h.decided.advance (openerOf id) rfl rfl, rfl,
    rfl⟩

/-- In a comment it does so with the opener in the text of the comment. -/
theorem StandsBefore.opensQuoted_comment {body : List UInt8} {c : OpenComment}
    (h : s.StandsBefore source (openerOf id ++ body)) (hmode : s.mode = .comment c stored)
    (hid : ∀ b ∈ id, Byte.isLower b = true) :
    ∃ t : Session, s.Reaches [] t ∧ t.StandsBefore source body ∧ t.warnings = s.warnings ∧
      t.mode = .string ⟨⟨s.pos, s.pos.shifted (openerOf id).length⟩, some id, some c⟩
        ((openerOf id).reverse ++ stored) := by
  have hstep := h.step_comment (openerOf id) hmode (CommentRule.scan_openerOf hid body)
  simp only [actComment, inner_openerOf] at hstep
  exact ⟨_, .proceed hstep (.here _), h.advance (openerOf id) rfl rfl, rfl, rfl⟩

end Session

/-! ## Quoted strings in a source -/

open Session (terminatorOf)

/-- What lexing makes of a quoted string whose opener source code meets at `t`, after the tokens
`before`, with `body` behind the opener. -/
structure LexesQuoted (source : List UInt8) (config : Config) (before : List Token) (t : Session)
    (id body : List UInt8) : Prop where
  /-- The token has the bytes up to the first terminator, and its span ends with that. -/
  closed : terminatorOf id <:+: body → ∃ (text rest : List UInt8) (u : Session),
    let token : Token := ⟨.string text (some (Latin1.decode id)), ⟨t.pos, u.pos⟩⟩
    FirstOccurrence (terminatorOf id) body text rest ∧
      (Session.ofSource config source).Reaches (before ++ [token]) u ∧
      u.StandsBefore source rest ∧ u.mode = .code ∧ u.warnings = t.warnings ∧
      u.pos.offset = t.pos.offset + (openerOf id ++ text ++ terminatorOf id).length ∧
      before ++ [token] <+: (lex source config).tokens
  /-- Without one the lexing ends with an error at the opener. -/
  missing : ¬ terminatorOf id <:+: body → lex source config = ⟨before, t.warnings.toList,
    some (.unterminatedString ⟨t.pos, t.pos.shifted (openerOf id).length⟩)⟩

/-- What lexing makes of one whose opener the comment `c` meets at `t`; the text of the comment so
far is `stored`, latest byte first. -/
structure HidesQuoted (source : List UInt8) (config : Config) (before : List Token) (t : Session)
    (c : OpenComment) (stored id body : List UInt8) : Prop where
  /-- All bytes from the opener to the first terminator join the text, and the same comments stay
  open. -/
  closed : terminatorOf id <:+: body → ∃ (text rest : List UInt8) (u : Session),
    FirstOccurrence (terminatorOf id) body text rest ∧
      (Session.ofSource config source).Reaches before u ∧ u.StandsBefore source rest ∧
      u.mode = .comment c ((openerOf id ++ text ++ terminatorOf id).reverse ++ stored) ∧
      u.warnings = t.warnings ∧
      u.pos.offset = t.pos.offset + (openerOf id ++ text ++ terminatorOf id).length
  missing : ¬ terminatorOf id <:+: body → lex source config = ⟨before, t.warnings.toList,
    some (.unterminatedStringInComment c.outer ⟨t.pos, t.pos.shifted (openerOf id).length⟩
      c.depth)⟩

/-- Wherever an opener `{id|` is met, the quoted string reaches to the first `|id}` behind it: in
source code its bytes are the text of a string token, in a comment they are text of the comment. -/
theorem quoted_string_ends {source id body : List UInt8} {config : Config} {before : List Token}
    {t : Session} (hreach : (Session.ofSource config source).Reaches before t)
    (hid : ∀ b ∈ id, Byte.isLower b = true)
    (hopener : source.drop t.pos.offset = openerOf id ++ body) :
    (t.mode = .code → LexesQuoted source config before t id body) ∧
      ∀ c stored, t.mode = .comment c stored →
        HidesQuoted source config before t c stored id body := by
  obtain ⟨later, hstands⟩ := hreach.standsBefore (Session.standsBefore_ofSource config source)
  rw [← hstands.drop_eq, hopener] at hstands
  have hoffset : ∀ {text rest : List UInt8} {u : Session},
      FirstOccurrence (terminatorOf id) body text rest → u.StandsBefore source rest →
      u.pos.offset = t.pos.offset + (openerOf id ++ text ++ terminatorOf id).length := by
    intro text rest u hfirst hu
    have hlength := hstands.offset_add
    have hlength' := hu.offset_add
    rw [hfirst.split] at hlength
    simp only [List.length_append] at hlength ⊢
    omega
  have hlex : ∀ {r u : Session} {error : LexError}, t.Reaches [] r → r.step = (u, .fail error) →
      u.warnings = t.warnings → lex source config = ⟨before, t.warnings.toList, some error⟩ := by
    intro r u error hr hstep hwarnings
    have houtput := (hreach.trans hr).output_eq
    rw [Session.output_ofSource, Session.output_of_fail hstep, hwarnings] at houtput
    simpa using houtput
  refine ⟨fun hmode => ?_, fun c stored hmode => ?_⟩
  · obtain ⟨r, hopen, hr, hwarnings, hmode'⟩ := hstands.opensQuoted hmode hid
    refine ⟨fun hsome => ?_, fun hnone => ?_⟩
    · obtain ⟨text, rest, hfirst⟩ := exists_firstOccurrence hsome
      obtain ⟨u, hread, hu, hmode'', hwarnings'⟩ := hr.quoted_emits hmode' rfl rfl hid hfirst
      have hthrough := hreach.trans (hopen.trans hread)
      have houtput := hthrough.output_eq
      rw [Session.output_ofSource] at houtput
      refine ⟨text, rest, u, hfirst, hthrough, hu, hmode'', hwarnings'.trans hwarnings,
        hoffset hfirst hu, ?_⟩
      rw [houtput]
      exact List.prefix_append _ _
    · obtain ⟨q, u, hread, hstep, hwarnings'⟩ := hr.quoted_lacksEnd hmode' rfl hnone
      exact hlex (hopen.trans hread) hstep (hwarnings'.trans hwarnings)
  · obtain ⟨r, hopen, hr, hwarnings, hmode'⟩ := hstands.opensQuoted_comment hmode hid
    refine ⟨fun hsome => ?_, fun hnone => ?_⟩
    · obtain ⟨text, rest, hfirst⟩ := exists_firstOccurrence hsome
      obtain ⟨u, hread, hu, hmode'', hwarnings'⟩ := hr.quoted_returns hmode' rfl rfl hid hfirst
      have hthrough := hreach.trans (hopen.trans hread)
      rw [List.append_nil, List.append_nil] at hthrough
      refine ⟨text, rest, u, hfirst, hthrough, hu, ?_, hwarnings'.trans hwarnings,
        hoffset hfirst hu⟩
      rw [hmode'']
      simp
    · obtain ⟨q, u, hread, hstep, hwarnings'⟩ := hr.quoted_lacksEnd hmode' rfl hnone
      exact hlex (hopen.trans hread) hstep (hwarnings'.trans hwarnings)

/-- In source code: quotes, comment marks and terminators with other delimiters in the text, and a
bar before the terminator. In a comment: its closer in the text. -/
theorem quoted_string_ends_mixed :
    let source := "\x7bid|\"(*\x7ba|a\x7d|ib\x7d\n||id\x7dx".toList.map Char.toUInt8
    let id := "id".toList.map Char.toUInt8
    let s := Session.ofSource {} source
    let commented := "(*\x7b|*)|b\x7d|\x7d*)".toList.map Char.toUInt8
    let r := Session.ofSource {} commented
    let c : OpenComment := { outer := ⟨r.pos, r.pos.shifted 2⟩ }
    let t : Session :=
      { r with pos := r.pos.shifted 2, headerPending := false, mode := .comment c [] }
    terminatorOf id <:+: source.drop 4 ∧ LexesQuoted source {} [] s id (source.drop 4) ∧
      r.Reaches [] t ∧ terminatorOf [] <:+: commented.drop 4 ∧
      HidesQuoted commented {} [] t c [] [] (commented.drop 4) := by
  intro source id s commented r c t
  have hid : ∀ b ∈ id, Byte.isLower b = true := by decide +kernel
  have hstands : r.StandsBefore commented (['('.toUInt8, '*'.toUInt8] ++ commented.drop 2) :=
    Session.standsBefore_ofSource {} commented
  have hreach : r.Reaches [] t :=
    hstands.reaches_proceed _ rfl (HeaderRule.scan_absent _) (TokenRule.scan_commentOpen _) rfl
  have hopener : source.drop s.pos.offset = openerOf id ++ source.drop 4 := rfl
  have hopener' : commented.drop t.pos.offset = openerOf [] ++ commented.drop 4 := rfl
  obtain ⟨hcode, -⟩ := quoted_string_ends (.here s) hid hopener
  obtain ⟨-, hcomment⟩ := quoted_string_ends hreach (by simp) hopener'
  exact ⟨by decide +kernel, hcode rfl, hreach, by decide +kernel, hcomment c [] rfl⟩

end StreamLexer
