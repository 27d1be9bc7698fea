import StreamLexer.Diagnostic.Basic
import StreamLexer.Proofs.Scan.WordBytes
import StreamLexer.Proofs.Span.Gap

/-!
# What diagnostics point at

A warning or an error points at bytes of the source. Which bytes these may be follows from what it
says and is told as a language: `WarningKind.cause`, `LexError.cause`. `Marked` says that spans lie
in a source one behind the other and cover words of their languages.

The other half of the module is about lexemes: those that a diagnostic is raised at, or that open
what may lack its end, are words of the languages that the diagnostic calls for.
-/
namespace StreamLexer

open scoped Computability

/-! ## Causes -/

namespace Grammar

/-- `(*` or `(*)` -/
def commentOpen : Language UInt8 :=
  text ['(', '*'] + text ['(', '*', ')']

/-- `"` or `{id|` -/
def stringOpen : Language UInt8 :=
  text ['"'] + char '\x7b' * (byteIn Byte.isLower)∗ * char '|'

/-- `\ddd` -/
def decimalEscape : Language UInt8 :=
  char '\\' * byteIn Byte.isDecimal * byteIn Byte.isDecimal * byteIn Byte.isDecimal

/-- A backslash and any byte. -/
def unknownEscape : Language UInt8 :=
  char '\\' * byteIn fun _ => true

/-- The words that read as the text. -/
def spelled (name : String) : Language UInt8 :=
  {w : List UInt8 | Latin1.decode w = name}

/-- `'\ddd'`, `'\c` or `\ddd`, with the text somewhere in it. -/
def illegalEscape (escape : String) : Language UInt8 :=
  {w : List UInt8 | w ∈ inQuotes decimalEscape + char '\'' * unknownEscape + decimalEscape ∧
    ∃ part ∈ spelled escape, part <:+: w}

/-- `~name:` or `?name:` -/
def labelOf (name : String) : Language UInt8 :=
  anyOf ['~', '?'] * spelled name * char ':'

/-- An integer literal with the suffix of its type. -/
def integerOf (type : IntType) : Language UInt8 :=
  integer * text type.suffix?.toList

end Grammar

open Grammar

/-- The bytes that a warning may point at. -/
def WarningKind.cause : WarningKind → Language UInt8
  | .commentStart => text ['(', '*', ')']
  | .commentNotEnd => text ['*', ')']
  | .illegalBackslash => unknownEscape
  | .eolInString => lineEnd

/-- The bytes that an error may point at. Of a string and a quotation without an end, which are the
same fault, it is the opener. -/
def LexError.cause (e : LexError) : Language UInt8 :=
  match e.fault with
  | .illegalCharacter byte => {[byte]}
  | .illegalEscape escape => Grammar.illegalEscape escape
  | .unterminatedComment | .unterminatedStringInComment _ => commentOpen
  | .unterminatedString => if e.context = .insideQuotation then quotationOpen else stringOpen
  | .keywordAsLabel name => labelOf name
  | .literalOverflow type => integerOf type

/-! ## Marks -/

/-- A span with what its bytes are to be. -/
structure Mark where
  span : Span
  lang : Language UInt8

/-- The span is a range of the source, not an empty one, and its bytes are a word of the
language. -/
structure Mark.Covers (mark : Mark) (source : List UInt8) : Prop where
  nonempty : mark.span.start.offset < mark.span.stop.offset
  within : mark.span.stop.offset ≤ source.length
  bytes : between source mark.span.start.offset mark.span.stop.offset ∈ mark.lang

/-- The marks lie in the source, each of them behind those before it. -/
structure Marked (source : List UInt8) (marks : List Mark) : Prop where
  covers : ∀ mark ∈ marks, mark.Covers source
  ordered : marks.Pairwise fun first second =>
    first.span.stop.offset ≤ second.span.start.offset

/-- They do, and end by the offset. -/
structure MarkedTo (source : List UInt8) (marks : List Mark) (offset : Nat) : Prop extends
    Marked source marks where
  ended : ∀ mark ∈ marks, mark.span.stop.offset ≤ offset

def Warning.mark (w : Warning) : Mark :=
  ⟨w.span, w.kind.cause⟩

/-- What an error points at: its cause, and the string inside a comment that it may name besides. -/
def LexError.marks (e : LexError) : List Mark :=
  ⟨e.span, e.cause⟩ ::
    match e.fault with
    | .unterminatedStringInComment stringStart => [⟨stringStart, stringOpen⟩]
    | _ => []

namespace MarkedTo

variable {source : List UInt8} {marks : List Mark} {offset : Nat}

theorem nil (source : List UInt8) (offset : Nat) : MarkedTo source [] offset :=
  ⟨⟨by simp, .nil⟩, by simp⟩

theorem mono (h : MarkedTo source marks offset) {later : Nat} (hle : offset ≤ later) :
    MarkedTo source marks later :=
  ⟨h.toMarked, fun mark hmark => Nat.le_trans (h.ended mark hmark) hle⟩

theorem sublist (h : MarkedTo source marks offset) {some : List Mark} (hsome : some.Sublist marks) :
    MarkedTo source some offset :=
  ⟨⟨fun mark hmark => h.covers mark (hsome.subset hmark), h.ordered.sublist hsome⟩,
    fun mark hmark => h.ended mark (hsome.subset hmark)⟩

/-- One more mark behind the others. -/
theorem concat (h : MarkedTo source marks offset) {mark : Mark} (hmark : mark.Covers source)
    (hle : offset ≤ mark.span.start.offset) :
    MarkedTo source (marks ++ [mark]) mark.span.stop.offset := by
  have hbefore : ∀ other ∈ marks, other.span.stop.offset ≤ mark.span.start.offset :=
    fun other hother => Nat.le_trans (h.ended other hother) hle
  refine ⟨⟨?_, ?_⟩, ?_⟩
  · intro other hother
    rcases List.mem_append.mp hother with hother | hother
    · exact h.covers other hother
    · rw [List.mem_singleton.mp hother]
      exact hmark
  · rw [List.pairwise_append]
    refine ⟨h.ordered, List.pairwise_singleton _ _, ?_⟩
    intro other hother last hlast
    rw [List.mem_singleton.mp hlast]
    exact hbefore other hother
  · intro other hother
    rcases List.mem_append.mp hother with hother | hother
    · exact Nat.le_trans (hbefore other hother) (Nat.le_of_lt hmark.nonempty)
    · rw [List.mem_singleton.mp hother]

theorem single {mark : Mark} (hmark : mark.Covers source) :
    MarkedTo source [mark] mark.span.stop.offset :=
  (nil source _).concat hmark (Nat.le_refl _)

end MarkedTo

/-- A lexeme that starts at a position, marked from there up to its end. -/
theorem Mark.covers_lexeme {source lexeme later : List UInt8} {start stop : Position}
    {lang : Language UInt8} (hdrop : source.drop start.offset = lexeme ++ later)
    (hne : lexeme ≠ []) (hstop : stop.offset = start.offset + lexeme.length)
    (hmem : lexeme ∈ lang) : Mark.Covers ⟨⟨start, stop⟩, lang⟩ source := by
  have hlength := congrArg List.length hdrop
  rw [List.length_drop, List.length_append] at hlength
  have hpos := List.length_pos_iff.mpr hne
  refine ⟨?_, ?_, ?_⟩
  · show start.offset < stop.offset
    omega
  · show stop.offset ≤ source.length
    omega
  · show between source start.offset stop.offset ∈ lang
    rw [hstop, between_of_drop hdrop]
    exact hmem

/-! ## Lexemes of source code -/

section Lexemes

variable {lexeme : List UInt8}

/-- What the rule opens. -/
def TokenRule.opener? : TokenRule → Option (Language UInt8)
  | .stringOpen | .quotedOpen => some Grammar.stringOpen
  | .commentOpen | .commentOpenAmbiguous => some Grammar.commentOpen
  | .quotationOpen => some Grammar.quotationOpen
  | _ => none

theorem TokenRule.mem_opener {rule : TokenRule} {lang : Language UInt8}
    (hrule : rule.opener? = some lang) (h : firstAccepting? rows lexeme = some rule) :
    lexeme ∈ lang := by
  cases rule with
  | stringOpen =>
    cases hrule
    exact .inl (mem_of_first [Pattern.literal ['"']] rfl (by simp) h)
  | quotedOpen =>
    cases hrule
    refine .inr (mem_of_first [Pattern.quotedOpen] rfl ?_ h)
    simp [Pattern.quotedOpen, mul_assoc]
  | commentOpen =>
    cases hrule
    exact .inl (mem_of_first [Pattern.literal ['(', '*']] rfl (by simp) h)
  | commentOpenAmbiguous =>
    cases hrule
    exact .inr (mem_of_first [Pattern.literal ['(', '*', ')']] rfl (by simp) h)
  | quotationOpen =>
    cases hrule
    exact mem_of_first Pattern.quotationOpens rfl sum_quotationOpens h
  | _ => cases hrule

/-- What the rule warns of. -/
def TokenRule.warning? : TokenRule → Option WarningKind
  | .commentOpenAmbiguous => some .commentStart
  | .strayClose => some .commentNotEnd
  | _ => none

theorem TokenRule.mem_warning {rule : TokenRule} {kind : WarningKind}
    (hrule : rule.warning? = some kind) (h : firstAccepting? rows lexeme = some rule) :
    lexeme ∈ kind.cause := by
  cases rule with
  | commentOpenAmbiguous =>
    cases hrule
    exact mem_of_first [Pattern.literal ['(', '*', ')']] rfl (by simp [WarningKind.cause]) h
  | strayClose =>
    cases hrule
    exact mem_of_first [Pattern.literal ['*', ')']] rfl (by simp [WarningKind.cause]) h
  | _ => cases hrule

theorem mem_integerOf {type : IntType}
    (h : firstAccepting? TokenRule.rows lexeme = some (.word (.integer type))) :
    lexeme ∈ integerOf type := by
  have hpatterns : patternsOf TokenRule.rows (.word (.integer type)) =
      Pattern.integers.map (· ++ Pattern.literal type.suffix?.toList) := by
    cases type <;> rfl
  refine mem_of_first _ hpatterns ?_ h
  rw [integerOf, ← sum_integers, List.map_map, ← List.sum_map_mul_right]
  simp [Function.comp_def]

/-- The mark, the name and the colon of a label. -/
theorem mem_labelOf {mark : Char} (hmark : mark ∈ ['~', '?'])
    (h : Pattern.Accepts [.char mark, .one Byte.isLower, .many Byte.isIdent, .char ':'] lexeme) :
    lexeme ∈ labelOf (Latin1.decode (Lexeme.inner lexeme)) := by
  rw [labelOf, mul_assoc]
  refine ⟨[mark.toUInt8], ⟨_, ?_, rfl⟩, _, ⟨Lexeme.inner lexeme, rfl, [':'.toUInt8], ?_, rfl⟩, ?_⟩
  · rw [Byte.isAny, List.any_eq_true]
    exact ⟨mark, hmark, beq_self_eq_true _⟩
  · exact ⟨_, beq_self_eq_true _, rfl⟩
  · exact (Pattern.eq_label h).symm

theorem inner_infix_lexeme (lexeme : List UInt8) : Lexeme.inner lexeme <:+: lexeme := by
  have hinner : Lexeme.inner lexeme <+: lexeme.drop 1 := List.dropLast_prefix _
  exact hinner.isInfix.trans (List.drop_suffix 1 lexeme).isInfix

/-- An illegal escape, of which an error shows a part. -/
theorem mem_illegalEscape {part : List UInt8} (hpart : part <:+: lexeme)
    (h : lexeme ∈ inQuotes decimalEscape + char '\'' * unknownEscape + decimalEscape) :
    lexeme ∈ Grammar.illegalEscape (Latin1.decode part) :=
  ⟨h, part, rfl, hpart⟩

/-- A lexeme that makes no token is a word of what its error calls for. -/
theorem WordRule.mem_cause {keywords : KeywordTable} {rule : WordRule} {fault : WordFault}
    (hfirst : firstAccepting? TokenRule.rows lexeme = some (.word rule))
    (hread : rule.read keywords lexeme = .error fault) (span : Span) :
    lexeme ∈ (fault.toError span).cause := by
  cases rule with
  | label =>
    obtain ⟨p, hp, haccepts⟩ := exists_patternsOf hfirst
    obtain rfl : p = [.char '~', .one Byte.isLower, .many Byte.isIdent, .char ':'] :=
      List.mem_singleton.mp hp
    simp only [read, readLabel] at hread
    split at hread
    · cases hread
      exact mem_labelOf (by simp) haccepts
    · cases hread
  | optLabel =>
    obtain ⟨p, hp, haccepts⟩ := exists_patternsOf hfirst
    obtain rfl : p = [.char '?', .one Byte.isLower, .many Byte.isIdent, .char ':'] :=
      List.mem_singleton.mp hp
    simp only [read, readLabel] at hread
    split at hread
    · cases hread
      exact mem_labelOf (by simp) haccepts
    · cases hread
  | integer type =>
    simp only [read] at hread
    split at hread
    · cases hread
    · cases hread
      exact mem_integerOf hfirst
  | charDecimal =>
    simp only [read] at hread
    split at hread
    · cases hread
    · cases hread
      refine mem_illegalEscape (inner_infix_lexeme lexeme) (.inl (.inl ?_))
      refine mem_of_first [Pattern.inQuotes Pattern.decimalEscape] rfl ?_ hfirst
      simp [Pattern.inQuotes, Pattern.decimalEscape, inQuotes, decimalEscape, mul_assoc]
  | charIllegal =>
    cases hread
    refine mem_illegalEscape (List.drop_suffix 1 lexeme).isInfix (.inl (.inr ?_))
    refine mem_of_first [[.char '\'', .char '\\', .one fun _ => true]] rfl ?_ hfirst
    simp [unknownEscape]
  | illegalByte =>
    cases hread
    have hbyte : lexeme ∈ byteIn fun _ => true :=
      mem_of_first [[.one fun _ => true]] rfl (by simp) hfirst
    obtain ⟨b, -, rfl⟩ := hbyte
    exact rfl
  | _ => cases hread

/-- Only an integer overflows, and the error says of which type it is. -/
theorem WordRule.eq_integer_of_overflow {keywords : KeywordTable} {rule : WordRule}
    {fault : WordFault} {span : Span} {type : IntType}
    (hread : rule.read keywords lexeme = .error fault)
    (hfault : (fault.toError span).fault = .literalOverflow type) : rule = .integer type := by
  cases fault with
  | literalOverflow overflown =>
    obtain rfl : overflown = type := by injection hfault
    cases rule with
    | label | optLabel =>
      simp only [read, readLabel] at hread
      split at hread <;> cases hread
    | integer written =>
      simp only [read] at hread
      split at hread <;> cases hread
      rfl
    | charDecimal =>
      simp only [read] at hread
      split at hread <;> cases hread
    | _ => cases hread
  | _ => cases hfault

end Lexemes

/-! ## Lexemes of bodies -/

section Bodies

variable {lexeme : List UInt8}

theorem CommentRule.mem_stringOpen {rule : CommentRule}
    (hrule : rule = .stringOpen ∨ rule = .quotedOpen)
    (h : firstAccepting? CommentRule.rows lexeme = some rule) : lexeme ∈ Grammar.stringOpen := by
  rcases hrule with rfl | rfl
  · exact .inl (mem_of_first [Pattern.literal ['"']] rfl (by simp) h)
  · exact .inr (mem_of_first [Pattern.quotedOpen] rfl (by simp [Pattern.quotedOpen, mul_assoc]) h)

theorem StringRule.mem_decimalEscape
    (h : firstAccepting? StringRule.rows lexeme = some .decimalEscape) :
    lexeme ∈ Grammar.decimalEscape := by
  refine mem_of_first [Pattern.decimalEscape] rfl ?_ h
  simp [Pattern.decimalEscape, Grammar.decimalEscape, mul_assoc]

/-- What the rule warns of, outside comments. -/
def StringRule.warning? : StringRule → Option WarningKind
  | .unknownEscape => some .illegalBackslash
  | .newline => some .eolInString
  | _ => none

theorem StringRule.mem_warning {rule : StringRule} {kind : WarningKind}
    (hrule : rule.warning? = some kind) (h : firstAccepting? rows lexeme = some rule) :
    lexeme ∈ kind.cause := by
  cases rule with
  | unknownEscape =>
    cases hrule
    refine mem_of_first [[.char '\\', .one fun _ => true]] rfl ?_ h
    simp [WarningKind.cause, Grammar.unknownEscape]
  | newline =>
    cases hrule
    refine mem_of_first [Pattern.lineEnd] rfl ?_ h
    simp [WarningKind.cause, Pattern.language_lineEnd]
  | _ => cases hrule

end Bodies

/-! ## First bytes -/

section Heads

variable {w : List UInt8}

theorem head_of_mem_char {c : Char} {lang : Language UInt8} (h : w ∈ char c * lang) :
    w.head? = some c.toUInt8 := by
  obtain ⟨_, ⟨b, hb, rfl⟩, v, -, rfl⟩ := h
  rw [eq_of_beq hb]
  rfl

theorem head_of_mem_text {c : Char} {cs : List Char} (h : w ∈ text (c :: cs)) :
    w.head? = some c.toUInt8 := by
  obtain rfl : w = (c :: cs).map Char.toUInt8 := h
  rfl

/-- No opener of a quotation opens a string. -/
theorem not_mem_quotationOpen (h : w ∈ Grammar.stringOpen) : w ∉ quotationOpen := by
  intro hquotation
  have hless : w.head? = some '<'.toUInt8 := by
    simp only [quotationOpen, mul_assoc] at hquotation
    rcases hquotation with (hopen | hopen) | hopen
    · exact head_of_mem_char hopen
    · exact head_of_mem_char hopen
    · exact head_of_mem_char hopen
  simp only [Grammar.stringOpen, mul_assoc] at h
  rcases h with hopen | hopen
  · rw [head_of_mem_text hopen] at hless
    exact absurd hless (by decide)
  · rw [head_of_mem_char hopen] at hless
    exact absurd hless (by decide)

/-- The `)` of a stray closer, which is taken again, starts nothing that calls for a warning. -/
theorem WarningKind.head_ne {kind : WarningKind} (h : w ∈ kind.cause) :
    w.head? ≠ some ')'.toUInt8 := by
  cases kind with
  | commentStart | commentNotEnd =>
    rw [head_of_mem_text h]
    decide
  | illegalBackslash =>
    rw [head_of_mem_char h]
    decide
  | eolInString =>
    obtain ⟨u, hu, v, ⟨b, hb, rfl⟩, rfl⟩ := h
    have hreturns := (Pattern.mem_byteIn_kstar _ _).mp hu
    cases u with
    | nil =>
      rw [eq_of_beq hb]
      decide
    | cons c u =>
      rw [eq_of_beq (hreturns c List.mem_cons_self)]
      show some '\r'.toUInt8 ≠ some ')'.toUInt8
      decide

end Heads

/-! ## Errors -/

/-- What an error points at in a source. -/
structure LexError.IsCaused (e : LexError) (source : List UInt8) : Prop where
  marked : Marked source e.marks
  /-- A string and a quotation without an end are the same fault; the context tells them apart. -/
  quotation : e.fault = .unterminatedString →
    (between source e.span.start.offset e.span.stop.offset ∈ quotationOpen ↔
      e.context = .insideQuotation)
  /-- An integer that overflows is pointed at as a whole. -/
  whole : ∀ type, e.fault = .literalOverflow type →
    LongestMatch sourceTable (source.drop e.span.start.offset) (.word (.integer type))
      (e.span.stop.offset - e.span.start.offset)

theorem LexError.isCaused_of_marked {e : LexError} {source : List UInt8}
    (h : Marked source e.marks)
    (hwhole : ∀ type, e.fault = .literalOverflow type →
      LongestMatch sourceTable (source.drop e.span.start.offset) (.word (.integer type))
        (e.span.stop.offset - e.span.start.offset)) : e.IsCaused source := by
  refine ⟨h, ?_, hwhole⟩
  intro hfault
  have hbytes := (h.covers _ List.mem_cons_self).bytes
  simp only [cause, hfault] at hbytes
  split at hbytes
  · rename_i hcontext
    exact iff_of_true hbytes hcontext
  · rename_i hcontext
    exact iff_of_false (not_mem_quotationOpen hbytes) hcontext

end StreamLexer
