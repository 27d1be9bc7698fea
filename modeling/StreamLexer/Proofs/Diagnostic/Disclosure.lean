import StreamLexer.Diagnostic.Report
import StreamLexer.Proofs.Position.Accuracy

/-!
# What reports say of line directives

Line directives give lines another number and another file. A diagnostic behind them is *relocated*
if its position names another file than the source shown or another line than counting the newlines
gives. A report may carry a note on that.

The main statement is `reports_disclose_files`: the note is there exactly where the last directive
that names a file names another one. It is right wherever it stands; but a diagnostic whose line
alone has another number goes without it, as `renumbered_line_missed` shows.
-/
namespace StreamLexer

/-- The number of the line of an offset, whatever line directives say. -/
def physicalLine (source : List UInt8) (offset : Nat) : Nat :=
  1 + (between source 0 offset).count newline

/-- The position names another file, or gives the line another number. -/
def Relocated (source : List UInt8) (name : String) (p : Position) : Prop :=
  p.file ≠ name ∨ p.line ≠ physicalLine source p.offset

/-- The note that says what a span is called by its own positions. -/
def relocationNote (span : Span) : String :=
  s!"reported as {span.display}"

namespace SourceText

theorem id_ofBytes (id : String) (bytes : List UInt8) : (ofBytes id bytes).id = id := by
  unfold ofBytes
  split <;> rfl

/-! ## Notes -/

theorem logicalNote?_eq_some_iff (t : SourceText) (span : Span) :
    t.logicalNote? span = some (relocationNote span) ↔ span.start.file ≠ t.id := by
  by_cases hfile : span.start.file = t.id
  · simp [logicalNote?, hfile]
  · simp [logicalNote?, hfile, relocationNote]

/-- Words on a context start otherwise than the note on a position. -/
theorem contextNote?_ne (context : FaultContext) (span : Span) :
    contextNote? context ≠ some (relocationNote span) := by
  have hnote : (relocationNote span).toList.head? = some 'r' := by
    show ("reported as " ++ span.display).toList.head? = some 'r'
    simp [String.toList_append]
  have hcontext : ∀ words, contextNote? context = some words → words.toList.head? = some 'i' := by
    intro words h
    unfold contextNote? at h
    split at h
    · cases h
    · cases h
    · cases h
      rfl
    · rename_i depth _
      cases h
      show ("inside " ++ toString depth ++ " nested comments").toList.head? = some 'i'
      simp [String.toList_append]
    · cases h
      rfl
    · cases h
      rfl
    · cases h
      rfl
  intro h
  rw [hcontext _ h] at hnote
  cases hnote

theorem warningReport_noted_iff (t : SourceText) (w : Warning) :
    (t.warningReport w).note = some (relocationNote w.span) ↔ w.span.start.file ≠ t.id :=
  t.logicalNote?_eq_some_iff w.span

/-- The note on the position comes before the words on the context. -/
theorem errorReport_noted_iff (t : SourceText) (e : LexError) :
    (t.errorReport e).note = some (relocationNote e.span) ↔ e.span.start.file ≠ t.id := by
  rw [← t.logicalNote?_eq_some_iff e.span]
  show (t.logicalNote? e.span).or (contextNote? e.context) = _ ↔ _
  cases hnote : t.logicalNote? e.span with
  | none => simpa using contextNote?_ne e.context e.span
  | some note => rfl

end SourceText

/-! ## Lines -/

section Lines

variable {source : List UInt8} {directives : List Directive} {offset : Nat}

/-- If every directive gives the next line the number that it has, lines keep their numbers, until
there are no more. -/
theorem lineAt_eq (h : ∀ d ∈ endedBy directives offset, d.line = physicalLine source d.stop) :
    lineAt source directives offset = min Position.maxLine (physicalLine source offset) := by
  rw [lineAt]
  cases hlast : (endedBy directives offset).getLast? with
  | none => rfl
  | some d =>
    have hmem := List.mem_of_getLast? hlast
    have hstop : d.stop ≤ offset := by
      rw [endedBy, List.mem_filter, decide_eq_true_eq] at hmem
      exact hmem.2
    simp only [h d hmem, physicalLine]
    rw [between_append source (Nat.zero_le d.stop) hstop, List.count_append, Nat.add_assoc]

end Lines

/-! ## Reports -/

/-- What a report on a span says of the directives before it. -/
structure DisclosesFile (source : List UInt8) (name : String) (directives : List Directive)
    (span : Span) (r : Report) : Prop where
  /-- The note is there exactly where the last directive that names a file names another one. -/
  noted_iff : r.note = some (relocationNote span) ↔ fileAt name directives span.start.offset ≠ name
  /-- It is there only where it should be. -/
  relocated : r.note = some (relocationNote span) → Relocated source name span.start
  /-- What should have it and has not is in a line with another number, in the file shown. -/
  missed_iff : Relocated source name span.start ∧ r.note ≠ some (relocationNote span) ↔
    fileAt name directives span.start.offset = name ∧
      lineAt source directives span.start.offset ≠ physicalLine source span.start.offset
  /-- That takes a directive with another number than that of the next line, or more lines than have
  numbers. -/
  renumbered : Relocated source name span.start ∧ r.note ≠ some (relocationNote span) →
    (∃ d ∈ endedBy directives span.start.offset, d.line ≠ physicalLine source d.stop) ∨
      Position.maxLine < physicalLine source span.start.offset

theorem disclosesFile_of_isAt {source : List UInt8} {name : String} {directives : List Directive}
    {span : Span} {r : Report} (h : IsAt source name directives span.start)
    (hnoted : r.note = some (relocationNote span) ↔ span.start.file ≠ name) :
    DisclosesFile source name directives span r := by
  have hmissed : Relocated source name span.start ∧ r.note ≠ some (relocationNote span) ↔
      fileAt name directives span.start.offset = name ∧
        lineAt source directives span.start.offset ≠ physicalLine source span.start.offset := by
    rw [← h.file, ← h.line, ne_eq, hnoted, not_not, Relocated]
    constructor
    · rintro ⟨hfile | hline, hsame⟩
      · exact absurd hsame hfile
      · exact ⟨hsame, hline⟩
    · rintro ⟨hsame, hline⟩
      exact ⟨.inr hline, hsame⟩
  refine ⟨?_, ?_, hmissed, ?_⟩
  · rw [hnoted, h.file]
  · intro hnote
    exact .inl (hnoted.mp hnote)
  · intro hmiss
    by_contra hnone
    push Not at hnone
    obtain ⟨hdirectives, hlines⟩ := hnone
    refine (hmissed.mp hmiss).2 ?_
    rw [lineAt_eq hdirectives, Nat.min_eq_right hlines]

/-- All reports on what lexing gives do so. -/
structure FilesDisclosed (source : List UInt8) (name : String) (directives : List Directive)
    (t : SourceText) (o : LexOutput) : Prop where
  warnings : ∀ w ∈ o.warnings, DisclosesFile source name directives w.span (t.warningReport w)
  error : ∀ e, o.error = some e → DisclosesFile source name directives e.span (t.errorReport e)

/-- A report on what lexing a source gives has a note on its position exactly where a line directive
has named another file, and without it only what has another line number is missed. -/
theorem reports_disclose_files (source : List UInt8) (config : Config) :
    FilesDisclosed source config.fileName (Session.ofSource config source).directives
      (.ofBytes config.fileName source) (lex source config) := by
  have htrue := positions_true source config
  have hid := SourceText.id_ofBytes config.fileName source
  constructor
  · intro w hw
    apply disclosesFile_of_isAt (htrue.warnings w hw)
    rw [SourceText.warningReport_noted_iff, hid]
  · intro e he
    apply disclosesFile_of_isAt (htrue.error e he)
    rw [SourceText.errorReport_noted_iff, hid]

/-- A directive without a file name gives the next line the number ten. The illegal byte in it is
reported without a note. -/
theorem renumbered_line_missed :
    let source := "# 10\n\x01".toList.map Char.toUInt8
    let e := LexError.illegalCharacter ⟨⟨"a.ml", 10, 5, 5⟩, ⟨"a.ml", 10, 5, 6⟩⟩ 1
    (lex source { fileName := "a.ml" }).error = some e ∧ Relocated source "a.ml" e.span.start ∧
      ((SourceText.ofBytes "a.ml" source).errorReport e).note ≠ some (relocationNote e.span) := by
  intro source e
  refine ⟨by decide +kernel, .inr (by decide +kernel), ?_⟩
  rw [ne_eq, SourceText.errorReport_noted_iff, SourceText.id_ofBytes]
  exact fun hfile => hfile rfl

end StreamLexer
