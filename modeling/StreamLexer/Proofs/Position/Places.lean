import StreamLexer.Proofs.Span.TokenStart

/-!
# Places that are remembered

A session keeps positions for later: where its open constructs start, and where its warnings are.
Every one of them is a place where the session has stood. A step remembers no place but the one
where the session stands, and reports an error at no other: `stepOn_remembers`.
-/
namespace StreamLexer

/-- Where the constructs were opened that an error or a token may point at. -/
def Mode.openings : Mode → List Position
  | .code => []
  | .comment c _ => [c.outer.start]
  | .string o _ => o.opener.start :: (o.enclosing.map (·.outer.start)).toList
  | .quotation q => [q.outer.start]

/-- Where the error is, and where the string starts that it may point at besides. -/
def LexError.places (e : LexError) : List Position :=
  match e.fault with
  | .unterminatedStringInComment stringStart => [e.span.start, stringStart.start]
  | _ => [e.span.start]

namespace Session

/-- The session stands there, or has stood there and remembers it. -/
def Knows (s : Session) (p : Position) : Prop :=
  p = s.pos ∨ p ∈ s.mode.openings ∨ ∃ w ∈ s.warnings, p = w.span.start

/-- What an action remembers and reports is known to the session before it. -/
structure Remembers (s : Session) (r : Session × Step) : Prop where
  opened : ∀ p ∈ r.1.mode.openings, s.Knows p
  warned : ∀ w ∈ r.1.warnings, s.Knows w.span.start
  failed : ∀ e, r.2 = .fail e → ∀ p ∈ e.places, s.Knows p

theorem knows_pos (s : Session) : s.Knows s.pos :=
  .inl rfl

theorem knows_opening {s : Session} {p : Position} (h : p ∈ s.mode.openings) : s.Knows p :=
  .inr (.inl h)

theorem knows_openings {s : Session} {mode : Mode} (hmode : s.mode = mode) :
    ∀ p ∈ mode.openings, s.Knows p := by
  rw [← hmode]
  intro p hp
  exact knows_opening hp

theorem knows_warning (s : Session) {w : Warning} (h : w ∈ s.warnings) :
    s.Knows w.span.start :=
  .inr (.inr ⟨w, h, rfl⟩)

/-- The start of the token that a session is in is known to it. -/
theorem knows_tokenStart (s : Session) : s.Knows s.tokenStart := by
  cases hmode : s.mode with
  | code =>
    rw [tokenStart_of_code hmode]
    exact s.knows_pos
  | comment c text =>
    have hstart : s.tokenStart = c.outer.start := tokenStart_of_opened (by rw [hmode]; rfl)
    apply knows_opening
    rw [hmode, hstart]
    exact List.mem_singleton_self _
  | string o text =>
    have hstart : s.tokenStart = o.start := tokenStart_of_opened (by rw [hmode]; rfl)
    apply knows_opening
    rw [hmode, hstart, OpenString.start]
    cases henclosing : o.enclosing <;> simp [Mode.openings, henclosing]
  | quotation q =>
    have hstart : s.tokenStart = q.outer.start := tokenStart_of_opened (by rw [hmode]; rfl)
    apply knows_opening
    rw [hmode, hstart]
    exact List.mem_singleton_self _

/-! ## Outcomes -/

/-- The session is in the mode of another one, and has recorded only warnings that the other one
knows of. -/
structure Follows (r s : Session) : Prop where
  mode_eq : r.mode = s.mode
  warned : ∀ w ∈ r.warnings, s.Knows w.span.start

section Outcomes

variable {s r : Session}

theorem follows_moveTo (s : Session) (pos : Position) : (s.moveTo pos).Follows s := by
  refine ⟨rfl, ?_⟩
  intro w hw
  exact s.knows_warning hw

theorem Follows.moveTo (h : r.Follows s) (pos : Position) : (r.moveTo pos).Follows s :=
  ⟨h.mode_eq, h.warned⟩

theorem Follows.warn (h : r.Follows s) (kind : WarningKind) (stop : Position) :
    (r.warn kind ⟨s.pos, stop⟩).Follows s := by
  refine ⟨h.mode_eq, ?_⟩
  intro w hw
  rcases Array.mem_push.mp hw with hw | rfl
  · exact h.warned w hw
  · exact s.knows_pos

theorem Follows.goOn (h : r.Follows s) {mode : Mode} (hmode : ∀ p ∈ mode.openings, s.Knows p) :
    s.Remembers (r.goOn mode) := by
  refine ⟨hmode, h.warned, ?_⟩
  intro e he
  cases he

theorem Follows.endConstruct (h : r.Follows s) (kind : TokenKind) (start : Position) :
    s.Remembers (r.endConstruct kind start) := by
  refine ⟨?_, h.warned, ?_⟩
  · intro p hp
    cases hp
  · intro e he
    cases he

theorem Follows.opened (h : r.Follows s) : ∀ p ∈ r.mode.openings, s.Knows p :=
  knows_openings h.mode_eq.symm

theorem Follows.proceed (h : r.Follows s) : s.Remembers (r, .proceed) := by
  refine ⟨h.opened, h.warned, ?_⟩
  intro e he
  cases he

theorem Follows.emit (h : r.Follows s) (token : Token) : s.Remembers (r, .emit token) := by
  refine ⟨h.opened, h.warned, ?_⟩
  intro e he
  cases he

theorem Follows.fail (h : r.Follows s) {error : LexError} (herror : ∀ p ∈ error.places, s.Knows p) :
    s.Remembers (r, .fail error) := by
  refine ⟨h.opened, h.warned, ?_⟩
  intro e he
  cases he
  exact herror

end Outcomes

/-! ## Actions -/

section Actions

variable {s : Session}

theorem actHeader_remembers (rule : HeaderRule) (n : Nat) : s.Remembers (s.actHeader rule n) := by
  have hdecided : Follows { s with headerPending := false } s :=
    ⟨rfl, fun _ hw => s.knows_warning hw⟩
  cases rule with
  | absent => exact hdecided.proceed
  | oneLine | threeLines => exact (hdecided.moveTo _).proceed

theorem actCode_remembers (rule : TokenRule) (lexeme : List UInt8) :
    s.Remembers (s.actCode rule lexeme) := by
  have hmoved : ∀ pos, (s.moveTo pos).Follows s := follows_moveTo s
  have hhere : ∀ p ∈ [s.pos], s.Knows p := by
    intro p hp
    rw [List.mem_singleton.mp hp]
    exact s.knows_pos
  cases rule with
  | blank | newline | lineDirective => exact (hmoved _).proceed
  | stringOpen | quotedOpen | commentOpen | quotationOpen => exact (hmoved _).goOn hhere
  | commentOpenAmbiguous => exact ((hmoved _).warn _ _).goOn hhere
  | strayClose =>
    have hwarned := (hmoved (s.pos.shifted 1)).warn .commentNotEnd (s.pos.shifted lexeme.length)
    exact hwarned.emit _
  | endOfInput => exact (hmoved _).emit _
  | word rule =>
    simp only [actCode]
    split
    · exact (hmoved _).emit _
    · rename_i fault _
      apply (hmoved _).fail
      cases fault <;> exact hhere

theorem actComment_remembers {c : OpenComment} {text : List UInt8}
    (hmode : s.mode = .comment c text) (rule : CommentRule) (lexeme : List UInt8) :
    s.Remembers (s.actComment c text rule lexeme) := by
  have hmoved : ∀ pos, (s.moveTo pos).Follows s := follows_moveTo s
  have hopening : ∀ p ∈ [c.outer.start], s.Knows p := knows_openings hmode
  have hstring : ∀ p ∈ [s.pos, c.outer.start], s.Knows p := by
    intro p hp
    rcases List.mem_cons.mp hp with rfl | hp
    · exact s.knows_pos
    · exact hopening p hp
  cases rule with
  | close =>
    simp only [actComment]
    split
    · exact (hmoved _).goOn hopening
    · exact (hmoved _).endConstruct _ _
  | stringOpen | quotedOpen => exact (hmoved _).goOn hstring
  | charNewline | newline => exact ((hmoved _).moveTo _).goOn hopening
  | endOfInput =>
    apply (hmoved _).fail
    exact hopening
  | nestedOpen | char | plain => exact (hmoved _).goOn hopening

section Strings

variable {r : Session} {o : OpenString}

theorem Follows.closeString (h : r.Follows s)
    (ho : ∀ p ∈ Mode.openings (.string o []), s.Knows p) (text terminator : List UInt8) :
    s.Remembers (r.closeString o text terminator) := by
  unfold Session.closeString
  split
  · rename_i c henclosing
    apply h.goOn
    intro p hp
    apply ho
    rw [List.mem_singleton.mp hp]
    simp [Mode.openings, henclosing]
  · exact h.endConstruct _ _

/-- A string without an end points at its opener and at that of the comment around it. -/
theorem places_unterminated (o : OpenString) :
    ∀ p ∈ (unterminated o).places, p ∈ Mode.openings (.string o []) := by
  intro p hp
  cases henclosing : o.enclosing with
  | none =>
    simp only [unterminated, henclosing] at hp
    obtain rfl : p = o.opener.start := List.mem_singleton.mp hp
    simp [Mode.openings]
  | some c =>
    simp only [unterminated, henclosing] at hp
    have hp : p ∈ [c.outer.start, o.opener.start] := hp
    simp only [Mode.openings, henclosing]
    rcases List.mem_cons.mp hp with rfl | hp
    · simp
    · rw [List.mem_singleton.mp hp]
      simp

theorem actString_remembers {text : List UInt8} (hmode : s.mode = .string o text)
    (rule : StringRule) (lexeme : List UInt8) : s.Remembers (s.actString o text rule lexeme) := by
  have hmoved : ∀ pos, (s.moveTo pos).Follows s := follows_moveTo s
  have hopening : ∀ p ∈ Mode.openings (.string o text), s.Knows p := knows_openings hmode
  cases rule with
  | close => exact (hmoved _).closeString hopening text lexeme
  | lineContinuation => exact ((hmoved _).moveTo _).goOn hopening
  | decimalEscape =>
    simp only [actString]
    split
    · exact (hmoved _).goOn hopening
    · split
      · exact (hmoved _).goOn hopening
      · apply (hmoved _).fail
        intro p hp
        obtain rfl : p = s.pos := List.mem_singleton.mp hp
        exact s.knows_pos
  | unknownEscape => exact ((hmoved _).warn _ _).goOn hopening
  | newline =>
    simp only [actString]
    split
    · exact ((hmoved _).moveTo _).goOn hopening
    · exact (((hmoved _).warn _ _).moveTo _).goOn hopening
  | endOfInput =>
    apply (hmoved _).fail
    intro p hp
    exact hopening p (places_unterminated o p hp)
  | namedEscape | hexEscape | plain => exact (hmoved _).goOn hopening

theorem actQuoted_remembers {id text : List UInt8} (hmode : s.mode = .string o text)
    (rule : QuotedRule) (lexeme : List UInt8) :
    s.Remembers (s.actQuoted o id text rule lexeme) := by
  have hmoved : ∀ pos, (s.moveTo pos).Follows s := follows_moveTo s
  have hopening : ∀ p ∈ Mode.openings (.string o text), s.Knows p := knows_openings hmode
  cases rule with
  | terminator =>
    simp only [actQuoted]
    split
    · exact (hmoved _).closeString hopening text lexeme
    · exact (hmoved _).goOn hopening
  | newline => exact ((hmoved _).moveTo _).goOn hopening
  | plain => exact (hmoved _).goOn hopening
  | endOfInput =>
    apply (hmoved _).fail
    intro p hp
    exact hopening p (places_unterminated o p hp)

end Strings

theorem actQuotation_remembers {q : OpenQuotation} (hmode : s.mode = .quotation q)
    (rule : QuotationRule) (n : Nat) : s.Remembers (s.actQuotation q rule n) := by
  have hmoved : ∀ pos, (s.moveTo pos).Follows s := follows_moveTo s
  have hopening : ∀ p ∈ [q.outer.start], s.Knows p := knows_openings hmode
  cases rule with
  | close =>
    simp only [actQuotation]
    split
    · exact (hmoved _).goOn hopening
    · exact (hmoved _).endConstruct _ _
  | newline => exact ((hmoved _).moveTo _).goOn hopening
  | nestedOpen | plain => exact (hmoved _).goOn hopening
  | endOfInput =>
    apply (hmoved _).fail
    exact hopening

end Actions

/-! ## Steps -/

theorem onFound_remembers {ρ : Type} {s : Session} (verdict : Verdict ρ)
    {act : ρ → Nat → Session × Step} (h : ∀ rule n, s.Remembers (act rule n)) :
    s.Remembers (s.onFound verdict act) := by
  cases verdict with
  | undecided =>
    refine ⟨fun _ => knows_opening, fun _ => s.knows_warning, ?_⟩
    intro e he
    cases he
  | found rule n => exact h rule n

/-- A step remembers and reports only places that the session knows. -/
theorem stepOn_remembers (s : Session) (view : Lookahead) : s.Remembers (s.stepOn view) := by
  unfold stepOn
  split
  · split
    · exact onFound_remembers _ fun rule n => actHeader_remembers rule n
    · exact onFound_remembers _ fun rule n => actCode_remembers rule _
  · rename_i hmode
    exact onFound_remembers _ fun rule n => actComment_remembers hmode rule _
  · rename_i hmode
    split
    · exact onFound_remembers _ fun rule n => actString_remembers hmode rule _
    · exact onFound_remembers _ fun rule n => actQuoted_remembers hmode rule _
  · rename_i hmode
    exact onFound_remembers _ fun rule n => actQuotation_remembers hmode rule n

end Session

end StreamLexer
