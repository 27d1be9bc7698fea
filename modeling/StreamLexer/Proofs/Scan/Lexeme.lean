import StreamLexer.Proofs.Scan.Following

/-!
# Lexemes of complete sources

What the scans of comments, strings and quoted strings find in a complete source: one statement
for each byte that rules start with. Each names the reader's function that says whether the rule
matches. Of source code there is only the opener of a comment.
-/
namespace StreamLexer

open Reader (after? afterLineEnd? quotedOpener? escape? afterChar?)

section Body

variable {ρ : Type} {isStop : UInt8 → Bool} {skip : Cursor → Nat × Cursor}
  {endOfInput plain newline : ρ} {rows : List (ρ × Pattern)}

/-- The first byte of a lexeme of a body, which is plain if no rule of the body matches. -/
theorem bodyScan_stop {b : UInt8} (hb : isStop b = true) (hrows : exhausted rows = false)
    (rest : List UInt8) :
    bodyScan isStop skip endOfInput plain rows ⟨b :: rest, true⟩ =
      munchFrom true (plain, 1) 0 rows (b :: rest) := by
  rw [bodyScan_eq_munch (by simpa using hb), munch]
  exact munchFrom_append_any plain _ 0 hrows b rest

/-- At a line end, which only one rule of the body starts with. -/
theorem bodyScan_lineEnd (hreturn : isStop '\r'.toUInt8 = true)
    (hnewline : isStop '\n'.toUInt8 = true) (hrows : exhausted rows = false)
    (hreturnRows : rowsAfter '\r'.toUInt8 rows =
      rowsAfter '\r'.toUInt8 [(newline, Pattern.lineEnd)])
    (hnewlineRows : rowsAfter '\n'.toUInt8 rows =
      rowsAfter '\n'.toUInt8 [(newline, Pattern.lineEnd)])
    {b : UInt8} (hb : Byte.isLineEnd b = true) (rest : List UInt8) :
    bodyScan isStop skip endOfInput plain rows ⟨b :: rest, true⟩ =
      match afterLineEnd? (b :: rest) with
      | some next => .found newline ((b :: rest).length - next.length)
      | none => .found plain 1 := by
  obtain rfl | rfl := Byte.isLineEnd_iff.mp hb
  · rw [bodyScan_stop hreturn hrows, munchFrom_congr hreturnRows hrows rfl, munchFrom_lineEnd]
    cases afterLineEnd? ('\r'.toUInt8 :: rest) <;> simp
  · rw [bodyScan_stop hnewline hrows, munchFrom_congr hnewlineRows hrows rfl, munchFrom_lineEnd]
    cases afterLineEnd? ('\n'.toUInt8 :: rest) <;> simp

end Body

/-! ## Comments -/

namespace CommentRule

theorem scan_lineEnd {b : UInt8} (hb : Byte.isLineEnd b = true) (rest : List UInt8) :
    scan ⟨b :: rest, true⟩ =
      match afterLineEnd? (b :: rest) with
      | some next => .found newline ((b :: rest).length - next.length)
      | none => .found plain 1 := by
  rw [scan_eq_bodyScan]
  refine bodyScan_lineEnd ?_ ?_ ?_ ?_ ?_ hb rest <;> rfl

theorem scan_open (rest : List UInt8) :
    scan ⟨'('.toUInt8 :: rest, true⟩ =
      if rest.head? == some '*'.toUInt8 then .found nestedOpen 2 else .found plain 1 := by
  rw [scan_eq_bodyScan, bodyScan_stop rfl rfl]
  show munchFrom true (plain, 1) 1 [(nestedOpen, [(· == '*'.toUInt8)].map .one)] rest = _
  rw [munchFrom_ones, startsIn_char, after?_isSome]
  rfl

theorem scan_star (rest : List UInt8) :
    scan ⟨'*'.toUInt8 :: rest, true⟩ =
      if rest.head? == some ')'.toUInt8 then .found close 2 else .found plain 1 := by
  rw [scan_eq_bodyScan, bodyScan_stop rfl rfl]
  show munchFrom true (plain, 1) 1 [(close, [(· == ')'.toUInt8)].map .one)] rest = _
  rw [munchFrom_ones, startsIn_char, after?_isSome]
  rfl

theorem scan_doubleQuote (rest : List UInt8) :
    scan ⟨'"'.toUInt8 :: rest, true⟩ = .found stringOpen 1 := by
  rw [scan_eq_bodyScan, bodyScan_stop rfl rfl]
  show munchFrom true (stringOpen, 1) 1 [(stringOpen, [])] rest = _
  rw [munchFrom_exhausted rfl]

theorem scan_brace (rest : List UInt8) :
    scan ⟨'\x7b'.toUInt8 :: rest, true⟩ =
      match quotedOpener? ('\x7b'.toUInt8 :: rest) with
      | some (id, _) => .found quotedOpen (id.length + 2)
      | none => .found plain 1 := by
  rw [scan_eq_bodyScan, bodyScan_stop rfl rfl, quotedOpener?, after?_cons, Option.bind_some]
  show munchFrom true (plain, 1) 1
    [(quotedOpen, .many Byte.isLower :: [(· == '|'.toUInt8)].map .one)] rest = _
  have hstop : ∀ b, Byte.isLower b = true → (b == '|'.toUInt8) = false :=
    fun _ hb => (Byte.isLower_disjoint hb).1
  rw [munchFrom_run _ _ _ hstop, startsIn_char]
  cases after? ['|'] (rest.dropWhile Byte.isLower) with
  | some body =>
    show Verdict.found _ _ = Verdict.found _ _
    congr 1
    simp only [List.length_nil]
    omega
  | none => rfl

/-- The rows after the first quote of a character literal. -/
def quoteRows : List (CommentRule × Pattern) :=
  [(char, [.char '\'']), (charNewline, Pattern.lineEnd ++ [.char '\'']),
   (char, [.one fun b => !Byte.isAny ['\\', '\'', '\n', '\r'] b, .char '\'']),
   (char, Pattern.namedEscape ++ [.char '\'']), (char, Pattern.decimalEscape ++ [.char '\'']),
   (char, Pattern.hexEscape ++ [.char '\''])]

theorem munchFrom_quoteRows_escape (rest : List UInt8) :
    munchFrom true (plain, 1) 1 quoteRows ('\\'.toUInt8 :: rest) =
      match (escape? rest).bind fun e => after? ['\''] e.2 with
      | some next => .found char (rest.length + 2 - next.length)
      | none => .found plain 1 := by
  show munchFrom true (plain, 1) 2 (escapeRows char char char [(· == '\''.toUInt8)]) rest = _
  rw [munchFrom_escape]
  cases hescape : escape? rest with
  | none => rfl
  | some found =>
    obtain ⟨byte?, next⟩ := found
    have hlength := Reader.escape?_length hescape
    simp only [startsIn_char, ite_self, Option.bind_some]
    cases hend : after? ['\''] next with
    | none => rfl
    | some next' =>
      have hlength' := congrArg List.length (Reader.after?_eq_some_iff.mp hend)
      simp only [List.length_append, List.length_map, List.length_cons, List.length_nil] at hlength'
      show Verdict.found _ _ = Verdict.found _ _
      congr 1
      simp only [List.length_cons, List.length_nil]
      omega

theorem munchFrom_quoteRows_lineEnd {c : UInt8} (hline : Byte.isLineEnd c = true)
    (rest : List UInt8) :
    munchFrom true (plain, 1) 1 quoteRows (c :: rest) =
      match (afterLineEnd? (c :: rest)).bind (after? ['\'']) with
      | some next => .found charNewline ((c :: rest).length + 1 - next.length)
      | none => .found plain 1 := by
  have hrows : rowsAfter c quoteRows =
      rowsAfter c [(charNewline, Pattern.lineEnd ++ [.char '\''])] := by
    obtain rfl | rfl := Byte.isLineEnd_iff.mp hline
    · rfl
    · rfl
  rw [munchFrom_congr hrows rfl rfl]
  show munchFrom true (plain, 1) 1 [(charNewline, .many (· == '\r'.toUInt8) ::
    [(· == '\n'.toUInt8), (· == '\''.toUInt8)].map .one)] (c :: rest) = _
  rw [munchFrom_run _ _ _ lineEnd_disjoint, startsIn_char]
  show (if (afterLineEnd? (c :: rest)).any _ then _ else _) = _
  cases hnext : afterLineEnd? (c :: rest) with
  | none => rfl
  | some next =>
    have hlength := congrArg List.length (Reader.afterLineEnd?_eq_some hnext)
    rw [Option.any_some, startsIn_char, Option.bind_some]
    cases hend : after? ['\''] next with
    | none => rfl
    | some next' =>
      have hlength' := congrArg List.length (Reader.after?_eq_some_iff.mp hend)
      simp only [List.length_append, List.length_map, List.length_cons, List.length_nil] at *
      show Verdict.found _ _ = Verdict.found _ _
      congr 1
      omega

theorem munchFrom_quoteRows_plain {c : UInt8}
    (hplain : Byte.isAny ['\\', '\'', '\n', '\r'] c = false) (rest : List UInt8) :
    munchFrom true (plain, 1) 1 quoteRows (c :: rest) =
      match after? ['\''] rest with
      | some next => .found char (rest.length + 2 - next.length)
      | none => .found plain 1 := by
  have hrows : rowsAfter c quoteRows = rowsAfter c [(char,
      [fun b => !Byte.isAny ['\\', '\'', '\n', '\r'] b, (· == '\''.toUInt8)].map .one)] := by
    obtain ⟨hback, hquote, hnewline, hreturn⟩ : c ≠ '\\'.toUInt8 ∧ c ≠ '\''.toUInt8 ∧
        c ≠ '\n'.toUInt8 ∧ c ≠ '\r'.toUInt8 := by simpa [Byte.isAny] using hplain
    simp [quoteRows, rowsAfter, Pattern.after, Pattern.lineEnd, Pattern.namedEscape,
      Pattern.decimalEscape, Pattern.hexEscape, Piece.char, hback, hquote, hnewline, hreturn]
  rw [munchFrom_congr hrows rfl rfl, munchFrom_ones, startsIn, hplain, Bool.not_false,
    Bool.true_and, startsIn_char]
  cases hend : after? ['\''] rest with
  | none => rfl
  | some next =>
    have hlength := congrArg List.length (Reader.after?_eq_some_iff.mp hend)
    simp only [List.length_append, List.length_map, List.length_cons, List.length_nil] at *
    show Verdict.found _ _ = Verdict.found _ _
    congr 1
    omega

/-- Character literals, which are opaque in comments. -/
theorem scan_quote (rest : List UInt8) :
    scan ⟨'\''.toUInt8 :: rest, true⟩ =
      match afterChar? rest with
      | some next =>
        .found (if rest.head?.any Byte.isLineEnd then charNewline else char)
          (('\''.toUInt8 :: rest).length - next.length)
      | none => .found plain 1 := by
  rw [scan_eq_bodyScan, bodyScan_stop rfl rfl]
  show munchFrom true (plain, 1) 1 quoteRows rest = _
  cases rest with
  | nil => rfl
  | cons c rest =>
    by_cases hquote : c = '\''.toUInt8
    · subst hquote
      show munchFrom true (char, 2) 2 [(char, [])] rest =
        .found char (rest.length + 2 - rest.length)
      rw [munchFrom_exhausted rfl, Nat.add_sub_cancel_left]
    by_cases hback : c = '\\'.toUInt8
    · subst hback
      exact munchFrom_quoteRows_escape rest
    have hquote' : (c == '\''.toUInt8) = false := by simpa using hquote
    have hback' : (c == '\\'.toUInt8) = false := by simpa using hback
    by_cases hline : Byte.isLineEnd c = true
    · have hafter : afterChar? (c :: rest) = (afterLineEnd? (c :: rest)).bind (after? ['\'']) := by
        simp only [afterChar?, hquote', hback', hline]
        rfl
      rw [hafter, munchFrom_quoteRows_lineEnd hline]
      simp only [List.head?_cons, Option.any_some, hline]
      rfl
    · have hplain : Byte.isAny ['\\', '\'', '\n', '\r'] c = false := by
        simp [Byte.isLineEnd, Byte.isAny] at hline ⊢
        simp [hline, hquote, hback]
      have hafter : afterChar? (c :: rest) = after? ['\''] rest := by
        simp only [afterChar?, hquote', hback', hline]
        rfl
      rw [hafter, munchFrom_quoteRows_plain hplain]
      simp only [List.head?_cons, Option.any_some, hline]
      rfl

end CommentRule

/-! ## Strings -/

namespace StringRule

theorem scan_lineEnd {b : UInt8} (hb : Byte.isLineEnd b = true) (rest : List UInt8) :
    scan ⟨b :: rest, true⟩ =
      match afterLineEnd? (b :: rest) with
      | some next => .found newline ((b :: rest).length - next.length)
      | none => .found plain 1 := by
  rw [scan_eq_bodyScan]
  refine bodyScan_lineEnd ?_ ?_ ?_ ?_ ?_ hb rest <;> rfl

theorem scan_doubleQuote (rest : List UInt8) :
    scan ⟨'"'.toUInt8 :: rest, true⟩ = .found close 1 := by
  rw [scan_eq_bodyScan, bodyScan_stop rfl rfl]
  show munchFrom true (close, 1) 1 [(close, [])] rest = _
  rw [munchFrom_exhausted rfl]

/-- The rest of a line continuation: a line end, with the blanks after it. -/
theorem munchFrom_lineContinuation (best : StringRule × Nat) (n : Nat) (bytes : List UInt8) :
    munchFrom true best n
        [(lineContinuation, Pattern.lineEnd ++ [.many (Byte.isAny [' ', '\t'])])] bytes =
      match afterLineEnd? bytes with
      | some next =>
        .found lineContinuation
          (n + (bytes.length - (next.dropWhile (Byte.isAny [' ', '\t'])).length))
      | none => .found best.1 best.2 := by
  induction bytes generalizing best n with
  | nil => rfl
  | cons b bytes ih =>
    by_cases hreturn : b = '\r'.toUInt8
    · subst hreturn
      show munchFrom true best (n + 1)
        [(lineContinuation, Pattern.lineEnd ++ [.many (Byte.isAny [' ', '\t'])])] bytes = _
      rw [ih, afterLineEnd?_return]
      cases hnext : afterLineEnd? bytes with
      | none => rfl
      | some next =>
        have hlength := Reader.afterLineEnd?_length hnext
        have hdrop := (List.dropWhile_sublist (Byte.isAny [' ', '\t']) (l := next)).length_le
        show Verdict.found _ _ = Verdict.found _ _
        congr 1
        simp only [List.length_cons]
        omega
    · by_cases hnewline : b = '\n'.toUInt8
      · subst hnewline
        show munchFrom true (lineContinuation, n + 1) (n + 1)
          [(lineContinuation, [.many (Byte.isAny [' ', '\t'])])] bytes = _
        rw [munchFrom_many, afterLineEnd?_newline]
        have hlength := congrArg List.length
          (List.takeWhile_append_dropWhile (p := Byte.isAny [' ', '\t']) (l := bytes))
        rw [List.length_append] at hlength
        show Verdict.found _ _ = Verdict.found _ _
        congr 1
        simp only [List.length_cons]
        omega
      · have hrows : rowsAfter b
            [(lineContinuation, Pattern.lineEnd ++ [.many (Byte.isAny [' ', '\t'])])] = [] := by
          simp [rowsAfter, Pattern.after, Pattern.lineEnd, Piece.char, hreturn, hnewline]
        have hstep :
          munchFrom true best n
            [(lineContinuation, Pattern.lineEnd ++ [.many (Byte.isAny [' ', '\t'])])]
            (b :: bytes) = munchFrom true best (n + 1) [] bytes := by
          simp only [munchFrom, hrows]
          rfl
        rw [hstep, munchFrom_exhausted rfl, afterLineEnd?_of_ne hreturn hnewline]

/-- The rows after the backslash of an escape. -/
def backslashRows : List (StringRule × Pattern) :=
  (lineContinuation, Pattern.lineEnd ++ [.many (Byte.isAny [' ', '\t'])]) ::
    escapeRows namedEscape decimalEscape hexEscape []

theorem scan_backslash (rest : List UInt8) :
    scan ⟨'\\'.toUInt8 :: rest, true⟩ =
      match afterLineEnd? rest with
      | some next =>
        .found lineContinuation
          (('\\'.toUInt8 :: rest).length - (next.dropWhile (Byte.isAny [' ', '\t'])).length)
      | none =>
        match escape? rest with
        | some (_, next) =>
          .found (if rest.head?.any Byte.isNamedEscape then namedEscape
              else if rest.head?.any Byte.isDecimal then decimalEscape else hexEscape)
            (('\\'.toUInt8 :: rest).length - next.length)
        | none => if rest.isEmpty then .found plain 1 else .found unknownEscape 2 := by
  rw [scan_eq_bodyScan, bodyScan_stop rfl rfl]
  show munchFrom true (plain, 1) 1 (backslashRows ++ [(unknownEscape, [.one fun _ => true])])
    rest = _
  cases rest with
  | nil => rfl
  | cons c rest =>
    rw [munchFrom_append_any _ _ _ rfl]
    -- line ends start no escape, so they leave the row of line continuations alone
    by_cases hline : Byte.isLineEnd c = true
    · have hrows : rowsAfter c backslashRows = rowsAfter c
          [(lineContinuation, Pattern.lineEnd ++ [.many (Byte.isAny [' ', '\t'])])] := by
        obtain rfl | rfl := Byte.isLineEnd_iff.mp hline
        · rfl
        · rfl
      have hescape : escape? (c :: rest) = none := by
        obtain rfl | rfl := Byte.isLineEnd_iff.mp hline
        · rcases rest with _ | ⟨_, _ | ⟨_, _⟩⟩ <;> rfl
        · rcases rest with _ | ⟨_, _ | ⟨_, _⟩⟩ <;> rfl
      rw [munchFrom_congr hrows rfl rfl, munchFrom_lineContinuation, hescape]
      cases hnext : afterLineEnd? (c :: rest) with
      | none => rfl
      | some next =>
        have hlength := Reader.afterLineEnd?_length hnext
        have hdrop := (List.dropWhile_sublist (Byte.isAny [' ', '\t']) (l := next)).length_le
        show Verdict.found _ _ = Verdict.found _ _
        congr 1
        simp only [List.length_cons] at *
        omega
    · obtain ⟨hreturn, hnewline⟩ := not_or.mp (mt Byte.isLineEnd_iff.mpr hline)
      have hrows : rowsAfter c backslashRows =
          rowsAfter c (escapeRows namedEscape decimalEscape hexEscape []) := by
        simp [backslashRows, rowsAfter, Pattern.after, Pattern.lineEnd, Piece.char, hreturn,
          hnewline]
      rw [munchFrom_congr hrows rfl rfl, munchFrom_escape, afterLineEnd?_of_ne hreturn hnewline]
      cases hescape : escape? (c :: rest) with
      | none => rfl
      | some found =>
        obtain ⟨byte?, next⟩ := found
        have hlength := Reader.escape?_length hescape
        show Verdict.found _ _ = Verdict.found _ _
        congr 1
        simp only [List.length_cons, List.length_nil] at *
        omega

end StringRule

/-! ## Quoted strings -/

namespace QuotedRule

theorem scan_lineEnd {b : UInt8} (hb : Byte.isLineEnd b = true) (rest : List UInt8) :
    scan ⟨b :: rest, true⟩ =
      match afterLineEnd? (b :: rest) with
      | some next => .found newline ((b :: rest).length - next.length)
      | none => .found plain 1 := by
  rw [scan_eq_bodyScan]
  refine bodyScan_lineEnd ?_ ?_ ?_ ?_ ?_ hb rest <;> rfl

theorem scan_bar (rest : List UInt8) :
    scan ⟨'|'.toUInt8 :: rest, true⟩ =
      if (rest.dropWhile Byte.isLower).head? == some '\x7d'.toUInt8 then
        .found terminator ((rest.takeWhile Byte.isLower).length + 2)
      else .found plain 1 := by
  rw [scan_eq_bodyScan, bodyScan_stop rfl rfl]
  show munchFrom true (plain, 1) 1
    [(terminator, .many Byte.isLower :: [(· == '\x7d'.toUInt8)].map .one)] rest = _
  have hstop : ∀ b, Byte.isLower b = true → (b == '\x7d'.toUInt8) = false :=
    fun _ hb => (Byte.isLower_disjoint hb).2
  rw [munchFrom_run _ _ _ hstop, startsIn_char, after?_isSome]
  split
  · congr 1
    simp only [List.length_nil]
    omega
  · rfl

end QuotedRule

/-! ## Source code -/

theorem TokenRule.scan_commentOpen (rest : List UInt8) :
    scan ⟨'('.toUInt8 :: '*'.toUInt8 :: rest, true⟩ =
      match after? [')'] rest with
      | some _ => .found .commentOpenAmbiguous 3
      | none => .found .commentOpen 2 := by
  rw [scan_eq_munch]
  show munchFrom true (commentOpen, 2) 2
    [(.commentOpen, []), (.commentOpenAmbiguous, [.char ')'])] rest = _
  cases rest with
  | nil => rfl
  | cons b rest =>
    have hrows : rowsAfter b [(commentOpen, []), (.commentOpenAmbiguous, [.char ')'])] =
        rowsAfter b [(.commentOpenAmbiguous, [(· == ')'.toUInt8)].map .one)] := by
      simp [rowsAfter, Pattern.after, Piece.char]
    rw [munchFrom_congr hrows rfl rfl, munchFrom_ones, startsIn_char]
    cases after? [')'] (b :: rest) <;> rfl

theorem HeaderRule.scan_absent (rest : List UInt8) :
    scan ⟨'('.toUInt8 :: rest, true⟩ = .found .absent 0 := by
  rw [scan_eq_munch]
  show munchFrom true (absent, 0) 1 [] rest = _
  exact munchFrom_exhausted rfl _ _ _

end StreamLexer
