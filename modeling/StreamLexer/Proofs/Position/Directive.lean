import StreamLexer.Proofs.Literal.Digits
import StreamLexer.Proofs.Position.LineEnd
import StreamLexer.Proofs.Session.Course

/-!
# Line directives of a source

The line directives that lexing meets in a source, each with its place and its bytes, and what it
says: the number of the line after it, and perhaps a file name. That is read off the bytes here
without a word about how the lexer reads them; `ofLexeme_eq` says that the lexer reads the same.
-/
namespace StreamLexer

/-- A line directive in a source. -/
structure Directive where
  start : Nat
  lexeme : List UInt8

namespace Directive

/-- Where the directive ends, which is the start of a line. -/
def stop (d : Directive) : Nat :=
  d.start + d.lexeme.length

/-- The directive from its number on. -/
def afterHash (d : Directive) : List UInt8 :=
  (d.lexeme.drop 1).dropWhile LineDirective.isSpace

/-- The digits of its number. -/
def digits (d : Directive) : List UInt8 :=
  d.afterHash.takeWhile Byte.isDecimal

/-- The number of the next line: what the digits denote in base ten, but at most the last line
number. -/
def line (d : Directive) : Nat :=
  min Position.maxLine (Nat.ofDigits 10 (d.digits.reverse.map fun b => b.toNat - '0'.toNat))

/-- The text between double quotes at the start, if there is a second one. -/
def quoted? : List UInt8 → Option String
  | [] => none
  | b :: rest =>
    if b = '"'.toUInt8 ∧ '"'.toUInt8 ∈ rest then
      some (Latin1.decode (rest.takeWhile (· != '"'.toUInt8)))
    else none

/-- The file name: the text that is quoted directly after the digits and blanks. -/
def name? (d : Directive) : Option String :=
  quoted? ((d.afterHash.dropWhile Byte.isDecimal).dropWhile LineDirective.isSpace)

end Directive

/-! ## What the lexer reads -/

/-- A double quote comes before every line end. -/
def QuotesFirst (bytes : List UInt8) : Prop :=
  ∀ u v, bytes = u ++ '"'.toUInt8 :: v → ∀ b ∈ u, Byte.isLineEnd b = false

theorem QuotesFirst.of_suffix {bytes rest : List UInt8} (h : QuotesFirst bytes)
    (hsuffix : rest <:+ bytes) : QuotesFirst rest := by
  obtain ⟨before, rfl⟩ := hsuffix
  intro u v huv b hb
  apply h (before ++ u) v
  · rw [huv, List.append_assoc]
  · exact List.mem_append_right before hb

theorem quotesFirst_of_ends {body ends : List UInt8} (hbody : ∀ b ∈ body, Byte.isLineEnd b = false)
    (hends : ∀ b ∈ ends, Byte.isLineEnd b = true) : QuotesFirst (body ++ ends) := by
  intro u v huv b hb
  rcases List.append_eq_append_iff.mp huv with ⟨c, rfl, rfl⟩ | ⟨c, rfl, -⟩
  · have hquote := hends '"'.toUInt8 (by simp)
    cases hquote
  · exact hbody b (List.mem_append_left c hb)

/-- Then it does not matter whether the search for the second quote stops at line ends. -/
theorem quotedName?_eq {rest : List UInt8} (h : QuotesFirst rest) :
    LineDirective.quotedName? rest = Directive.quoted? rest := by
  cases rest with
  | nil => rfl
  | cons b rest =>
    by_cases hb : b = '"'.toUInt8
    · subst hb
      by_cases hquote : '"'.toUInt8 ∈ rest
      · obtain ⟨name, later, rfl, hname⟩ := List.eq_append_cons_of_mem hquote
        have hline : ∀ c ∈ name, Byte.isLineEnd c = false := by
          intro c hc
          apply h ('"'.toUInt8 :: name) later rfl
          exact List.mem_cons_of_mem _ hc
        have hlong : (name ++ '"'.toUInt8 :: later).takeWhile
            (fun c => !Byte.isAny ['"', '\n', '\r'] c) = name := by
          rw [List.takeWhile_append_of_pos, List.takeWhile_cons_of_neg (by decide), List.append_nil]
          intro c hc
          have hne : c ≠ '"'.toUInt8 := fun heq => hname (heq ▸ hc)
          have hlineEnd := hline c hc
          simp only [Byte.isLineEnd, Byte.isAny, List.any_cons, List.any_nil, Bool.or_false,
            Bool.or_eq_false_iff] at hlineEnd ⊢
          simp [hne, hlineEnd]
        have hshort : (name ++ '"'.toUInt8 :: later).takeWhile (· != '"'.toUInt8) = name := by
          rw [List.takeWhile_append_of_pos, List.takeWhile_cons_of_neg (by decide), List.append_nil]
          intro c hc
          have hne : c ≠ '"'.toUInt8 := fun heq => hname (heq ▸ hc)
          simpa using hne
        simp [LineDirective.quotedName?, Directive.quoted?, hlong, hshort]
      · -- no second quote can follow what is taken for the name
        have hat : ∀ n : Nat, rest[n]? ≠ some '"'.toUInt8 := by
          intro n hn
          exact hquote (List.mem_of_getElem? hn)
        simp [LineDirective.quotedName?, Directive.quoted?, hquote, hat]
    · simp [LineDirective.quotedName?, Directive.quoted?, hb]

/-- The line end of a directive is at its end. -/
theorem exists_body_of_directive {lexeme : List UInt8}
    (h : firstAccepting? TokenRule.rows lexeme = some .lineDirective) :
    ∃ body returns, lexeme = body ++ (returns ++ [newline]) ∧
      (∀ b ∈ body, Byte.isLineEnd b = false) ∧ ∀ b ∈ returns, b = '\r'.toUInt8 := by
  obtain ⟨p, hp, haccepts⟩ := exists_patternsOf h
  -- both patterns end in a line end, before which no line end can be
  obtain ⟨body, rfl, hbody⟩ : ∃ body, p = body ++ Pattern.lineEnd ∧
      Pattern.avoids ['\r'.toUInt8, '\n'.toUInt8] body = true := by
    have hpatterns : patternsOf TokenRule.rows .lineDirective = Pattern.lineDirectives := rfl
    rw [hpatterns, Pattern.lineDirectives, List.mem_cons, List.mem_singleton] at hp
    rcases hp with rfl | rfl
    · exact ⟨_, rfl, rfl⟩
    · exact ⟨_, rfl, rfl⟩
  obtain ⟨u, v, rfl, hu, hv⟩ := Pattern.accepts_append haccepts
  obtain ⟨returns, rfl, hreturns⟩ := Pattern.accepts_lineEnd hv
  have havoids := Pattern.not_mem_of_avoids hbody hu
  refine ⟨u, returns, rfl, ?_, hreturns⟩
  intro b hb
  have hreturn : b ≠ '\r'.toUInt8 := fun heq => havoids _ (by simp) (heq ▸ hb)
  have hnewline : b ≠ '\n'.toUInt8 := fun heq => havoids _ (by simp) (heq ▸ hb)
  simp [Byte.isLineEnd, Byte.isAny, hreturn, hnewline]

theorem quotesFirst_of_directive {lexeme : List UInt8}
    (h : firstAccepting? TokenRule.rows lexeme = some .lineDirective) : QuotesFirst lexeme := by
  obtain ⟨body, returns, rfl, hbody, hreturns⟩ := exists_body_of_directive h
  apply quotesFirst_of_ends hbody
  intro b hb
  rcases List.mem_append.mp hb with hb | hb
  · rw [hreturns b hb]
    rfl
  · rw [List.mem_singleton.mp hb]
    rfl

/-- A number that stops at the last line number and one more digit. -/
theorem addDigit_min (n : Nat) (digit : UInt8) :
    LineDirective.addDigit (min n Position.maxLine) digit =
      min (n * 10 + (digit.toNat - '0'.toNat)) Position.maxLine := by
  unfold LineDirective.addDigit
  omega

/-- Stopping at the last line number after every digit comes to stopping once at the end. -/
theorem lineNumber_eq_min {digits : List UInt8} (h : ∀ b ∈ digits, Byte.isDecimal b = true) :
    LineDirective.lineNumber digits = min (Numeral.value 10 digits) Position.maxLine := by
  have hfold : ∀ n, digits.foldl LineDirective.addDigit (min n Position.maxLine) =
      min (digits.foldl (fun n b => n * 10 + Numeral.digitValue b) n) Position.maxLine := by
    induction digits with
    | nil => intro n; rfl
    | cons b digits ih =>
      intro n
      have hb : Numeral.digitValue b = b.toNat - '0'.toNat := if_pos (h b List.mem_cons_self)
      rw [List.foldl_cons, List.foldl_cons, addDigit_min, hb,
        ih fun c hc => h c (List.mem_cons_of_mem b hc)]
  rw [Numeral.value, stripUnderscores_decimal h, ← hfold, Nat.zero_min]
  rfl

/-- The lexer reads from a directive what it says. -/
theorem ofLexeme_eq {d : Directive}
    (h : firstAccepting? TokenRule.rows d.lexeme = some .lineDirective) :
    LineDirective.ofLexeme d.lexeme = ⟨d.line, d.name?⟩ := by
  have hdigits : ∀ b ∈ d.digits, Byte.isDecimal b = true :=
    fun b hb => List.all_eq_true.mp List.all_takeWhile b hb
  have hdrop : d.afterHash.drop d.digits.length = d.afterHash.dropWhile Byte.isDecimal := by
    conv => lhs; arg 2; rw [← List.takeWhile_append_dropWhile (p := Byte.isDecimal)
      (l := d.afterHash)]
    exact List.drop_left
  have hsuffix : (d.afterHash.dropWhile Byte.isDecimal).dropWhile LineDirective.isSpace <:+
      d.lexeme :=
    ((List.dropWhile_suffix _).trans (List.dropWhile_suffix _)).trans
      ((List.dropWhile_suffix _).trans (List.drop_suffix _ _))
  have hname := quotedName?_eq ((quotesFirst_of_directive h).of_suffix hsuffix)
  show LineDirective.mk (LineDirective.lineNumber d.digits)
    (LineDirective.quotedName? ((d.afterHash.drop d.digits.length).dropWhile _)) = _
  rw [lineNumber_eq_min hdigits, value_eq_ofDigits hdigits, Nat.min_comm, hdrop, hname]
  rfl

/-! ## The directives that a session meets -/

namespace Session

/-- The line directive that the session takes next, if it takes one. -/
def directive? (s : Session) : Option Directive :=
  if s.mode = .code ∧ s.headerPending = false then
    match TokenRule.scan s.lookahead with
    | .found .lineDirective n => some ⟨s.pos.offset, s.lookahead.bytes.take n⟩
    | _ => none
  else none

set_option linter.unusedVariables false in
/-- The line directives that source code matches from here on, up to the end token or an error. -/
def directives (s : Session) : List Directive :=
  s.directive?.toList ++
    match h : s.step with
    | (t, .proceed) => t.directives
    | (t, .emit token) => if heof : token.kind.isEof then [] else t.directives
    | (_, .fail _) | (_, .starved) => []
termination_by s.weight
decreasing_by
  · rcases h ▸ step_spends _ with hlt | ⟨hfinal, -⟩
    · exact hlt
    · cases hfinal
  · rcases h ▸ step_spends _ with hlt | ⟨hfinal, -⟩
    · exact hlt
    · exact absurd hfinal heof

section Equations

variable {s t : Session}

theorem directives_of_proceed (h : s.step = (t, .proceed)) :
    s.directives = s.directive?.toList ++ t.directives := by
  rw [directives, h]

theorem directives_of_emit {token : Token} (h : s.step = (t, .emit token))
    (heof : token.kind.isEof = false) :
    s.directives = s.directive?.toList ++ t.directives := by
  rw [directives, h]
  simp [heof]

theorem directives_of_final (h : s.step.2.isFinal = true) :
    s.directives = s.directive?.toList := by
  rw [directives]
  cases hstep : s.step with
  | mk t outcome =>
    rw [hstep] at h
    cases outcome with
    | proceed => cases h
    | emit token =>
      have heof : token.kind.isEof = true := h
      simp [heof]
    | fail error => simp
    | starved => simp

variable {source rest : List UInt8}

/-- Where a directive is next, its lexeme is one of its rule, and the step takes it. -/
theorem StandsBefore.directive?_eq_some {d : Directive} (h : s.StandsBefore source rest)
    (hd : s.directive? = some d) :
    d.start = s.pos.offset ∧ (∃ later, rest = d.lexeme ++ later) ∧
      firstAccepting? TokenRule.rows d.lexeme = some .lineDirective ∧
      s.step = s.actCode .lineDirective d.lexeme := by
  unfold directive? at hd
  split at hd
  · rename_i hcode
    split at hd
    · rename_i n hscan
      cases hd
      obtain ⟨lexeme, later, rfl, rfl⟩ : ∃ lexeme later, rest = lexeme ++ later ∧
          n = lexeme.length := by
        have hle := TokenRule.settles.within _ _ _ hscan
        rw [h.lookahead_eq] at hle
        refine ⟨rest.take n, rest.drop n, (List.take_append_drop n rest).symm, ?_⟩
        exact (List.length_take_of_le hle).symm
      have hlexeme : s.lookahead.bytes.take lexeme.length = lexeme := by
        rw [h.lookahead_eq, List.take_left]
      rw [h.lookahead_eq] at hscan
      refine ⟨rfl, ⟨later, by rw [hlexeme]⟩, ?_, ?_⟩
      · rw [hlexeme]
        rcases TokenRule.scan_first hscan with ⟨hrule, -⟩ | ⟨-, hfirst⟩
        · cases hrule
        · exact hfirst
      · rw [hlexeme]
        exact h.step_code lexeme hcode.1 hcode.2 hscan
    · cases hd
  · cases hd

theorem StandsBefore.directive?_of_scan {lexeme later : List UInt8}
    (h : s.StandsBefore source (lexeme ++ later)) (hmode : s.mode = .code)
    (hdecided : s.headerPending = false)
    (hscan : TokenRule.scan ⟨lexeme ++ later, true⟩ = .found .lineDirective lexeme.length) :
    s.directive? = some ⟨s.pos.offset, lexeme⟩ := by
  rw [directive?, if_pos ⟨hmode, hdecided⟩, h.lookahead_eq, hscan]
  show some (Directive.mk s.pos.offset ((lexeme ++ later).take lexeme.length)) = _
  rw [List.take_left]

end Equations

end Session

end StreamLexer
