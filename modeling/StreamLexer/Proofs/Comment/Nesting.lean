import Mathlib.Logic.Relation
import StreamLexer.Proofs.Comment.Strings

/-!
# Nested comments

What a session makes of a comment is what the recursive reader finds: the same end, the same text,
or the same construct that lacks an end. The nesting that the reader has in its recursion, the
session has in its list of open comments; `StandsBefore.comment` keeps the two level along the
reader.
-/
namespace StreamLexer

open Reader (Reading after? afterCharLiteral? quotedOpener? commentOpener? readComment)

namespace Session

/-- The answer to a request for a token that a reading calls for, with `before` as the text of the
comment so far: the comment, which ends where the session then stands, or the error for what lacks
an end. -/
def AnswersComment (source : List UInt8) (outer : Span) (before : List UInt8)
    (answer : Session × Poll LexError Token) : Reading → Prop
  | .closed text rest =>
    answer.2 = .done ⟨.comment (Latin1.decode (before ++ text)), ⟨outer.start, answer.1.pos⟩⟩ ∧
      answer.1.StandsBefore source rest ∧ answer.1.mode = .code
  | .unclosed depth => answer.2 = .failed (.unterminatedComment outer depth)
  | .unclosedString depth opener rest =>
    ∃ span : Span, span.start.offset + opener.length = span.stop.offset ∧
      span.stop.offset + rest.length = source.length ∧
      answer.2 = .failed (.unterminatedStringInComment outer span depth)

section Comments

variable {s : Session} {source stored : List UInt8} {c : OpenComment}

theorem answersComment_prepend {outer : Span} {before joined : List UInt8}
    {answer : Session × Poll LexError Token} {reading : Reading}
    (h : AnswersComment source outer (before ++ joined) answer reading) :
    AnswersComment source outer before answer (reading.prepend joined) := by
  cases reading with
  | closed text rest =>
    obtain ⟨hanswer, hstands⟩ := h
    exact ⟨by rw [hanswer, List.append_assoc], hstands⟩
  | unclosed depth => exact h
  | unclosedString depth opener rest => exact h

/-- What is read after some bytes of the comment have joined its text. -/
theorem ReadsTo.answersComment {outer : Span} (joined : List UInt8) {rest : List UInt8}
    {reading : Reading} (h : s.ReadsTo source rest (.comment c (joined.reverse ++ stored)))
    (hread : ∀ t : Session, t.StandsBefore source rest →
      t.mode = .comment c (joined.reverse ++ stored) →
      AnswersComment source outer (joined.reverse ++ stored).reverse t.run reading) :
    AnswersComment source outer stored.reverse s.run (reading.prepend joined) := by
  obtain ⟨t, hrun, hstands, hmode⟩ := h
  rw [hrun]
  refine answersComment_prepend ?_
  simpa using hread t hstands hmode

/-! ## The bytes of a comment -/

/-- Where the scan finds no rule, the first byte joins the text. -/
theorem StandsBefore.commentPlain {b : UInt8} {rest : List UInt8}
    (h : s.StandsBefore source (b :: rest)) (hmode : s.mode = .comment c stored)
    (hscan : CommentRule.scan ⟨b :: rest, true⟩ = .found .plain 1) :
    s.ReadsTo source rest (.comment c (b :: stored)) :=
  .of_step (h.step_comment [b] hmode hscan) (h.advance [b] rfl rfl) rfl

/-- A byte of a comment that the reader takes by itself. -/
theorem StandsBefore.commentByte {b : UInt8} {rest : List UInt8}
    (h : s.StandsBefore source (b :: rest)) (hmode : s.mode = .comment c stored)
    (hopen : ¬(b == '('.toUInt8 && rest.head? == some '*'.toUInt8) = true)
    (hclose : ¬(b == '*'.toUInt8 && rest.head? == some ')'.toUInt8) = true)
    (hstring : ¬(b == '"'.toUInt8) = true) (hquoted : quotedOpener? (b :: rest) = none)
    (hchar : afterCharLiteral? (b :: rest) = none) :
    s.ReadsTo source rest (.comment c (b :: stored)) := by
  by_cases hstop : Byte.isCommentStop b = true
  · -- a byte that starts a rule but completes none is content, like a plain one
    by_cases hline : Byte.isLineEnd b = true
    · have hcontent := h.content (by simp [hmode, Mode.comment?]) (.inr hline)
      rwa [hmode] at hcontent
    · refine h.commentPlain hmode ?_
      obtain rfl | rfl | rfl | rfl : b = '('.toUInt8 ∨ b = '*'.toUInt8 ∨ b = '\x7b'.toUInt8 ∨
          b = '\''.toUInt8 := by
        simp [Byte.isCommentStop, Byte.isLineEnd, Byte.isAny] at hstop hline hstring ⊢
        tauto
      · rw [CommentRule.scan_open, if_neg (by simpa using hopen)]
      · rw [CommentRule.scan_star, if_neg (by simpa using hclose)]
      · rw [CommentRule.scan_brace, hquoted]
      · have hafter : Reader.afterChar? rest = none := by
          rwa [afterCharLiteral?, after?_cons] at hchar
        rw [CommentRule.scan_quote, hafter]
  · have hplain : s.mode.isPlain b = true := by simp [hmode, Mode.isPlain, hstop]
    have hcontent := h.content (by simp [hmode, Mode.comment?]) (.inl hplain)
    rwa [hmode] at hcontent

/-- A character literal joins the text as it stands. -/
theorem StandsBefore.charLiteral {bytes next : List UInt8} (h : s.StandsBefore source bytes)
    (hmode : s.mode = .comment c stored) (hchar : afterCharLiteral? bytes = some next) :
    s.ReadsTo source next
      (.comment c ((bytes.take (bytes.length - next.length)).reverse ++ stored)) := by
  obtain ⟨rest, hquote, hafter⟩ := Option.bind_eq_some_iff.mp hchar
  obtain rfl := Reader.after?_eq_some_iff.mp hquote
  obtain ⟨lexeme, hlexeme⟩ := (afterChar?_suffix hafter).trans
    (List.suffix_append (['\''].map Char.toUInt8) rest)
  have hbytes : '\''.toUInt8 :: rest = lexeme ++ next := hlexeme.symm
  have hcount : (lexeme ++ next).length - next.length = lexeme.length := by simp
  have hscan := CommentRule.scan_quote rest
  rw [hafter, hbytes] at hscan
  dsimp only at hscan
  rw [hcount] at hscan
  rw [← hlexeme] at h ⊢
  rw [hcount, List.take_left]
  split at hscan
  · exact .of_step (h.step_comment lexeme hmode hscan) (h.advance lexeme rfl rfl) rfl
  · exact .of_step (h.step_comment lexeme hmode hscan) (h.advance lexeme rfl rfl) rfl

theorem StandsBefore.enterNested {rest : List UInt8}
    (h : s.StandsBefore source ('('.toUInt8 :: '*'.toUInt8 :: rest))
    (hmode : s.mode = .comment c stored) :
    s.ReadsTo source rest
      (.comment { c with inner := ⟨s.pos, s.pos.shifted 2⟩ :: c.inner }
        ('*'.toUInt8 :: '('.toUInt8 :: stored)) :=
  .of_step (h.step_comment ['('.toUInt8, '*'.toUInt8] hmode (CommentRule.scan_open _))
    (h.advance ['('.toUInt8, '*'.toUInt8] rfl rfl) rfl

theorem StandsBefore.leaveNested {rest : List UInt8} {opener : Span} {inner : List Span}
    (h : s.StandsBefore source ('*'.toUInt8 :: ')'.toUInt8 :: rest))
    (hmode : s.mode = .comment c stored) (hinner : c.inner = opener :: inner) :
    s.ReadsTo source rest (.comment { c with inner } (')'.toUInt8 :: '*'.toUInt8 :: stored)) := by
  have hstep := h.step_comment ['*'.toUInt8, ')'.toUInt8] hmode (CommentRule.scan_star _)
  simp only [actComment, hinner] at hstep
  exact .of_step hstep (h.advance ['*'.toUInt8, ')'.toUInt8] rfl rfl) rfl

/-- The last `*)` ends the comment. -/
theorem StandsBefore.leaveComment {rest : List UInt8}
    (h : s.StandsBefore source ('*'.toUInt8 :: ')'.toUInt8 :: rest))
    (hmode : s.mode = .comment c stored) (hinner : c.inner = []) :
    AnswersComment source c.outer stored.reverse s.run (.closed [] rest) := by
  have hstep := h.step_comment ['*'.toUInt8, ')'.toUInt8] hmode (CommentRule.scan_star _)
  simp only [actComment, hinner] at hstep
  rw [run_of_emit hstep]
  exact ⟨by simp, h.advance ['*'.toUInt8, ')'.toUInt8] rfl rfl, rfl⟩

theorem StandsBefore.enterString {rest : List UInt8}
    (h : s.StandsBefore source ('"'.toUInt8 :: rest)) (hmode : s.mode = .comment c stored) :
    s.ReadsTo source rest
      (.string ⟨⟨s.pos, s.pos.shifted 1⟩, none, some c⟩ ('"'.toUInt8 :: stored)) :=
  .of_step (h.step_comment ['"'.toUInt8] hmode (CommentRule.scan_doubleQuote rest))
    (h.advance ['"'.toUInt8] rfl rfl) rfl

theorem StandsBefore.enterQuoted {bytes id body : List UInt8} (h : s.StandsBefore source bytes)
    (hmode : s.mode = .comment c stored) (hopener : quotedOpener? bytes = some (id, body)) :
    s.ReadsTo source body
      (.string ⟨⟨s.pos, s.pos.shifted (id.length + 2)⟩, some id, some c⟩
        ('|'.toUInt8 :: id.reverse ++ '\x7b'.toUInt8 :: stored)) := by
  have hbytes : bytes = ('\x7b'.toUInt8 :: id ++ ['|'.toUInt8]) ++ body := by
    rw [(Reader.quotedOpener?_eq_some hopener).1]
    simp
  have hscan : CommentRule.scan ⟨('\x7b'.toUInt8 :: id ++ ['|'.toUInt8]) ++ body, true⟩ =
      .found .quotedOpen ('\x7b'.toUInt8 :: id ++ ['|'.toUInt8]).length := by
    have hscan := CommentRule.scan_brace (id ++ ['|'.toUInt8] ++ body)
    have hcons : '\x7b'.toUInt8 :: (id ++ ['|'.toUInt8] ++ body) = bytes := hbytes.symm
    rw [hcons, hopener] at hscan
    rw [← hbytes, hscan]
    simp
  rw [hbytes] at h
  have hinner : Lexeme.inner ('\x7b'.toUInt8 :: id ++ ['|'.toUInt8]) = id := by
    simp [Lexeme.inner]
  have hstep := h.step_comment ('\x7b'.toUInt8 :: id ++ ['|'.toUInt8]) hmode hscan
  simp only [actComment, hinner] at hstep
  refine .of_step hstep (h.advance ('\x7b'.toUInt8 :: id ++ ['|'.toUInt8]) rfl rfl) ?_
  simp

/-- What a string that the comment goes on behind adds to its text. -/
theorem ReadsTo.throughString {o : OpenString} {stored' terminator text rest next : List UInt8}
    {read : Option (List UInt8 × List UInt8)} (h : s.ReadsTo source rest (.string o stored'))
    (hends : ∀ t : Session, t.StandsBefore source rest → t.mode = .string o stored' →
      t.EndsString source o c stored' terminator read) (hread : read = some (text, next)) :
    s.ReadsTo source next (.comment c (terminator.reverse ++ (text.reverse ++ stored'))) := by
  have hstring := EndsString.of_readsTo h hends
  rwa [hread] at hstring

theorem ReadsTo.withoutEnd {o : OpenString} {stored' terminator rest : List UInt8}
    {read : Option (List UInt8 × List UInt8)} (h : s.ReadsTo source rest (.string o stored'))
    (hends : ∀ t : Session, t.StandsBefore source rest → t.mode = .string o stored' →
      t.EndsString source o c stored' terminator read) (hread : read = none) :
    s.run.2 = .failed (.unterminatedStringInComment c.outer o.opener c.depth) := by
  have hstring := EndsString.of_readsTo h hends
  rwa [hread] at hstring

theorem StandsBefore.comment {bytes : List UInt8} (h : s.StandsBefore source bytes)
    (hmode : s.mode = .comment c stored) :
    AnswersComment source c.outer stored.reverse s.run (readComment c.inner.length bytes) := by
  -- openers push on the list of open comments and closers pop it, so the list is general too
  generalize hinner : c.inner.length = inner
  fun_induction readComment inner bytes generalizing s c stored with
  | case1 inner =>
    have hstep := h.step_comment [] hmode rfl
    show s.run.2 = _
    rw [run_of_fail hstep, OpenComment.depth, hinner]
  | case2 inner b rest hopen ih =>
    obtain ⟨rfl, hstar⟩ : b = '('.toUInt8 ∧ rest.head? = some '*'.toUInt8 := by simpa using hopen
    obtain ⟨tail, rfl⟩ := List.head?_eq_some_iff.mp hstar
    refine ReadsTo.answersComment ['('.toUInt8, '*'.toUInt8] (h.enterNested hmode) ?_
    intro t ht hmode'
    have hlevel : ((⟨s.pos, s.pos.shifted 2⟩ : Span) :: c.inner).length = inner + 1 := by
      simp [hinner]
    have hanswer := ih ht hmode' hlevel
    exact hanswer
  | case3 b rest hopen hclose =>
    obtain ⟨rfl, hparen⟩ : b = '*'.toUInt8 ∧ rest.head? = some ')'.toUInt8 := by simpa using hclose
    obtain ⟨tail, rfl⟩ := List.head?_eq_some_iff.mp hparen
    exact h.leaveComment hmode (List.length_eq_zero_iff.mp hinner)
  | case4 b rest hopen hclose inner ih =>
    obtain ⟨rfl, hparen⟩ : b = '*'.toUInt8 ∧ rest.head? = some ')'.toUInt8 := by simpa using hclose
    obtain ⟨tail, rfl⟩ := List.head?_eq_some_iff.mp hparen
    obtain ⟨opener, spans, hspans⟩ := List.exists_cons_of_length_eq_add_one hinner
    refine ReadsTo.answersComment ['*'.toUInt8, ')'.toUInt8] (h.leaveNested hmode hspans) ?_
    intro t ht hmode'
    have hlevel : spans.length = inner := by simpa [hspans] using hinner
    have hanswer := ih ht hmode' hlevel
    exact hanswer
  | case5 inner b rest hopen hclose hquote text next hstring ih =>
    obtain rfl := eq_of_beq hquote
    have hread := (h.enterString hmode).throughString
      (fun t ht hmode' => ht.string hmode' rfl rfl) hstring
    have htext : ['"'.toUInt8].reverse ++ (text.reverse ++ '"'.toUInt8 :: stored) =
        ('"'.toUInt8 :: text ++ ['"'.toUInt8]).reverse ++ stored := by simp
    rw [htext] at hread
    refine ReadsTo.answersComment _ hread ?_
    intro t ht hmode'
    exact ih ht hmode' hinner
  | case6 inner b rest hopen hclose hquote hstring =>
    obtain rfl := eq_of_beq hquote
    have hread := (h.enterString hmode).withoutEnd
      (fun t ht hmode' => ht.string hmode' rfl rfl) hstring
    have hlength := h.offset_add
    refine ⟨⟨s.pos, s.pos.shifted 1⟩, rfl, ?_, ?_⟩
    · simp only [List.length_cons] at hlength
      simp only [Position.shifted]
      omega
    · rw [hread, OpenComment.depth, hinner]
  | case7 inner b rest hopen hclose hquote id body hopener text next hquoted ih =>
    obtain ⟨hbytes, hid⟩ := Reader.quotedOpener?_eq_some hopener
    obtain ⟨rfl, -⟩ := List.cons.inj hbytes
    have hread := (h.enterQuoted hmode hopener).throughString
      (fun t ht hmode' => ht.quotedString hmode' rfl hid rfl) hquoted
    have htext : (terminatorOf id).reverse ++
          (text.reverse ++ ('|'.toUInt8 :: id.reverse ++ '\x7b'.toUInt8 :: stored)) =
        ('\x7b'.toUInt8 :: id ++ '|'.toUInt8 :: text ++ '|'.toUInt8 :: id ++
          ['\x7d'.toUInt8]).reverse ++ stored := by simp [terminatorOf]
    rw [htext] at hread
    refine ReadsTo.answersComment _ hread ?_
    intro t ht hmode'
    exact ih ht hmode' hinner
  | case8 inner b rest hopen hclose hquote id body hopener hquoted =>
    obtain ⟨hbytes, hid⟩ := Reader.quotedOpener?_eq_some hopener
    have hread := (h.enterQuoted hmode hopener).withoutEnd
      (fun t ht hmode' => ht.quotedString hmode' rfl hid rfl) hquoted
    have hlength := h.offset_add
    refine ⟨⟨s.pos, s.pos.shifted (id.length + 2)⟩, ?_, ?_, ?_⟩
    · simp [Position.shifted]
    · rw [hbytes] at hlength
      simp only [List.length_append, List.length_cons] at hlength
      simp only [Position.shifted]
      omega
    · rw [hread, OpenComment.depth, hinner]
  | case9 inner b rest hopen hclose hquote hopener next hchar ih =>
    refine ReadsTo.answersComment _ (h.charLiteral hmode hchar) ?_
    intro t ht hmode'
    exact ih ht hmode' hinner
  | case10 inner b rest hopen hclose hquote hopener hchar ih =>
    refine ReadsTo.answersComment [b] (h.commentByte hmode hopen hclose hquote hopener hchar) ?_
    intro t ht hmode'
    exact ih ht hmode' hinner

end Comments

/-! ## Openers -/

section Openers

variable {s : Session} {source bytes body : List UInt8} {n : Nat}

theorem StandsBefore.step_code (lexeme : List UInt8) {rest : List UInt8} {rule : TokenRule}
    (h : s.StandsBefore source (lexeme ++ rest)) (hmode : s.mode = .code)
    (hheader : s.headerPending = false)
    (hscan : TokenRule.scan ⟨lexeme ++ rest, true⟩ = .found rule lexeme.length) :
    s.step = s.actCode rule lexeme := by
  simp only [step, stepOn, hmode, hheader, h.lookahead_eq, hscan, onFound, List.take_left]
  rfl

/-- Source code meets the opener of a comment. -/
theorem StandsBefore.openComment (h : s.StandsBefore source bytes) (hmode : s.mode = .code)
    (hheader : s.headerPending = false) (hopener : commentOpener? bytes = some (n, body)) :
    s.ReadsTo source body (.comment { outer := ⟨s.pos, s.pos.shifted n⟩ } []) := by
  obtain ⟨rest, rfl, ⟨rfl, hparen⟩ | ⟨rfl, hparen, rfl⟩⟩ := Reader.commentOpener?_eq_some hopener
  · have hscan := TokenRule.scan_commentOpen rest
    rw [hparen] at hscan
    obtain rfl := Reader.after?_eq_some_iff.mp hparen
    have hstep := h.step_code ['('.toUInt8, '*'.toUInt8, ')'.toUInt8] hmode hheader hscan
    exact .of_step hstep (h.advance ['('.toUInt8, '*'.toUInt8, ')'.toUInt8] rfl rfl) rfl
  · have hscan := TokenRule.scan_commentOpen rest
    rw [hparen] at hscan
    have hstep := h.step_code ['('.toUInt8, '*'.toUInt8] hmode hheader hscan
    exact .of_step hstep (h.advance ['('.toUInt8, '*'.toUInt8] rfl rfl) rfl

/-- So it does at the start of the source, where there is still the header to decide about. -/
theorem StandsBefore.meetComment (h : s.StandsBefore source bytes) (hmode : s.mode = .code)
    (hopener : commentOpener? bytes = some (n, body)) :
    s.ReadsTo source body (.comment { outer := ⟨s.pos, s.pos.shifted n⟩ } []) := by
  by_cases hheader : s.headerPending = true
  · obtain ⟨rest, rfl, -⟩ := Reader.commentOpener?_eq_some hopener
    have hstep : s.step = s.onFound (.found .absent 0) s.actHeader := by
      simp only [step, stepOn, hmode, hheader, h.lookahead_eq, HeaderRule.scan_absent, if_true]
    have hdecided : StandsBefore { s with headerPending := false } source _ := h.advance [] rfl rfl
    obtain ⟨t, hrun, ht⟩ := hdecided.openComment hmode rfl hopener
    exact ⟨t, (run_of_proceed hstep).trans hrun, ht⟩
  · exact h.openComment hmode (by simpa using hheader) hopener

end Openers

/-! ## Requests -/

/-- The session comes to stand there by steps that make no token. -/
def Proceeds (s t : Session) : Prop :=
  Relation.ReflTransGen (fun s t => s.step = (t, .proceed)) s t

theorem Proceeds.run_eq {s t : Session} (h : s.Proceeds t) : s.run = t.run := by
  induction h with
  | refl => rfl
  | tail _ hstep ih => rw [ih, run_of_proceed hstep]

theorem answersComment_next {s : Session} {source before : List UInt8} {outer : Span}
    {reading : Reading} (h : AnswersComment source outer before s.run reading) :
    AnswersComment source outer before s.next reading := by
  unfold next
  split
  · rename_i t error hrun
    rw [hrun] at h
    cases reading with
    | closed text rest => cases h.1
    | unclosed depth => exact h
    | unclosedString depth opener rest => exact h
  · exact h

/-- Where source code meets the opener of a comment, the request for a token is answered by what the
recursive reader finds behind the opener. -/
theorem next_answers_comment {s t : Session} {source body : List UInt8} {n : Nat}
    (hreach : s.Proceeds t) (hwindow : t.window = .ofSource source) (hmode : t.mode = .code)
    (hopener : commentOpener? (source.drop t.pos.offset) = some (n, body)) :
    AnswersComment source ⟨t.pos, t.pos.shifted n⟩ [] s.next (readComment 0 body) := by
  have hoffset : t.pos.offset ≤ source.length := by
    by_contra hpast
    rw [List.drop_eq_nil_of_le (by omega)] at hopener
    cases hopener
  -- from the start of the request to the opener, over it, and through the comment
  obtain ⟨u, hrun, hstands, hmode'⟩ := (standsBefore_drop hwindow hoffset).meetComment hmode hopener
  refine answersComment_next ?_
  rw [hreach.run_eq, hrun]
  exact hstands.comment hmode'

/-- A blank before a comment, in which a comment, a string with a mark in it and a character literal
stand. -/
theorem next_answers_comment_blank :
    let source := " (*(*\"*)\\065\"*)'\"'*)".toList.map Char.toUInt8
    let s := Session.ofSource {} source
    let t : Session := { s with pos := s.pos.shifted 1, headerPending := false }
    let body := source.drop 3
    s.Proceeds t ∧ t.window = .ofSource source ∧ t.mode = .code ∧
      commentOpener? (source.drop t.pos.offset) = some (2, body) ∧
      AnswersComment source ⟨t.pos, t.pos.shifted 2⟩ [] s.next
        (.closed ("(*\"*)A\"*)'\"'".toList.map Char.toUInt8) []) := by
  intro source s t body
  have hreach : s.Proceeds t := .tail (.single (b := { s with headerPending := false }) rfl) rfl
  have hopener : commentOpener? (source.drop t.pos.offset) = some (2, body) := by decide +kernel
  have hread : readComment 0 body =
      .closed ("(*\"*)A\"*)'\"'".toList.map Char.toUInt8) [] := by decide +kernel
  refine ⟨hreach, rfl, rfl, hopener, ?_⟩
  rw [← hread]
  exact next_answers_comment hreach rfl rfl hopener

end Session

end StreamLexer
