import StreamLexer.Proofs.Scan.WordBytes

/-!
# Names

An identifier is read from its own bytes, a label from those between its mark and the colon. Here
are the lexemes of both, and what two keyword tables make of the same lexeme: `WordRule.compares`.
-/
namespace StreamLexer

/-! ## Spellings -/

/-- The bytes spell an identifier, reserved or not: one that starts an identifier, then identifier
characters. -/
def Lexeme.isIdentifier : List UInt8 → Bool
  | [] => false
  | b :: rest => (Byte.isLower b || Byte.isUpper b) && rest.all Byte.isIdent

/-- The rule of an identifier goes by its first byte. -/
def WordRule.ofFirst (b : UInt8) : WordRule :=
  if Byte.isLower b then .lower else .upper

theorem Byte.isIdent_of_start {b : UInt8} (h : (isLower b || isUpper b) = true) :
    isIdent b = true := by
  simp only [isIdent, h, Bool.true_or]

/-- The bytes that start an identifier. -/
def Byte.nameStarts : List UInt8 :=
  ((List.range 256).map UInt8.ofNat).filter fun b => isLower b || isUpper b

theorem Byte.mem_nameStarts {b : UInt8} (h : (isLower b || isUpper b) = true) :
    b ∈ nameStarts := by
  refine List.mem_filter.mpr ⟨List.mem_map.mpr ⟨b.toNat, ?_, UInt8.ofNat_toNat⟩, h⟩
  exact List.mem_range.mpr b.toNat_lt

/-! ## Their rows -/

/-- The rules of texts that start like an identifier. -/
def TokenRule.isNameLed : TokenRule → Bool
  | .word (.punct .underscore) | .word .lower | .word .upper | .word .illegalByte => true
  | _ => false

theorem TokenRule.rows_filter_isNameLed :
    rows.filter (fun row => row.1.isNameLed) =
      [(.word (.punct .underscore), Pattern.literal ['_']),
       (.word .lower, [.one Byte.isLower, .many Byte.isIdent]),
       (.word .upper, [.one Byte.isUpper, .many Byte.isIdent]),
       (.word .illegalByte, [.one fun _ => true])] := rfl

theorem Pattern.accepts_name {isStart : UInt8 → Bool} {b : UInt8} {rest : List UInt8}
    (hb : isStart b = true) (hrest : ∀ c ∈ rest, Byte.isIdent c = true) :
    Pattern.accepts [.one isStart, .many Byte.isIdent] (b :: rest) = true :=
  (Pattern.accepts_iff _ _).mpr
    ⟨b, rest, rfl, hb, rest, [], (List.append_nil rest).symm, hrest, rfl⟩

/-- A spelling other than `_` is the lexeme of an identifier. -/
theorem firstAccepting?_identifier {b : UInt8} {rest : List UInt8}
    (h : Lexeme.isIdentifier (b :: rest) = true) (hne : b :: rest ≠ ['_'.toUInt8]) :
    firstAccepting? TokenRule.rows (b :: rest) = some (.word (.ofFirst b)) := by
  obtain ⟨hb, hrest⟩ := Bool.and_eq_true_iff.mp h
  have hrest := List.all_eq_true.mp hrest
  have hrows : (TokenRule.rows.all fun row =>
      row.1.isNameLed || !row.2.canStart Byte.nameStarts) = true := by decide +kernel
  have hunderscore : ¬ Pattern.accepts (Pattern.literal ['_']) (b :: rest) = true := by
    rw [Pattern.accepts_iff, Pattern.accepts_literal]
    exact hne
  rw [firstAccepting?_of_canStart hrows (Byte.mem_nameStarts hb),
    TokenRule.rows_filter_isNameLed, firstAccepting?_cons, if_neg hunderscore,
    firstAccepting?_cons, WordRule.ofFirst]
  cases hlower : Byte.isLower b with
  | true => rw [if_pos (Pattern.accepts_name hlower hrest), if_pos rfl]
  | false =>
    have hupper : Byte.isUpper b = true := by simpa [hlower] using hb
    have hnot : ¬ Pattern.accepts [.one Byte.isLower, .many Byte.isIdent] (b :: rest) = true := by
      rw [Pattern.accepts_iff]
      rintro ⟨c, _, hsplit, hc, -⟩
      obtain ⟨rfl, -⟩ := List.cons.inj hsplit
      rw [hlower] at hc
      cases hc
    rw [if_neg hnot, firstAccepting?_cons, if_pos (Pattern.accepts_name hupper hrest),
      if_neg Bool.false_ne_true]

/-- The lexeme of an identifier is a spelling. -/
theorem Lexeme.isIdentifier_of_accepts {isStart : UInt8 → Bool}
    (hstart : ∀ b, isStart b = true → (Byte.isLower b || Byte.isUpper b) = true)
    {lexeme : List UInt8} (h : Pattern.Accepts [.one isStart, .many Byte.isIdent] lexeme) :
    isIdentifier lexeme = true := by
  obtain ⟨b, _, rfl, hb, rest, _, rfl, hrest, rfl⟩ := h
  rw [List.append_nil, isIdentifier, hstart b hb, Bool.true_and]
  exact List.all_eq_true.mpr hrest

/-! ## Labels -/

/-- The two sorts of labels: the mark in front, the rule, and the kind for a name. -/
inductive LabelSort : Char → WordRule → (String → TokenKind) → Prop
  | label : LabelSort '~' .label .label
  | optLabel : LabelSort '?' .optLabel .optLabel

/-- A name as a label: between its mark and a colon. -/
def Lexeme.asLabel (mark : Char) (name : List UInt8) : List UInt8 :=
  mark.toUInt8 :: (name ++ [':'.toUInt8])

theorem Lexeme.inner_asLabel (mark : Char) (name : List UInt8) :
    inner (asLabel mark name) = name := by
  rw [inner, asLabel, List.drop_one, List.tail_cons, List.dropLast_concat]

/-- A label is rejected where its name is reserved. -/
theorem LabelSort.read_eq {mark : Char} {rule : WordRule} {make : String → TokenKind}
    (h : LabelSort mark rule make) (keywords : KeywordTable) (lexeme : List UInt8) :
    rule.read keywords lexeme =
      if keywords.isReserved (Latin1.decode (Lexeme.inner lexeme)) then
        .error (.keywordAsLabel (Latin1.decode (Lexeme.inner lexeme)))
      else .ok (make (Latin1.decode (Lexeme.inner lexeme))) := by
  cases h <;> rfl

/-- A small identifier between the mark of a label and a colon is a label. -/
theorem firstAccepting?_label {mark : Char} {rule : WordRule} {make : String → TokenKind}
    (hsort : LabelSort mark rule make) {b : UInt8} {rest : List UInt8}
    (hb : Byte.isLower b = true) (hrest : ∀ c ∈ rest, Byte.isIdent c = true) :
    firstAccepting? TokenRule.rows (Lexeme.asLabel mark (b :: rest)) = some (.word rule) := by
  have haccepts : Pattern.accepts [.one Byte.isLower, .many Byte.isIdent, .char ':']
      (b :: (rest ++ [':'.toUInt8])) = true :=
    (Pattern.accepts_iff _ _).mpr
      ⟨b, _, rfl, hb, rest, _, rfl, hrest, ':'.toUInt8, [], rfl, rfl, rfl⟩
  have hempty : ¬ Pattern.accepts [] (b :: (rest ++ [':'.toUInt8])) = true := by
    rw [Pattern.accepts_iff]
    exact List.cons_ne_nil _ _
  rw [Lexeme.asLabel, List.cons_append]
  cases hsort with
  | label =>
    have hrows : rowsAfter '~'.toUInt8 TokenRule.rows =
        [(.word (.punct .tilde), []),
         (.word .label, [.one Byte.isLower, .many Byte.isIdent, .char ':']),
         (.word (.operator .prefixOp), [.one Byte.isSymbol, .many Byte.isSymbol]),
         (.word .illegalByte, [])] := rfl
    rw [firstAccepting?_rowsAfter, hrows, firstAccepting?_cons, if_neg hempty,
      firstAccepting?_cons, if_pos haccepts]
  | optLabel =>
    have hrows : rowsAfter '?'.toUInt8 TokenRule.rows =
        [(.word (.punct .question), []),
         (.word (.punct .questionQuestion), Pattern.literal ['?']),
         (.word .optLabel, [.one Byte.isLower, .many Byte.isIdent, .char ':']),
         (.word (.operator .prefixOp), [.one Byte.isSymbol, .many Byte.isSymbol]),
         (.word .illegalByte, [])] := rfl
    have hquestion : ¬ Pattern.accepts (Pattern.literal ['?']) (b :: (rest ++ [':'.toUInt8])) =
        true := by
      rw [Pattern.accepts_iff, Pattern.accepts_literal]
      simp
    rw [firstAccepting?_rowsAfter, hrows, firstAccepting?_cons, if_neg hempty,
      firstAccepting?_cons, if_neg hquestion, firstAccepting?_cons, if_pos haccepts]

/-! ## Two tables -/

namespace WordRule

/-- A label that the one table rejects, since it reserves the name, and the other lets pass. -/
structure Rejects (strict lax : KeywordTable) (rule : WordRule) (lexeme : List UInt8)
    (name : String) (kind : TokenKind) : Prop where
  reserved : strict.isReserved name = true
  free : lax.isReserved name = false
  names : kind = .label name ∨ kind = .optLabel name
  fails : rule.read strict lexeme = .error (.keywordAsLabel name)
  passes : rule.read lax lexeme = .ok kind

/-- What two tables make of the same lexeme. -/
inductive Compares (first second : KeywordTable) (rule : WordRule) (lexeme : List UInt8) : Prop
  | same (read : rule.read second lexeme = rule.read first lexeme)
  | named {a b : TokenKind} (identifier : Lexeme.isIdentifier lexeme = true)
      (readsFirst : rule.read first lexeme = .ok a) (readsSecond : rule.read second lexeme = .ok b)
  | left {name : String} {kind : TokenKind} (rejects : Rejects first second rule lexeme name kind)
  | right {name : String} {kind : TokenKind} (rejects : Rejects second first rule lexeme name kind)

theorem compares_label {mark : Char} {rule : WordRule} {make : String → TokenKind}
    (hsort : LabelSort mark rule make) (first second : KeywordTable) (lexeme : List UInt8) :
    rule.Compares first second lexeme := by
  have hleft := hsort.read_eq first lexeme
  have hright := hsort.read_eq second lexeme
  generalize Latin1.decode (Lexeme.inner lexeme) = name at hleft hright
  have hmake : make name = .label name ∨ make name = .optLabel name := by
    cases hsort
    · exact .inl rfl
    · exact .inr rfl
  cases hfirst : first.isReserved name <;> cases hsecond : second.isReserved name <;>
    simp only [hfirst, hsecond, if_true, Bool.false_eq_true, if_false] at hleft hright
  · exact .same (hright.trans hleft.symm)
  · exact .right ⟨hsecond, hfirst, hmake, hright, hleft⟩
  · exact .left ⟨hfirst, hsecond, hmake, hleft, hright⟩
  · exact .same (hright.trans hleft.symm)

/-- Two tables read a lexeme in the same way, but for the kind of an identifier and for a label
whose name only one of them reserves. -/
theorem compares {rule : WordRule} {lexeme : List UInt8}
    (h : firstAccepting? TokenRule.rows lexeme = some (.word rule)) (first second : KeywordTable) :
    rule.Compares first second lexeme := by
  cases rule with
  | lower =>
    obtain ⟨p, hp, haccepts⟩ := exists_patternsOf h
    obtain rfl := List.mem_singleton.mp hp
    refine .named (Lexeme.isIdentifier_of_accepts ?_ haccepts) rfl rfl
    exact fun b hb => by rw [hb, Bool.true_or]
  | upper =>
    obtain ⟨p, hp, haccepts⟩ := exists_patternsOf h
    obtain rfl := List.mem_singleton.mp hp
    refine .named (Lexeme.isIdentifier_of_accepts ?_ haccepts) rfl rfl
    exact fun b hb => by rw [hb, Bool.or_true]
  | label => exact compares_label .label first second lexeme
  | optLabel => exact compares_label .optLabel first second lexeme
  | _ => exact .same rfl

end WordRule

end StreamLexer
