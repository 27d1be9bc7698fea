import Mathlib.Data.List.Infix
import StreamLexer.Command.Options

/-!
# The items of an argument list

The arguments of a dump are a row of items: options with their values, flags and paths. An option
may be one argument with its value, or stand before it. `Splits` says which items an argument list
is made of. What is no good is an item too: an option that does not exist, and one that lacks its
value at the very end. So every argument list splits into items, `exists_splits`, and into no
others, `Splits.unique`.

`readAll_eq` says that reading arguments is reading their items one after the other.
-/
namespace StreamLexer.Options

/-- An option that takes a value. -/
inductive ValueOption where
  | chunk
  | fileName
  deriving DecidableEq

/-- How the option is written. -/
def ValueOption.spelling : ValueOption → String
  | .chunk => "--chunk"
  | .fileName => "--file-name"

/-- A part of an argument list. -/
inductive Item where
  | option (o : ValueOption) (value : String)
  | noComments
  | noColor
  | path (path : String)
  /-- It starts with a dash and is no option. -/
  | unknown (arg : String)
  /-- An option at the very end, without a value. -/
  | dangling (o : ValueOption)
  deriving DecidableEq

/-! ## How items are written -/

/-- The argument starts with a dash and is no option, neither with a value nor without. -/
structure IsUnknown (arg : String) : Prop where
  dash : arg.toList.head? = some '-'
  separate : ∀ o : ValueOption, arg ≠ o.spelling
  joined : ∀ (o : ValueOption) (value : String), arg ≠ o.spelling ++ "=" ++ value
  noComments : arg ≠ "--no-comments"
  noColor : arg ≠ "--no-color"

/-- The argument is the item, all by itself. -/
inductive Written : String → Item → Prop
  | joined (o : ValueOption) (value : String) :
      Written (o.spelling ++ "=" ++ value) (.option o value)
  | noComments : Written "--no-comments" .noComments
  | noColor : Written "--no-color" .noColor
  | path {arg : String} (h : arg.toList.head? ≠ some '-') : Written arg (.path arg)
  | unknown {arg : String} (h : IsUnknown arg) : Written arg (.unknown arg)

/-- The argument list is made of the items, in order. The value of an option is the next argument,
whatever that looks like. -/
inductive Splits : List String → List Item → Prop
  | done : Splits [] []
  | separate {args : List String} {items : List Item} (o : ValueOption) (value : String)
      (rest : Splits args items) : Splits (o.spelling :: value :: args) (.option o value :: items)
  | single {arg : String} {item : Item} {args : List String} {items : List Item}
      (h : Written arg item) (rest : Splits args items) : Splits (arg :: args) (item :: items)
  | dangling (o : ValueOption) : Splits [o.spelling] [.dangling o]

theorem valueAfter?_eq_some_iff {option arg value : String} :
    valueAfter? option arg = some value ↔ arg = option ++ value := by
  rw [valueAfter?, Option.map_eq_some_iff, ← String.toList_inj, String.toList_append]
  constructor
  · rintro ⟨rest, hrest, rfl⟩
    rw [String.toList_ofList, List.isPrefixOf?_eq_some_iff_append_eq.mp hrest]
  · intro h
    exact ⟨value.toList, List.isPrefixOf?_eq_some_iff_append_eq.mpr h.symm, String.ofList_toList⟩

/-- The item that an argument is by itself. -/
def Item.ofArgument (arg : String) : Item :=
  if arg = "--no-comments" then .noComments
  else if arg = "--no-color" then .noColor
  else
    match valueAfter? "--chunk=" arg with
    | some text => .option .chunk text
    | none =>
      match valueAfter? "--file-name=" arg with
      | some name => .option .fileName name
      | none => if arg.toList.head? = some '-' then .unknown arg else .path arg

section Written

variable {arg : String} {item : Item}

theorem Written.ne_spelling (h : Written arg item) (o : ValueOption) : arg ≠ o.spelling := by
  cases h with
  | joined o' value =>
    intro heq
    have hvalue := valueAfter?_eq_some_iff.mpr heq.symm
    cases o <;> cases o' <;> cases hvalue
  | noComments => cases o <;> decide
  | noColor => cases o <;> decide
  | path h =>
    rintro rfl
    cases o <;> exact h rfl
  | unknown h => exact h.separate o

theorem valueAfter?_eq_none_iff {option : String} :
    valueAfter? option arg = none ↔ ∀ value, arg ≠ option ++ value := by
  simp only [Option.eq_none_iff_forall_ne_some, ne_eq, valueAfter?_eq_some_iff]

theorem head?_joined (o : ValueOption) (value : String) :
    (o.spelling ++ "=" ++ value).toList.head? = some '-' := by
  cases o <;> simp [ValueOption.spelling, String.toList_append]

/-- An option with its value is no flag, and no option of another name. -/
theorem ofArgument_joined (o : ValueOption) (value : String) :
    Item.ofArgument (o.spelling ++ "=" ++ value) = .option o value := by
  have hvalue := valueAfter?_eq_some_iff.mpr (Eq.refl (o.spelling ++ "=" ++ value))
  generalize o.spelling ++ "=" ++ value = arg at hvalue ⊢
  have hcomments : arg ≠ "--no-comments" := by
    rintro rfl
    cases o <;> cases hvalue
  have hcolor : arg ≠ "--no-color" := by
    rintro rfl
    cases o <;> cases hvalue
  rw [Item.ofArgument, if_neg hcomments, if_neg hcolor]
  cases o with
  | chunk =>
    have hchunk : valueAfter? "--chunk=" arg = some value := hvalue
    rw [hchunk]
  | fileName =>
    have hname : valueAfter? "--file-name=" arg = some value := hvalue
    have hchunk : valueAfter? "--chunk=" arg = none := by
      rw [valueAfter?_eq_none_iff, valueAfter?_eq_some_iff.mp hname]
      intro text heq
      have hheads := congrArg (fun s => s.toList.take 3) heq
      simp at hheads
    rw [hchunk, hname]

theorem ofArgument_other (hcomments : arg ≠ "--no-comments") (hcolor : arg ≠ "--no-color")
    (hjoined : ∀ (o : ValueOption) (value : String), arg ≠ o.spelling ++ "=" ++ value) :
    Item.ofArgument arg = if arg.toList.head? = some '-' then .unknown arg else .path arg := by
  have hchunk : valueAfter? "--chunk=" arg = none := valueAfter?_eq_none_iff.mpr (hjoined .chunk)
  have hname : valueAfter? "--file-name=" arg = none :=
    valueAfter?_eq_none_iff.mpr (hjoined .fileName)
  rw [Item.ofArgument, if_neg hcomments, if_neg hcolor, hchunk, hname]

theorem Written.eq_ofArgument (h : Written arg item) : item = .ofArgument arg := by
  cases h with
  | joined o value => exact (ofArgument_joined o value).symm
  | noComments => rfl
  | noColor => rfl
  | path h =>
    rw [ofArgument_other, if_neg h]
    · rintro rfl
      exact h rfl
    · rintro rfl
      exact h rfl
    · rintro o value rfl
      exact h (head?_joined o value)
  | unknown h => rw [ofArgument_other h.noComments h.noColor h.joined, if_pos h.dash]

theorem written_ofArgument (h : ∀ o : ValueOption, arg ≠ o.spelling) :
    Written arg (.ofArgument arg) := by
  by_cases hcomments : arg = "--no-comments"
  · subst hcomments
    exact .noComments
  by_cases hcolor : arg = "--no-color"
  · subst hcolor
    exact .noColor
  by_cases hjoined : ∃ (o : ValueOption) (value : String), arg = o.spelling ++ "=" ++ value
  · obtain ⟨o, value, rfl⟩ := hjoined
    rw [ofArgument_joined]
    exact .joined o value
  push Not at hjoined
  rw [ofArgument_other hcomments hcolor hjoined]
  by_cases hdash : arg.toList.head? = some '-'
  · rw [if_pos hdash]
    exact .unknown ⟨hdash, h, hjoined, hcomments, hcolor⟩
  · rw [if_neg hdash]
    exact .path hdash

end Written

/-! ## Splitting -/

/-- Every argument list is a row of items. -/
theorem exists_splits (args : List String) : ∃ items, Splits args items := by
  match args with
  | [] => exact ⟨[], .done⟩
  | arg :: args =>
    by_cases hoption : ∃ o : ValueOption, arg = o.spelling
    · obtain ⟨o, rfl⟩ := hoption
      match args with
      | [] => exact ⟨_, .dangling o⟩
      | value :: args =>
        obtain ⟨items, hrest⟩ := exists_splits args
        exact ⟨_, .separate o value hrest⟩
    · push Not at hoption
      obtain ⟨items, hrest⟩ := exists_splits args
      exact ⟨_, .single (written_ofArgument hoption) hrest⟩
termination_by args.length

theorem spelling_injective {o o' : ValueOption} (h : o.spelling = o'.spelling) : o = o' := by
  revert h
  cases o <;> cases o' <;> decide

namespace Splits

variable {args later : List String} {items items' : List Item}

/-- Arguments are read in one way only. -/
theorem unique (h : Splits args items) (h' : Splits args items') : items' = items := by
  induction h generalizing items' with
  | done =>
    cases h'
    rfl
  | @separate args _ o value _ ih =>
    generalize hargs : o.spelling :: value :: args = all at h'
    cases h' with
    | done => cases hargs
    | separate o' value' rest =>
      obtain ⟨hspelling, hargs⟩ := List.cons.inj hargs
      obtain ⟨rfl, rfl⟩ := List.cons.inj hargs
      rw [spelling_injective hspelling, ih rest]
    | single hitem _ =>
      obtain ⟨rfl, -⟩ := List.cons.inj hargs
      exact absurd rfl (hitem.ne_spelling o)
    | dangling o' => cases (List.cons.inj hargs).2
  | single hitem _ ih =>
    cases h' with
    | separate o value rest => exact absurd rfl (hitem.ne_spelling o)
    | single hitem' rest => rw [hitem.eq_ofArgument, hitem'.eq_ofArgument, ih rest]
    | dangling o => exact absurd rfl (hitem.ne_spelling o)
  | dangling o =>
    generalize hargs : [o.spelling] = all at h'
    cases h' with
    | done => cases hargs
    | separate o' value' rest => cases (List.cons.inj hargs).2
    | single hitem _ =>
      obtain ⟨rfl, -⟩ := List.cons.inj hargs
      exact absurd rfl (hitem.ne_spelling o)
    | dangling o' => rw [spelling_injective (List.cons.inj hargs).1]

/-- Two rows of items make one, unless the first ends in an option without a value. -/
theorem append (h : Splits args items) (hends : ∀ o, .dangling o ∉ items)
    (h' : Splits later items') : Splits (args ++ later) (items ++ items') := by
  induction h with
  | done => exact h'
  | separate o value _ ih =>
    exact .separate o value (ih fun o ho => hends o (List.mem_cons_of_mem _ ho))
  | single hitem _ ih => exact .single hitem (ih fun o ho => hends o (List.mem_cons_of_mem _ ho))
  | dangling o => exact absurd List.mem_cons_self (hends o)

end Splits

/-! ## Reading items -/

/-- Reads one item. -/
def Settings.take (s : Settings) : Item → Except OptionError Settings
  | .option .chunk text => s.withChunkSize text
  | .option .fileName name => .ok { s with fileName := some name }
  | .noComments => .ok { s with comments := false }
  | .noColor => .ok { s with color := some false }
  | .path path =>
    if s.path.isSome then .error (.unknownOption path) else .ok { s with path := some path }
  | .unknown arg => .error (.unknownOption arg)
  | .dangling o => .error (.missingValue o.spelling)

section Reading

variable {arg : String} {args : List String} {item : Item} {items : List Item}

theorem readArgument_eq (s : Settings) (hcomments : arg ≠ "--no-comments")
    (hcolor : arg ≠ "--no-color") : s.readArgument arg = s.take (.ofArgument arg) := by
  rw [Settings.readArgument, Item.ofArgument, if_neg hcomments, if_neg hcolor]
  cases valueAfter? "--chunk=" arg with
  | some text => rfl
  | none =>
    cases valueAfter? "--file-name=" arg with
    | some name => rfl
    | none =>
      by_cases hdash : arg.toList.head? = some '-'
      · simp [hdash, Settings.take]
      · simp [hdash, Settings.take]

/-- An argument that is an item by itself is read as that item. -/
theorem readAll_single (h : Written arg item) (s : Settings) (args : List String) :
    readAll s (arg :: args) = s.take item >>= fun t => readAll t args := by
  have hchunk : (arg == "--chunk") = false := beq_false_of_ne (h.ne_spelling .chunk)
  have hname : (arg == "--file-name") = false := beq_false_of_ne (h.ne_spelling .fileName)
  rw [h.eq_ofArgument]
  by_cases hcomments : arg = "--no-comments"
  · subst hcomments
    cases args <;> rfl
  by_cases hcolor : arg = "--no-color"
  · subst hcolor
    cases args <;> rfl
  rw [← readArgument_eq s hcomments hcolor]
  cases args with
  | nil =>
    simp only [readAll, hchunk, hname, beq_false_of_ne hcomments, beq_false_of_ne hcolor]
    cases s.readArgument arg <;> rfl
  | cons value args =>
    simp [readAll, hchunk, hname, beq_false_of_ne hcomments, beq_false_of_ne hcolor]

/-- Reading arguments is reading their items. -/
theorem readAll_eq (h : Splits args items) (s : Settings) :
    readAll s args = items.foldlM Settings.take s := by
  induction h generalizing s with
  | done => rfl
  | separate o value _ ih =>
    rw [List.foldlM_cons]
    simp only [← ih]
    cases o <;> rfl
  | single hitem _ ih =>
    rw [readAll_single hitem, List.foldlM_cons]
    simp only [ih]
  | dangling o => cases o <;> rfl

end Reading

end StreamLexer.Options
