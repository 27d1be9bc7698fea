import Mathlib.Data.List.Induction
import StreamLexer.Proofs.Command.Items

/-!
# What argument lists are accepted

Arguments are read item by item. The list of items says what comes of it: they all have to be good,
and there has to be one path. Of several values for one option the last counts, `settingsOf`.
Otherwise the first item that is no good says what is wrong, `Spoils`, and no path is the last thing
that can be wrong.

Reading one more item is told by `take_eq_ok_iff` and `take_eq_error_iff`, reading a whole list by
`foldlM_eq_ok_iff` and `foldlM_eq_error_iff`. The main statement is `arguments_follow_grammar`.
-/
namespace StreamLexer.Options

/-! ## Sizes -/

/-- The text stands for a size: decimal digits, perhaps after a plus sign, of a positive number of
64 bits. -/
def DenotesSize (text : String) (n : Nat) : Prop :=
  ∃ digits : List Char, (text.toList = digits ∨ text.toList = '+' :: digits) ∧ digits ≠ [] ∧
    (∀ c ∈ digits, c.isDigit = true) ∧ Nat.ofDigitChars 10 digits 0 = n ∧ 0 < n ∧ n < Nat.pow 2 64

/-- A text without the plus sign that it may start with. -/
def unsigned : List Char → List Char
  | '+' :: digits => digits
  | digits => digits

theorem unsigned_eq_iff {chars digits : List Char} (hne : digits ≠ [])
    (hdigits : ∀ c ∈ digits, c.isDigit = true) :
    unsigned chars = digits ↔ chars = digits ∨ chars = '+' :: digits := by
  constructor
  · intro h
    unfold unsigned at h
    split at h
    · exact .inr (by rw [h])
    · exact .inl h
  · rintro (rfl | rfl)
    · unfold unsigned
      split
      · cases hdigits '+' List.mem_cons_self
      · rfl
    · rfl

theorem chunkSize?_eq_some_iff {text : String} {n : Nat} :
    chunkSize? text = some n ↔ DenotesSize text n := by
  have hread : chunkSize? text =
      if (unsigned text.toList).isEmpty || !(unsigned text.toList).all Char.isDigit then none
      else if 0 < Nat.ofDigitChars 10 (unsigned text.toList) 0 &&
        Nat.ofDigitChars 10 (unsigned text.toList) 0 ≤ maxChunkSize then
          some (Nat.ofDigitChars 10 (unsigned text.toList) 0) else none := by
    have hvalue : Nat.ofDigitChars 10 (unsigned text.toList) 0 =
        (unsigned text.toList).foldl (fun n c => n * 10 + (c.toNat - '0'.toNat)) 0 := by
      rw [Nat.ofDigitChars_eq_foldl]
      simp only [Nat.mul_comm]
    rw [hvalue]
    rfl
  have hmax : maxChunkSize + 1 = Nat.pow 2 64 := rfl
  rw [hread]
  constructor
  · intro h
    split at h
    · cases h
    · rename_i hdigits
      simp only [Bool.or_eq_true, List.isEmpty_iff, Bool.not_eq_true', not_or,
        Bool.not_eq_false, List.all_eq_true] at hdigits
      split at h
      · rename_i hrange
        simp only [Bool.and_eq_true, decide_eq_true_eq] at hrange
        cases h
        exact ⟨_, (unsigned_eq_iff hdigits.1 hdigits.2).mp rfl, hdigits.1, hdigits.2, rfl,
          hrange.1, by omega⟩
      · cases h
  · rintro ⟨digits, htext, hne, hdigits, rfl, hpos, hlt⟩
    rw [(unsigned_eq_iff hne hdigits).mpr htext, if_neg, if_pos]
    · simp only [Bool.and_eq_true, decide_eq_true_eq]
      omega
    · simpa [hne] using hdigits

/-! ## Good items -/

namespace Item

/-- The item is no good wherever it stands, unless this holds of it. -/
def IsGood : Item → Prop
  | .option .chunk text => ∃ n, DenotesSize text n
  | .option .fileName _ | .noComments | .noColor | .path _ => True
  | .unknown _ | .dangling _ => False

def path? : Item → Option String
  | .path p => some p
  | _ => none

/-- The value that the item gives an option. -/
def value? (o : ValueOption) : Item → Option String
  | .option o' value => if o' = o then some value else none
  | _ => none

end Item

/-- The items are good, and there is no second path among them. -/
structure Fits (items : List Item) : Prop where
  good : ∀ item ∈ items, item.IsGood
  one_path : (items.filterMap Item.path?).length ≤ 1

/-- What is wrong with an item that stands behind others. -/
inductive Spoils (before : List Item) : Item → OptionError → Prop
  | size {text : String} (h : ∀ n, ¬ DenotesSize text n) :
      Spoils before (.option .chunk text) (.invalidChunkSize text)
  | unknown (arg : String) : Spoils before (.unknown arg) (.unknownOption arg)
  | secondPath {first path : String} (h : .path first ∈ before) :
      Spoils before (.path path) (.unknownOption path)
  | dangling (o : ValueOption) : Spoils before (.dangling o) (.missingValue o.spelling)

/-- What the items set, if they are good: of several values for one option the last counts. -/
def settingsOf (items : List Item) : Settings where
  path := (items.filterMap Item.path?).getLast?
  chunkSize := (items.filterMap (Item.value? .chunk)).getLast?.bind chunkSize?
  comments := decide (.noComments ∉ items)
  fileName := (items.filterMap (Item.value? .fileName)).getLast?
  color := if .noColor ∈ items then some false else none

section Step

variable {items : List Item} {item : Item} {t : Settings} {e : OptionError}

theorem settingsOf_concat (items : List Item) (item : Item) :
    settingsOf (items ++ [item]) = match item with
      | .option .chunk text => { settingsOf items with chunkSize := chunkSize? text }
      | .option .fileName name => { settingsOf items with fileName := some name }
      | .noComments => { settingsOf items with comments := false }
      | .noColor => { settingsOf items with color := some false }
      | .path p => { settingsOf items with path := some p }
      | .unknown _ | .dangling _ => settingsOf items := by
  cases item with
  | option o value => cases o <;> simp [settingsOf, Item.path?, Item.value?]
  | noComments => simp [settingsOf, Item.path?, Item.value?]
  | noColor => simp [settingsOf, Item.path?, Item.value?]
  | path p => simp [settingsOf, Item.path?, Item.value?]
  | unknown arg => simp [settingsOf, Item.path?, Item.value?]
  | dangling o => simp [settingsOf, Item.path?, Item.value?]

theorem paths_ne_nil_iff (items : List Item) :
    items.filterMap Item.path? ≠ [] ↔ ∃ first, .path first ∈ items := by
  rw [ne_eq, List.filterMap_eq_nil_iff]
  push Not
  constructor
  · rintro ⟨item, hitem, hpath⟩
    cases item with
    | path p => exact ⟨p, hitem⟩
    | _ => exact absurd rfl hpath
  · rintro ⟨first, hfirst⟩
    exact ⟨_, hfirst, Option.some_ne_none first⟩

theorem isSome_path_iff (items : List Item) :
    (settingsOf items).path.isSome = true ↔ ∃ first, .path first ∈ items := by
  rw [← paths_ne_nil_iff]
  exact List.getLast?_isSome

/-- One more item fits if it is good and no second path. -/
theorem fits_concat (items : List Item) (item : Item) :
    Fits (items ++ [item]) ↔ Fits items ∧ item.IsGood ∧
      (item.path?.isSome = true → ∀ first, .path first ∉ items) := by
  have hnone : (∀ first, .path first ∉ items) ↔ items.filterMap Item.path? = [] := by
    rw [← not_iff_not, ← ne_eq, paths_ne_nil_iff]
    push Not
    rfl
  have hcount : ((items ++ [item]).filterMap Item.path?).length =
      (items.filterMap Item.path?).length + item.path?.toList.length := by
    cases item <;> simp [Item.path?]
  rw [hnone]
  constructor
  · rintro ⟨hgood, hone⟩
    rw [hcount] at hone
    refine ⟨⟨fun other h => hgood other (List.mem_append_left _ h), by omega⟩,
      hgood item (by simp), ?_⟩
    intro hpath
    obtain ⟨p, hp⟩ := Option.isSome_iff_exists.mp hpath
    rw [hp, Option.toList_some, List.length_singleton] at hone
    exact List.eq_nil_of_length_eq_zero (by omega)
  · rintro ⟨⟨hgood, hone⟩, hitem, hpath⟩
    refine ⟨?_, ?_⟩
    · intro other hother
      rcases List.mem_append.mp hother with hother | hother
      · exact hgood other hother
      · rwa [List.mem_singleton.mp hother]
    · rw [hcount]
      cases hp : item.path? with
      | none => simpa using hone
      | some p => simp [hpath (by simp [hp])]

/-- One more item is read if it fits. -/
theorem take_eq_ok_iff (h : Fits items) :
    (settingsOf items).take item = .ok t ↔
      Fits (items ++ [item]) ∧ t = settingsOf (items ++ [item]) := by
  rw [fits_concat, settingsOf_concat, and_iff_right h]
  cases item with
  | option o value =>
    cases o with
    | chunk =>
      cases hsize : chunkSize? value with
      | none =>
        simp [Settings.take, Settings.withChunkSize, hsize, Item.IsGood, ← chunkSize?_eq_some_iff]
      | some n =>
        simp [Settings.take, Settings.withChunkSize, hsize, Item.IsGood, ← chunkSize?_eq_some_iff,
          Item.path?, eq_comm]
    | fileName => simp [Settings.take, Item.IsGood, Item.path?, eq_comm]
  | noComments => simp [Settings.take, Item.IsGood, Item.path?, eq_comm]
  | noColor => simp [Settings.take, Item.IsGood, Item.path?, eq_comm]
  | path p =>
    have hpath := isSome_path_iff items
    by_cases hfirst : ∃ first, .path first ∈ items
    · have hsecond : ¬ ∀ first, .path first ∉ items := by simpa using hfirst
      simp [Settings.take, hpath.mpr hfirst, Item.path?, hsecond]
    · have hnone : (settingsOf items).path.isSome = false := by simpa [hfirst] using hpath
      simp [Settings.take, hnone, Item.path?, Item.IsGood, not_exists.mp hfirst, eq_comm]
  | unknown arg => simp [Settings.take, Item.IsGood]
  | dangling o => simp [Settings.take, Item.IsGood]

/-- What is wrong with one more item is told as it is read. -/
theorem take_eq_error_iff (items : List Item) :
    (settingsOf items).take item = .error e ↔ Spoils items item e := by
  constructor
  · intro htake
    cases item with
    | option o value =>
      cases o with
      | chunk =>
        cases hsize : chunkSize? value with
        | none =>
          simp only [Settings.take, Settings.withChunkSize, hsize] at htake
          cases htake
          apply Spoils.size
          simp [← chunkSize?_eq_some_iff, hsize]
        | some n => simp [Settings.take, Settings.withChunkSize, hsize] at htake
      | fileName => cases htake
    | noComments => cases htake
    | noColor => cases htake
    | path p =>
      by_cases hpath : (settingsOf items).path.isSome = true
      · obtain ⟨first, hfirst⟩ := (isSome_path_iff items).mp hpath
        simp only [Settings.take, hpath, if_true] at htake
        cases htake
        exact .secondPath hfirst
      · simp [Settings.take, hpath] at htake
    | unknown arg =>
      cases htake
      exact .unknown arg
    | dangling o =>
      cases htake
      exact .dangling o
  · intro hspoils
    cases hspoils with
    | @size text hsize =>
      have hnone : chunkSize? text = none := by
        simpa [Option.eq_none_iff_forall_ne_some, chunkSize?_eq_some_iff] using hsize
      simp [Settings.take, Settings.withChunkSize, hnone]
    | unknown arg => rfl
    | secondPath hfirst =>
      have hpath := (isSome_path_iff items).mpr ⟨_, hfirst⟩
      simp [Settings.take, hpath]
    | dangling o => rfl

end Step

/-! ## All items -/

section Run

variable {items : List Item} {t : Settings} {e : OptionError}

theorem foldlM_concat (s : Settings) (items : List Item) (item : Item) :
    (items ++ [item]).foldlM Settings.take s = items.foldlM Settings.take s >>= (·.take item) := by
  rw [List.foldlM_append]
  simp

/-- Items are read to the end if they fit. -/
theorem foldlM_eq_ok_iff (items : List Item) (t : Settings) :
    items.foldlM Settings.take {} = .ok t ↔ Fits items ∧ t = settingsOf items := by
  induction items using List.reverseRecOn generalizing t with
  | nil =>
    have hfits : Fits [] := ⟨by simp, by simp⟩
    rw [and_iff_right hfits]
    exact ⟨fun h => by cases h; rfl, fun h => by rw [h]; rfl⟩
  | append_singleton items item ih =>
    rw [foldlM_concat]
    constructor
    · intro h
      cases hread : items.foldlM Settings.take {} with
      | error e =>
        rw [hread] at h
        cases h
      | ok s =>
        obtain ⟨hfits, rfl⟩ := (ih s).mp hread
        rw [hread] at h
        exact (take_eq_ok_iff hfits).mp h
    · intro h
      have hfits := ((fits_concat items item).mp h.1).1
      rw [(ih _).mpr ⟨hfits, rfl⟩]
      exact (take_eq_ok_iff hfits).mpr h

/-- Otherwise the first item that does not fit says what is wrong. -/
theorem foldlM_eq_error_iff (items : List Item) (e : OptionError) :
    items.foldlM Settings.take {} = .error e ↔
      ∃ before item after, items = before ++ item :: after ∧ Fits before ∧
        Spoils before item e := by
  induction items using List.reverseRecOn with
  | nil =>
    constructor
    · intro h
      cases h
    · rintro ⟨before, item, after, h, -⟩
      simp at h
  | append_singleton items last ih =>
    rw [foldlM_concat]
    constructor
    · intro h
      cases hread : items.foldlM Settings.take {} with
      | error e' =>
        rw [hread] at h
        cases h
        obtain ⟨before, item, after, rfl, hspoils⟩ := ih.mp hread
        exact ⟨before, item, after ++ [last], by simp, hspoils⟩
      | ok s =>
        obtain ⟨hfits, rfl⟩ := (foldlM_eq_ok_iff items s).mp hread
        rw [hread] at h
        exact ⟨items, last, [], rfl, hfits, (take_eq_error_iff items).mp h⟩
    · rintro ⟨before, item, after, hsplit, hfits, hspoils⟩
      rcases List.eq_nil_or_concat after with rfl | ⟨after, other, rfl⟩
      · obtain ⟨rfl, hlast⟩ := List.append_inj' hsplit rfl
        cases hlast
        rw [(foldlM_eq_ok_iff items _).mpr ⟨hfits, rfl⟩]
        exact (take_eq_error_iff items).mpr hspoils
      · rw [List.concat_eq_append, ← List.cons_append, ← List.append_assoc] at hsplit
        have hitems := (List.append_inj' hsplit rfl).1
        rw [ih.mpr ⟨before, item, after, hitems, hfits, hspoils⟩]
        rfl

/-- A path changes nothing but the path that is set. -/
theorem foldlM_withPath (hnone : ∀ p, .path p ∉ items) (s : Settings) (path : Option String) :
    items.foldlM Settings.take { s with path } =
      (items.foldlM Settings.take s).map fun t => { t with path } := by
  induction items generalizing s with
  | nil => rfl
  | cons item items ih =>
    have hrest : ∀ p, .path p ∉ items := fun p hp => hnone p (List.mem_cons_of_mem _ hp)
    have htake : Settings.take { s with path } item =
        (s.take item).map fun t => { t with path } := by
      cases item with
      | option o value =>
        cases o with
        | chunk =>
          simp only [Settings.take, Settings.withChunkSize]
          cases chunkSize? value <;> rfl
        | fileName => rfl
      | path p => exact absurd List.mem_cons_self (hnone p)
      | _ => rfl
    rw [List.foldlM_cons, List.foldlM_cons, htake]
    cases s.take item with
    | error e => rfl
    | ok t => exact ih hrest t

/-- It does not matter where the only path stands. -/
theorem foldlM_path {before after : List Item} (p : String)
    (honly : ∀ q, .path q ∉ before ++ after) :
    (before ++ .path p :: after).foldlM Settings.take {} =
      ((before ++ after).foldlM Settings.take {}).map fun t => { t with path := some p } := by
  rw [List.foldlM_append, List.foldlM_append]
  cases hread : before.foldlM Settings.take {} with
  | error e => rfl
  | ok s =>
    have hpath : s.path.isSome = false := by
      rw [((foldlM_eq_ok_iff before s).mp hread).2, Bool.eq_false_iff, ne_eq, isSome_path_iff]
      rintro ⟨first, hfirst⟩
      exact honly first (List.mem_append_left after hfirst)
    have htake : s.take (.path p) = .ok { s with path := some p } := by
      simp [Settings.take, hpath]
    have hafter : ∀ q, .path q ∉ after := fun q hq => honly q (List.mem_append_right before hq)
    show (Item.path p :: after).foldlM Settings.take s = (after.foldlM Settings.take s).map _
    rw [List.foldlM_cons, htake]
    exact foldlM_withPath hafter s (some p)

end Run

/-! ## Whole argument lists -/

/-- The options that items ask for: all of them are good, one is a path, and of several values for
one option the last counts. -/
structure Accepts (terminal : Bool) (items : List Item) (o : Options) : Prop where
  good : ∀ item ∈ items, item.IsGood
  path : items.filterMap Item.path? = [o.path]
  chunkSize : match (items.filterMap (Item.value? .chunk)).getLast? with
    | some text => DenotesSize text o.chunkSize
    | none => o.chunkSize = defaultChunkSize
  comments : o.comments = false ↔ .noComments ∈ items
  fileName : o.fileName = (items.filterMap (Item.value? .fileName)).getLast?
  color : o.color = true ↔ terminal = true ∧ .noColor ∉ items

/-- Why items are refused: for the first one that does not fit, or else for want of a path. -/
inductive Refuses : List Item → OptionError → Prop
  | item {before after : List Item} {item : Item} {e : OptionError} (hbefore : Fits before)
      (h : Spoils before item e) : Refuses (before ++ item :: after) e
  | missingPath {items : List Item} (hgood : ∀ item ∈ items, item.IsGood)
      (hnone : ∀ p, .path p ∉ items) : Refuses items .missingPath

/-- The same items, but for the place of the only path. -/
inductive SameButPath : List Item → List Item → Prop
  | moved {before after before' after' : List Item} (p : String)
      (hrest : before ++ after = before' ++ after') (honly : ∀ q, .path q ∉ before ++ after) :
      SameButPath (before ++ .path p :: after) (before' ++ .path p :: after')

/-- The options that settings come to. -/
def Settings.options (terminal : Bool) (s : Settings) : Except OptionError Options :=
  match s.path with
  | some path =>
    .ok
      { path
        chunkSize := s.chunkSize.getD defaultChunkSize
        comments := s.comments
        fileName := s.fileName
        color := s.color.getD terminal }
  | none => .error .missingPath

section Whole

variable {terminal : Bool} {args args' : List String} {items items' : List Item}

theorem parse_eq (h : Splits args items) :
    parse terminal args = items.foldlM Settings.take {} >>= Settings.options terminal := by
  rw [← readAll_eq h]
  rfl

theorem getD_chunkSize (hgood : ∀ item ∈ items, item.IsGood) (n : Nat) :
    (settingsOf items).chunkSize.getD defaultChunkSize = n ↔
      match (items.filterMap (Item.value? .chunk)).getLast? with
      | some text => DenotesSize text n
      | none => n = defaultChunkSize := by
  rw [settingsOf]
  cases hlast : (items.filterMap (Item.value? .chunk)).getLast? with
  | none => exact eq_comm
  | some text =>
    obtain ⟨item, hitem, hvalue⟩ := List.mem_filterMap.mp (List.mem_of_getLast? hlast)
    have hsame : item = .option .chunk text := by
      cases item with
      | option o value => simp_all [Item.value?]
      | _ => cases hvalue
    subst hsame
    obtain ⟨m, hm⟩ := hgood _ hitem
    have hsize := chunkSize?_eq_some_iff.mpr hm
    show (chunkSize? text).getD defaultChunkSize = n ↔ DenotesSize text n
    rw [← chunkSize?_eq_some_iff, hsize, Option.getD_some, Option.some_inj]

theorem options_settingsOf (h : Fits items) (o : Options) :
    (settingsOf items).options terminal = .ok o ↔ Accepts terminal items o := by
  have hsize := getD_chunkSize h.good o.chunkSize
  have hone := h.one_path
  have hread : (settingsOf items).path = (items.filterMap Item.path?).getLast? := rfl
  rw [Settings.options, hread]
  cases hpaths : items.filterMap Item.path? with
  | nil =>
    constructor
    · intro hok
      cases hok
    · intro haccepts
      have hpath := haccepts.path
      rw [hpaths] at hpath
      cases hpath
  | cons p later =>
    obtain rfl : later = [] := by
      rw [hpaths, List.length_cons] at hone
      exact List.eq_nil_of_length_eq_zero (by omega)
    constructor
    · intro hok
      cases hok
      refine ⟨h.good, hpaths, hsize.mp rfl, ?_, rfl, ?_⟩
      · simp [settingsOf]
      · by_cases hcolor : .noColor ∈ items <;> simp [settingsOf, hcolor]
    · rintro ⟨-, hpath, hchunk, hcomments, hname, hcolor⟩
      obtain ⟨path, chunkSize, comments, fileName, color⟩ := o
      rw [hpaths] at hpath
      cases hpath
      have hcomments' : (settingsOf items).comments = comments := by
        cases comments <;> simp_all [settingsOf]
      have hcolor' : (settingsOf items).color.getD terminal = color := by
        by_cases hmem : .noColor ∈ items <;> cases color <;> simp_all [settingsOf]
      have hname' : (settingsOf items).fileName = fileName := hname.symm
      simp only [hsize.mpr hchunk, hcomments', hname', hcolor']
      rfl

/-- Items that fit are read to the end. -/
theorem parse_of_fits (h : Splits args items) (hfits : Fits items) :
    parse terminal args = (settingsOf items).options terminal := by
  rw [parse_eq h, (foldlM_eq_ok_iff items _).mpr ⟨hfits, rfl⟩]
  rfl

theorem fits_of_path (hgood : ∀ item ∈ items, item.IsGood) {path : String}
    (hpath : items.filterMap Item.path? = [path]) : Fits items :=
  ⟨hgood, by rw [hpath, List.length_singleton]⟩

theorem parse_eq_ok_iff (h : Splits args items) (o : Options) :
    parse terminal args = .ok o ↔ Accepts terminal items o := by
  constructor
  · intro hok
    cases hread : items.foldlM Settings.take {} with
    | error e =>
      rw [parse_eq h, hread] at hok
      cases hok
    | ok s =>
      have hfits := ((foldlM_eq_ok_iff items s).mp hread).1
      rw [parse_of_fits h hfits] at hok
      exact (options_settingsOf hfits o).mp hok
  · intro haccepts
    have hfits := fits_of_path haccepts.good haccepts.path
    rw [parse_of_fits h hfits]
    exact (options_settingsOf hfits o).mpr haccepts

theorem options_eq_error_iff (items : List Item) (e : OptionError) :
    (settingsOf items).options terminal = .error e ↔
      e = .missingPath ∧ ∀ p, .path p ∉ items := by
  have hpath := isSome_path_iff items
  rw [Settings.options]
  cases hp : (settingsOf items).path with
  | some p =>
    rw [hp] at hpath
    obtain ⟨first, hfirst⟩ := hpath.mp rfl
    constructor
    · intro herror
      cases herror
    · rintro ⟨-, hnone⟩
      exact absurd hfirst (hnone first)
  | none =>
    have hnone : ∀ p, .path p ∉ items := by simpa [hp] using hpath
    constructor
    · intro herror
      cases herror
      exact ⟨rfl, hnone⟩
    · rintro ⟨rfl, -⟩
      rfl

theorem parse_eq_error_iff (h : Splits args items) (e : OptionError) :
    parse terminal args = .error e ↔ Refuses items e := by
  constructor
  · intro herror
    cases hread : items.foldlM Settings.take {} with
    | error e' =>
      rw [parse_eq h, hread] at herror
      cases herror
      obtain ⟨before, item, after, rfl, hfits, hspoils⟩ := (foldlM_eq_error_iff items e).mp hread
      exact .item hfits hspoils
    | ok s =>
      have hfits := ((foldlM_eq_ok_iff items s).mp hread).1
      rw [parse_of_fits h hfits, options_eq_error_iff] at herror
      obtain ⟨rfl, hnone⟩ := herror
      exact .missingPath hfits.good hnone
  · intro hrefuses
    cases hrefuses with
    | item hbefore hspoils =>
      rw [parse_eq h, (foldlM_eq_error_iff _ e).mpr ⟨_, _, _, rfl, hbefore, hspoils⟩]
      rfl
    | missingPath hgood hnone =>
      have hpaths : items.filterMap Item.path? = [] := by
        by_contra hne
        obtain ⟨p, hp⟩ := (paths_ne_nil_iff items).mp hne
        exact hnone p hp
      have hfits : Fits items := ⟨hgood, by rw [hpaths]; exact Nat.zero_le 1⟩
      rw [parse_of_fits h hfits, options_eq_error_iff]
      exact ⟨rfl, hnone⟩

/-- Arguments are accepted exactly if all items are good and one of them is a path. -/
theorem exists_parse_eq_ok_iff (h : Splits args items) :
    (∃ o, parse terminal args = .ok o) ↔
      (∀ item ∈ items, item.IsGood) ∧ ∃ path, items.filterMap Item.path? = [path] := by
  constructor
  · rintro ⟨o, hok⟩
    have haccepts := (parse_eq_ok_iff h o).mp hok
    exact ⟨haccepts.good, o.path, haccepts.path⟩
  · rintro ⟨hgood, path, hpath⟩
    have hread : (settingsOf items).path = (items.filterMap Item.path?).getLast? := rfl
    rw [hpath] at hread
    rw [parse_of_fits h (fits_of_path hgood hpath), Settings.options, hread]
    exact ⟨_, rfl⟩

theorem parse_moved (h : Splits args items) (h' : Splits args' items')
    (hmoved : SameButPath items items') : parse terminal args' = parse terminal args := by
  cases hmoved with
  | moved p hrest honly =>
    rw [parse_eq h, parse_eq h', foldlM_path p honly, foldlM_path p (hrest ▸ honly), hrest]

theorem parse_respelled (o : ValueOption) (value : String) (later : List String)
    (h : Splits args items) (hends : ∀ o, .dangling o ∉ items) :
    parse terminal (args ++ o.spelling :: value :: later) =
      parse terminal (args ++ (o.spelling ++ "=" ++ value) :: later) := by
  obtain ⟨rest, hrest⟩ := exists_splits later
  rw [parse_eq (h.append hends (.separate o value hrest)),
    parse_eq (h.append hends (.single (.joined o value) hrest))]

end Whole

/-- What reading arguments comes to, in terms of the items that they are made of. -/
structure FollowsItems (terminal : Bool) (args : List String) (items : List Item) : Prop where
  splits : Splits args items
  only : ∀ items', Splits args items' → items' = items
  succeeds_iff : (∃ o, parse terminal args = .ok o) ↔
    (∀ item ∈ items, item.IsGood) ∧ ∃ path, items.filterMap Item.path? = [path]
  accepts_iff : ∀ o, parse terminal args = .ok o ↔ Accepts terminal items o
  refuses_iff : ∀ e, parse terminal args = .error e ↔ Refuses items e
  /-- The place of the path changes nothing. -/
  moved : ∀ args' items', Splits args' items' → SameButPath items items' →
    parse terminal args' = parse terminal args
  /-- Nor does it matter whether the value of an option is an argument of its own. -/
  respelled : ∀ before later items' (o : ValueOption) value, Splits before items' →
    (∀ o', .dangling o' ∉ items') → args = before ++ o.spelling :: value :: later →
    parse terminal (before ++ (o.spelling ++ "=" ++ value) :: later) = parse terminal args

/-- Arguments are made of items in exactly one way, and these say what reading the arguments comes
to: which options they ask for, or which item is the first that is no good. -/
theorem arguments_follow_grammar (terminal : Bool) (args : List String) :
    ∃ items, FollowsItems terminal args items := by
  obtain ⟨items, hsplits⟩ := exists_splits args
  refine ⟨items, hsplits, fun _ => hsplits.unique, exists_parse_eq_ok_iff hsplits,
    parse_eq_ok_iff hsplits, parse_eq_error_iff hsplits, fun _ _ => parse_moved hsplits, ?_⟩
  rintro before later items' o value hbefore hends rfl
  exact (parse_respelled o value later hbefore hends).symm

/-- A value may look like an option, and the last value counts; the error is that of the first item
that is no good. -/
example :
    parse false ["--file-name", "--chunk", "a.ml", "--chunk=7", "--chunk", "+08", "--no-comments"] =
        .ok { path := "a.ml", chunkSize := 8, comments := false, fileName := some "--chunk" } ∧
      parse false ["a.ml", "--chunk=0", "b.ml", "--chunk"] = .error (.invalidChunkSize "0") ∧
      parse false ["a.ml", "b.ml", "--chunk"] = .error (.unknownOption "b.ml") := by
  decide +kernel

end StreamLexer.Options
