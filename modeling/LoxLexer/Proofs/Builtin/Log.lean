/-
The built-in log does as logs are documented to do. Where no directive asks
for a span or a field, a filter looks at nothing but the target of a record
and its level (`admits_congr`), so it can be described by the pairs of these
that it enables.

A list of items asks for a span or a field only inside of brackets, so one
without an opening bracket asks for neither (`isBare_of_ofText?`,
`isBare_ofText`). Together this is what is documented of lists
(`builtinLog_lists`).
-/
import Mathlib
import LoxLexer.Command.Run
import LoxLexer.Proofs.Text.OsString

namespace LoxLexer.Log

-- ====================================================== bare directives

/-- Whether a directive is about the records of a target, or about all, and
asks for no span or field. Such a directive does not look at where in a run a
record is written. -/
def Directive.isBare (d : Directive) : Bool := d.span.isNone && d.field.isNone

/-- Whether all directives of a filter are such. -/
def Filter.IsBare (f : Filter) : Prop := ∀ d ∈ f, d.isBare = true

namespace Directive

variable {d : Directive}

theorem eq_none_of_isBare (h : d.isBare = true) : d.span = none ∧ d.field = none := by
  simpa [isBare] using h

/-- What is about a target does not look at anything else. -/
theorem concerns_of_isBare (h : d.isBare = true) (site : Site) :
    d.concerns site = d.coversTarget site := by
  obtain ⟨hspan, hfield⟩ := eq_none_of_isBare h
  simp [concerns, isPlain, hspan, hfield]

/-- And asks for no span. -/
theorem catches_of_isBare (h : d.isBare = true) (span : Site) : d.catches span = false := by
  obtain ⟨hspan, hfield⟩ := eq_none_of_isBare h
  simp [catches, hspan, hfield]

end Directive

-- ========================================================= what is admitted

namespace Filter

variable {f : Filter}

/-- Of two sites with one target the limits are the same. -/
theorem limit_congr (hf : f.IsBare) {s t : Site} (h : s.target = t.target) :
    f.limit s = f.limit t := by
  have hcovers : ∀ d : Directive, d.coversTarget s = d.coversTarget t := fun d => by
    rw [Directive.coversTarget, Directive.coversTarget, h]
  -- both sites meet the same directives, so the narrowest one is the same
  have hfold : f.foldl (narrower s) none = f.foldl (narrower t) none := by
    refine List.foldl_ext _ _ none fun best d hd => ?_
    unfold narrower
    rw [Directive.concerns_of_isBare (hf d hd), Directive.concerns_of_isBare (hf d hd),
      hcovers]
  rw [limit, limit, hfold]

/-- The limit of the target decides, and no span helps: neither the one that a
site may be itself, nor that of the scan around it. -/
theorem admits_of_isBare (hf : f.IsBare) (scanned : Option Nat) (site : Site) :
    f.admits scanned site = (f.limit site).admits site.level := by
  have hspan : f.any (fun d => site.span.isSome && d.catches site) = false :=
    List.any_eq_false.2 fun d hd => by simp [Directive.catches_of_isBare (hf d hd)]
  have hscan : ∀ bytes : Nat, (f.any fun d =>
      d.catches scanSite && d.acceptsSize bytes && d.limit.admits site.level) = false :=
    fun bytes => List.any_eq_false.2 fun d hd => by
      simp [Directive.catches_of_isBare (hf d hd)]
  rw [admits, hspan, Bool.or_false]
  cases scanned with
  | none => rw [Option.any_none, Bool.or_false]
  | some bytes => rw [Option.any_some, hscan, Bool.or_false]

/-- Of two sites with one target and one level, both are admitted or none. -/
theorem admits_congr (hf : f.IsBare) {s t : Site} (htarget : s.target = t.target)
    (hlevel : s.level = t.level) (scanned scanned' : Option Nat) :
    f.admits scanned s = f.admits scanned' t := by
  rw [admits_of_isBare hf, admits_of_isBare hf, limit_congr hf htarget, hlevel]

end Filter

-- ======================================================== lists of items

namespace Directive

/-- Without brackets an item takes apart into a target and a level at most. What
asks for a span or a field is only ever read from between brackets. -/
theorem brackets_eq_none {word : List Char} (h : '[' ∉ word) {parts : Parts}
    (hparts : parts? word = some parts) : parts.brackets = none := by
  unfold parts? at hparts
  dsimp only at hparts
  split at hparts
  case h_1 =>
    cases hparts
    rfl
  case h_2 inside hdrop =>
    have hmem := List.mem_of_mem_drop (hdrop ▸ List.mem_cons_self)
    exact absurd hmem h
  case h_3 =>
    cases hparts
    rfl

theorem isBare_forTarget (target : String) (limit : Limit) :
    (forTarget target limit).isBare = true := rfl

/-- What is made of a target and a limit is bare. -/
theorem isBare_ofParts {parts : Parts} (h : parts.brackets = none) (limit : Limit) :
    (ofParts parts limit).isBare = true := by
  rw [ofParts, h]
  rfl

/-- What an item without a level stands for is bare too. -/
theorem isBare_ofName (item : List Char) {parts : Parts} (h : parts.brackets = none) :
    (ofName item parts).isBare = true := by
  unfold ofName
  rw [h]
  cases Limit.ofText? (String.ofList item) with
  | none => rfl
  | some limit => rfl

/-- An item without brackets is a bare directive, in whichever of the forms it
is: a target with a level, a level alone, or a name. -/
theorem isBare_of_ofItem? {item : List Char} {d : Directive} (h : '[' ∉ item)
    (hd : ofItem? item = some d) : d.isBare = true := by
  unfold ofItem? at hd
  dsimp only at hd
  split at hd
  case isTrue => cases hd
  case isFalse =>
    obtain ⟨parts, hparts, hd⟩ := Option.bind_eq_some_iff.1 hd
    -- the parts are read from the item without the blanks around it
    have hnone : parts.brackets = none := by
      refine brackets_eq_none (fun hmem => h ?_) hparts
      exact (List.dropWhile_sublist _).mem (List.mem_of_mem_take hmem)
    split at hd
    case h_1 =>
      split at hd
      case isTrue => cases hd
      case isFalse =>
        obtain ⟨limit, -, rfl⟩ := Option.map_eq_some_iff.1 hd
        exact isBare_ofParts hnone limit
    case h_2 =>
      split at hd
      case isTrue =>
        cases hd
        exact isBare_forTarget _ _
      case isFalse =>
        cases hd
        exact isBare_ofName item hnone

end Directive

namespace Filter

theorem isBare_upTo (level : Level) : (upTo level).IsBare :=
  List.forall_mem_singleton.2 rfl

theorem isBare_add {f : Filter} (hf : f.IsBare) {d : Directive} (hd : d.isBare = true) :
    (f.add d).IsBare := by
  intro e he
  rcases List.mem_append.1 he with he | he
  · exact hf e (List.mem_filter.1 he).1
  · rw [List.mem_singleton.1 he]
    exact hd

theorem isBare_foldl_add {directives : List Directive}
    (h : ∀ d ∈ directives, d.isBare = true) :
    ∀ {f : Filter}, f.IsBare → (directives.foldl add f).IsBare := by
  induction directives with
  | nil => exact fun hf => hf
  | cons d directives ih =>
      intro f hf
      rw [List.forall_mem_cons] at h
      exact ih h.2 (isBare_add hf h.1)

private theorem mem_intercalate {between item : List Char} {items : List (List Char)}
    (h : item ∈ items) {c : Char} (hc : c ∈ item) : c ∈ between.intercalate items := by
  induction items with
  | nil => exact absurd h List.not_mem_nil
  | cons first items ih =>
      cases items with
      | nil =>
          cases List.mem_singleton.1 h
          simpa [List.intercalate] using hc
      | cons second items =>
          rw [List.intercalate_cons_cons]
          rcases List.mem_cons.1 h with rfl | h
          · exact List.mem_append_left _ (List.mem_append_left _ hc)
          · exact List.mem_append_right _ (ih h)

/-- What is between the commas of a text is in the text. Laid end to end with
the commas the items are the text again. -/
theorem mem_of_mem_splitOn {text item : List Char} (h : item ∈ text.splitOn ',')
    {c : Char} (hc : c ∈ item) : c ∈ text := by
  have htext : [','].intercalate (text.splitOn ',') = text := List.intercalate_splitOn ','
  rw [← htext]
  exact mem_intercalate h hc

/-- Items are read one by one: each directive of a list was made of one of its
items. -/
theorem exists_of_mem_mapM {items : List (List Char)} : ∀ {directives : List Directive},
    items.mapM Directive.ofItem? = some directives → ∀ {d : Directive}, d ∈ directives →
      ∃ item ∈ items, Directive.ofItem? item = some d := by
  induction items with
  | nil =>
      intro directives h d hd
      rw [List.mapM_nil] at h
      cases h
      exact absurd hd List.not_mem_nil
  | cons item items ih =>
      intro directives h d hd
      rw [List.mapM_cons] at h
      obtain ⟨first, hfirst, h⟩ := Option.bind_eq_some_iff.1 h
      obtain ⟨rest, hrest, h⟩ := Option.bind_eq_some_iff.1 h
      cases h
      rcases List.mem_cons.1 hd with rfl | hd
      · exact ⟨item, List.mem_cons_self, hfirst⟩
      · obtain ⟨other, hother, hread⟩ := ih hrest hd
        exact ⟨other, List.mem_cons_of_mem _ hother, hread⟩

theorem isBare_ofDirectives {directives : List Directive}
    (h : ∀ d ∈ directives, d.isBare = true) : (ofDirectives directives).IsBare := by
  unfold ofDirectives
  split
  case h_1 => exact isBare_upTo _
  case h_2 => exact isBare_foldl_add h fun d hd => absurd hd List.not_mem_nil

/-- No item has a character that the list does not have. -/
theorem not_mem_of_mem_items {text : String} {c : Char} (h : c ∉ text.toList)
    {item : List Char} (hitem : item ∈ items text) : c ∉ item :=
  fun hmem => h (mem_of_mem_splitOn (List.mem_filter.1 hitem).1 hmem)

/-- A list without brackets is a bare filter. -/
theorem isBare_of_ofText? {text : String} {f : Filter} (h : '[' ∉ text.toList)
    (hf : ofText? text = some f) : f.IsBare := by
  obtain ⟨directives, hread, rfl⟩ := Option.map_eq_some_iff.1 hf
  refine isBare_ofDirectives fun d hd => ?_
  obtain ⟨item, hitem, hd⟩ := exists_of_mem_mapM hread hd
  exact Directive.isBare_of_ofItem? (not_mem_of_mem_items h hitem) hd

/-- A list that is read as far as it can be is a bare filter as well: the items
that are no directives are left out. -/
theorem isBare_ofText {text : String} (h : '[' ∉ text.toList) : (ofText text).IsBare := by
  refine isBare_ofDirectives fun d hd => ?_
  obtain ⟨item, hitem, hd⟩ := List.mem_filterMap.1 hd
  exact Directive.isBare_of_ofItem? (not_mem_of_mem_items h hitem) hd

end Filter

end LoxLexer.Log

namespace LoxLexer.Command

/-- A filter of bare directives looks at targets and levels alone. -/
theorem looksAtTargets_of_isBare {f : Log.Filter} (hf : f.IsBare) :
    builtinLog.LooksAtTargets f :=
  fun scanned site =>
    Log.Filter.admits_congr (s := site) (t := ⟨site.level, site.target, none, []⟩) hf rfl rfl
      scanned none

/-- The built-in log keeps to what is documented of lists. The value of a
variable is one of bytes, and a bracket is one byte, so one that is not among
them is not in the text either. -/
theorem builtinLog_lists : builtinLog.ListsAsDocumented where
  ofVariable {value f} h hvalue := by
    obtain ⟨text, htext, hf⟩ := Option.bind_eq_some_iff.1 h
    rw [OsString.text?_eq_some_iff] at htext
    refine looksAtTargets_of_isBare (Log.Filter.isBare_of_ofText? (fun hmem => ?_) hf)
    rw [htext] at hvalue
    exact hvalue (OsString.mem_bytes_ofString hmem (by decide))
  ofText h := looksAtTargets_of_isBare (Log.Filter.isBare_ofText h)

end LoxLexer.Command
