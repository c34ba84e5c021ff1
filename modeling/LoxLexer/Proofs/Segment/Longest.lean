/-
The reader against the grammar: `leadingRule` decides on the first character
and then runs ahead, and what it takes is the longest beginning of the text
that any rule allows.

# The two halves

- `fits_leadingRule`: what it takes stands there and is a text of the rule
  that it names;
- `length_le_of_fits`: no rule allows a longer beginning, and the only rule
  that allows one as long is the one it names.

Together they say that the longest beginning exists (`longest_leadingRule`)
and is unique together with its rule (`eq_leadingRule_of_longest`). Both go
through the equations of the reader, one for each class of first characters.
-/
import LoxLexer.Proofs.Segment.Grammar

namespace LoxLexer

-- ===================================================== runs of a class

/-- A run is taken by its length. -/
theorem take_length_takeWhile (p : Char → Bool) (l : List Char) :
    l.take (l.takeWhile p).length = l.takeWhile p :=
  (List.prefix_iff_eq_take.1 (List.takeWhile_prefix p)).symm

theorem of_mem_takeWhile {p : Char → Bool} {l : List Char} {c : Char}
    (h : c ∈ l.takeWhile p) : p c = true :=
  List.all_eq_true.1 List.all_takeWhile c h

/-- A text of a class is no longer than the run of the class it begins. -/
theorem length_le_takeWhile {p : Char → Bool} {l : List Char}
    (h : ∀ c ∈ l, p c = true) (after : List Char) :
    l.length ≤ ((l ++ after).takeWhile p).length := by
  rw [List.takeWhile_append_of_pos h, List.length_append]
  exact Nat.le_add_right _ _

/-- A run ends where its class does. -/
theorem takeWhile_eq_of_stop {p : Char → Bool} {l : List Char} {c : Char}
    (h : ∀ d ∈ l, p d = true) (hc : p c = false) (after : List Char) :
    (l ++ c :: after).takeWhile p = l := by
  rw [List.takeWhile_append_of_pos h, List.takeWhile_cons_of_neg (by simp [hc]),
    List.append_nil]

-- ============================================= the reader, class by class

theorem leadingRule_blank {c : Char} (h : isBlank c = true) (rest : List Char) :
    leadingRule c rest = (.blank, 0) := by
  rw [leadingRule, if_pos h]

theorem leadingRule_word {c : Char} (h : isWordStart c = true)
    (rest : List Char) :
    leadingRule c rest = (.word, (rest.takeWhile isWordPart).length) := by
  obtain ⟨hblank, hline⟩ := not_gap_of_isWordStart h
  rw [leadingRule, if_neg (by simp [hblank]), if_neg hline, if_pos h]

theorem leadingRule_number {c : Char} (h : c.isDigit = true)
    (rest : List Char) :
    leadingRule c rest = (.number, numberRest rest) := by
  obtain ⟨hblank, hline, hword⟩ := not_gap_of_isDigit h
  rw [leadingRule, if_neg (by simp [hblank]), if_neg hline,
    if_neg (by simp [hword]), if_pos h]

/-- Up to the closing quote and with it: what a string takes behind its opening
quote. -/
theorem take_closing (inside after : List Char) :
    (inside ++ '"' :: after).take (inside.length + 1) = inside ++ ['"'] := by
  rw [List.take_append, List.take_of_length_le (Nat.le_succ _),
    Nat.add_sub_cancel_left]
  rfl

/-- Behind a quote the next quote decides: the string goes up to it, whatever
stands between the two. -/
theorem leadingRule_string {inside : List Char} (h : ∀ c ∈ inside, c ≠ '"')
    (after : List Char) :
    leadingRule '"' (inside ++ '"' :: after)
      = (.string, inside.length + 1) := by
  have hin : ∀ c ∈ inside, (c != '"') = true :=
    fun c hc => by simpa using h c hc
  have htake : (inside ++ '"' :: after).takeWhile (· != '"') = inside :=
    takeWhile_eq_of_stop hin rfl after
  have hdrop :
      (inside ++ '"' :: after).dropWhile (· != '"') = '"' :: after := by
    rw [List.dropWhile_append_of_pos hin]
    rfl
  simp only [leadingRule, hdrop, htake]
  rfl

/-- Without a quote behind it, a quote is open to the end of the text. -/
theorem leadingRule_openString {inside : List Char}
    (h : ∀ c ∈ inside, c ≠ '"') :
    leadingRule '"' inside = (.openString, inside.length) := by
  have hin : ∀ c ∈ inside, (c != '"') = true :=
    fun c hc => by simpa using h c hc
  have htake : (inside ++ []).takeWhile (· != '"') = inside ++ [] :=
    List.takeWhile_append_of_pos hin
  have hdrop : (inside ++ []).dropWhile (· != '"') = [] :=
    List.dropWhile_append_of_pos hin
  rw [List.append_nil] at htake hdrop
  simp only [leadingRule, hdrop, htake]
  rfl

theorem leadingRule_comment (rest : List Char) :
    leadingRule '/' ('/' :: rest)
      = (.comment, (rest.takeWhile (· != '\n')).length + 1) := rfl

/-- What starts an operator is read as the longest that stands there, unless
it starts a comment. -/
theorem leadingRule_operator {c : Char} {rest : List Char} {o p : Operator}
    (hc : Operator.ofSpelling? [c] = some o)
    (hslash : ¬ (c = '/' ∧ rest.head? = some '/'))
    (hp : Operator.leading? c rest = some p) :
    leadingRule c rest = (.operator p, p.spelling.length - 1) := by
  obtain ⟨hblank, hline, hword, hdigit, hquote⟩ := not_gap_of_ofSpelling? hc
  rw [leadingRule, if_neg (by simp [hblank]), if_neg hline,
    if_neg (by simp [hword]), if_neg (by simp [hdigit]), if_neg hquote,
    if_neg hslash, hp]

/-- What starts nothing is a stray by itself. -/
theorem leadingRule_stray {c : Char} (h : ¬ Starts c) (rest : List Char) :
    leadingRule c rest = (.stray, 0) := by
  obtain ⟨hblank, hline, hword, hdigit, hquote, hsingle⟩ := not_opening h
  have hslash : ¬ (c = '/' ∧ rest.head? = some '/') := by
    intro hboth
    rw [hboth.1] at hsingle
    cases hsingle
  have hlead : Operator.leading? c rest = none := by
    -- the first character of an operator is one, and this character is none
    have hpair : Operator.ofSpelling? [c, '='] = none := by
      cases hq : Operator.ofSpelling? [c, '='] with
      | none => rfl
      | some q =>
          obtain ⟨d, p, hd, hp⟩ := q.exists_ofSpelling?_head
          rw [Operator.ofSpelling?_eq_some_iff.1 hq, List.head?_cons,
            Option.some.injEq] at hd
          rw [hd, hp] at hsingle
          cases hsingle
    rw [Operator.leading?_eq, hpair, hsingle]
    split
    all_goals rfl
  rw [leadingRule, if_neg hblank, if_neg hline, if_neg hword, if_neg hdigit,
    if_neg hquote, if_neg hslash, hlead]

-- ================================================ the reader is right

/-- A point behind the digits of a number belongs to it with the digits
behind the point. -/
theorem numberRest_of_point {rest after : List Char}
    (h : rest.dropWhile Char.isDigit = '.' :: after) :
    numberRest rest
      = if (after.takeWhile Char.isDigit).length = 0
        then (rest.takeWhile Char.isDigit).length
        else (rest.takeWhile Char.isDigit).length + 1
          + (after.takeWhile Char.isDigit).length := by
  unfold numberRest
  rw [h]
  rfl

/-- Without a point the number ends with its digits. -/
theorem numberRest_of_no_point {rest : List Char}
    (h : (rest.dropWhile Char.isDigit).head? ≠ some '.') :
    numberRest rest = (rest.takeWhile Char.isDigit).length := by
  unfold numberRest
  dsimp only
  split
  case h_1 after hpoint => exact absurd (by rw [hpoint]; rfl) h
  case h_2 => rfl

/-- A number takes its digits, or them, a point and the digits behind it. With
a point there is at least one digit behind it, which is what the grammar asks
of a fraction. -/
theorem take_numberRest (rest : List Char) :
    numberRest rest ≤ rest.length
      ∧ (rest.take (numberRest rest) = rest.takeWhile Char.isDigit
        ∨ ∃ next places,
            rest.take (numberRest rest)
                = rest.takeWhile Char.isDigit ++ '.' :: next :: places
              ∧ ∀ c ∈ next :: places, c.isDigit = true) := by
  have hshort : (rest.takeWhile Char.isDigit).length ≤ rest.length :=
    (List.takeWhile_sublist _).length_le
  by_cases hpoint : (rest.dropWhile Char.isDigit).head? = some '.'
  · obtain ⟨after, hdrop⟩ := List.head?_eq_some_iff.1 hpoint
    rw [numberRest_of_point hdrop]
    -- no digit behind the point: it is left for an operator
    cases hpart : after.takeWhile Char.isDigit with
    | nil => exact ⟨hshort, Or.inl (take_length_takeWhile _ _)⟩
    | cons next places =>
        have hrest : rest.takeWhile Char.isDigit ++ '.' :: next :: places
            ++ after.dropWhile Char.isDigit = rest := by
          rw [List.append_assoc, List.cons_append, ← hpart,
            List.takeWhile_append_dropWhile, ← hdrop,
            List.takeWhile_append_dropWhile]
        have hlen : (rest.takeWhile Char.isDigit).length + 1
            + (next :: places).length
              = (rest.takeWhile Char.isDigit
                  ++ '.' :: next :: places).length := by
          rw [List.length_append, List.length_cons (a := '.')]
          omega
        rw [if_neg (by simp), hlen]
        refine ⟨?_, Or.inr ⟨next, places, ?_, ?_⟩⟩
        · have hle := congrArg List.length hrest
          rw [List.length_append] at hle
          omega
        · generalize rest.takeWhile Char.isDigit ++ '.' :: next :: places
              = text at hrest ⊢
          rw [← hrest]
          exact List.take_left
        · rw [← hpart]
          exact fun c hc => of_mem_takeWhile hc
  · rw [numberRest_of_no_point hpoint]
    exact ⟨hshort, Or.inl (take_length_takeWhile _ _)⟩

/-- What a number takes is digits, or digits around a point. -/
private theorem regular_number {c : Char} (h : c.isDigit = true)
    (rest : List Char) :
    Regular .number (c :: rest.take (numberRest rest))
      (rest.drop (numberRest rest)) := by
  have hwhole : ∀ d ∈ rest.takeWhile Char.isDigit, d.isDigit = true :=
    fun d hd => of_mem_takeWhile hd
  rcases (take_numberRest rest).2 with htake | ⟨next, places, htake, hdigits⟩
  · rw [htake]
    exact .whole _ h hwhole
  · rw [htake]
    exact .fraction _ h hwhole (hdigits next List.mem_cons_self)
      fun d hd => hdigits d (List.mem_cons_of_mem next hd)

/-- What the reader takes from a quote on: up to the next quote, or all that is
left. -/
private theorem regular_quote (rest : List Char) :
    (leadingRule '"' rest).2 ≤ rest.length
      ∧ Regular (leadingRule '"' rest).1
        ('"' :: rest.take (leadingRule '"' rest).2)
          (rest.drop (leadingRule '"' rest).2) := by
  by_cases hquote : '"' ∈ rest
  · obtain ⟨inside, after, rfl, hnot⟩ := List.eq_append_cons_of_mem hquote
    have hin : ∀ c ∈ inside, c ≠ '"' := fun c hc heq => hnot (heq ▸ hc)
    have hsplit : inside ++ '"' :: after = (inside ++ ['"']) ++ after := by
      rw [List.append_assoc, List.singleton_append]
    have hlen : inside.length + 1 = (inside ++ ['"']).length := by
      rw [List.length_append, List.length_singleton]
    rw [leadingRule_string hin, hsplit, hlen, List.take_left]
    exact ⟨(List.sublist_append_left _ _).length_le, .string _ hin⟩
  · have hin : ∀ c ∈ rest, c ≠ '"' := fun c hc heq => hquote (heq ▸ hc)
    rw [leadingRule_openString hin, List.take_length, List.drop_length]
    exact ⟨Nat.le_refl _, .openString hin⟩

/-- What the reader takes from the first character of an operator on: a comment
behind two slashes, and else the longest operator that stands there. -/
private theorem regular_operator {c : Char} {o : Operator}
    (h : Operator.ofSpelling? [c] = some o) (rest : List Char) :
    (leadingRule c rest).2 ≤ rest.length
      ∧ Regular (leadingRule c rest).1 (c :: rest.take (leadingRule c rest).2)
          (rest.drop (leadingRule c rest).2) := by
  by_cases hslash : c = '/' ∧ rest.head? = some '/'
  · obtain ⟨rfl, hhead⟩ := hslash
    cases rest with
    | nil => cases hhead
    | cons d rest =>
        rw [List.head?_cons, Option.some.injEq] at hhead
        rw [hhead, leadingRule_comment, List.take_succ_cons,
          take_length_takeWhile, List.length_cons]
        refine ⟨Nat.succ_le_succ (List.takeWhile_sublist _).length_le,
          .comment _ fun d hd => ?_⟩
        simpa using of_mem_takeWhile hd
  · have hspelling : o.spelling ++ rest = c :: rest := by
      rw [Operator.ofSpelling?_eq_some_iff.1 h]
      rfl
    obtain ⟨p, hp, -⟩ := Operator.leading?_of_spelling hspelling
    have htake := Operator.spelling_of_leading? hp
    rw [leadingRule_operator h hslash hp, htake]
    refine ⟨?_, .operator p _⟩
    have hlen := congrArg List.length htake
    rw [List.length_cons, List.length_take] at hlen
    dsimp only
    omega

/-- What the reader takes stands there, and is a text of the rule that it
names. This is the half of the theorem that shows a longest beginning to
exist; the other is `length_le_of_fits`. -/
theorem fits_leadingRule (c : Char) (rest : List Char) :
    (leadingRule c rest).2 ≤ rest.length
      ∧ Fits (leadingRule c rest).1 (c :: rest.take (leadingRule c rest).2)
          (rest.drop (leadingRule c rest).2) := by
  by_cases hstarts : Starts c
  case neg =>
    rw [leadingRule_stray hstarts]
    exact ⟨Nat.zero_le _, .stray _ hstarts⟩
  case pos =>
    suffices h : (leadingRule c rest).2 ≤ rest.length
        ∧ Regular (leadingRule c rest).1 (c :: rest.take (leadingRule c rest).2)
            (rest.drop (leadingRule c rest).2) from ⟨h.1, .regular h.2⟩
    cases starts_iff.1 hstarts with
    | blank h =>
        rw [leadingRule_blank h]
        exact ⟨Nat.zero_le _, .blank _ (eq_of_isBlank h)⟩
    | newline h =>
        subst h
        exact ⟨Nat.zero_le _, .newline _⟩
    | word h =>
        rw [leadingRule_word h, take_length_takeWhile]
        exact ⟨(List.takeWhile_sublist _).length_le,
          .word _ h fun d hd => of_mem_takeWhile hd⟩
    | number h =>
        rw [leadingRule_number h]
        exact ⟨(take_numberRest rest).1, regular_number h rest⟩
    | quote h =>
        subst h
        exact regular_quote rest
    | operator h => exact regular_operator h rest

/-- Digits in front belong to the number: it takes them all, and perhaps a
fraction too. -/
private theorem length_le_numberRest {digits : List Char}
    (h : ∀ c ∈ digits, c.isDigit = true) (after : List Char) :
    digits.length ≤ numberRest (digits ++ after) := by
  have hrun := length_le_takeWhile h after
  obtain ⟨hle, htake⟩ := take_numberRest (digits ++ after)
  have hlen := List.length_take_of_le hle
  rcases htake with htake | ⟨next, places, htake, -⟩
  · rw [htake] at hlen
    omega
  · rw [htake, List.length_append] at hlen
    omega

/-- A point and digits behind the digits in front belong to it as well. -/
private theorem length_le_numberRest_fraction {digits places : List Char}
    {next : Char}
    (h : ∀ c ∈ digits, c.isDigit = true) (hnext : next.isDigit = true)
    (hplaces : ∀ c ∈ places, c.isDigit = true) (after : List Char) :
    digits.length + 2 + places.length
      ≤ numberRest (digits ++ '.' :: next :: (places ++ after)) := by
  have hwhole :
      (digits ++ '.' :: next :: (places ++ after)).takeWhile Char.isDigit
      = digits := takeWhile_eq_of_stop h rfl _
  have hdrop :
      (digits ++ '.' :: next :: (places ++ after)).dropWhile Char.isDigit
      = '.' :: next :: (places ++ after) := by
    rw [List.dropWhile_append_of_pos h]
    rfl
  have hpart := length_le_takeWhile hplaces after
  rw [numberRest_of_point hdrop, hwhole, List.takeWhile_cons_of_pos hnext,
    if_neg (by simp), List.length_cons]
  omega

/-- An operator is no longer than what the reader takes in its place. The
reader may take a comment there, or an operator that is longer by an equals
sign. -/
private theorem length_le_of_operator {o : Operator} {after : List Char}
    {c : Char}
    {rest : List Char} (hsplit : o.spelling ++ after = c :: rest) :
    o.spelling.length ≤ (leadingRule c rest).2 + 1
      ∧ (o.spelling.length = (leadingRule c rest).2 + 1
          → Rule.operator o = (leadingRule c rest).1) := by
  obtain ⟨d, q, hd, hq⟩ := o.exists_ofSpelling?_head
  have hhead : (o.spelling ++ after).head? = some d := by
    rw [List.head?_append, hd]
    rfl
  rw [hsplit, List.head?_cons, Option.some.injEq] at hhead
  rw [← hhead] at hq
  by_cases hslash : c = '/' ∧ rest.head? = some '/'
  · -- two slashes: the only operator is a slash, and the comment is longer
    obtain ⟨rfl, hsecond⟩ := hslash
    cases rest with
    | nil => cases hsecond
    | cons e rest =>
        rw [List.head?_cons, Option.some.injEq] at hsecond
        rw [hsecond] at hsplit ⊢
        rw [leadingRule_comment]
        rcases o.spelling_eq with ⟨f, hf⟩ | ⟨f, hf⟩
        · rw [hf, List.length_singleton]
          constructor <;> omega
        · rw [hf] at hsplit
          exact absurd (List.cons.inj (List.cons.inj hsplit).2).1 (by decide)
  · obtain ⟨p, hp, hlonger⟩ := Operator.leading?_of_spelling hsplit
    rw [leadingRule_operator hq hslash hp]
    rcases hlonger with rfl | hlonger
    · refine ⟨by omega, fun _ => rfl⟩
    · constructor <;> omega

/-- No rule allows a longer text in front, and only the one that the reader
names allows one as long. The cases are those of the grammar: in each the
shape of the text says what its first character is, hence which branch the
reader takes, and the text is then measured against what this branch takes. -/
theorem length_le_of_fits {rule : Rule} {text after : List Char} {c : Char}
    {rest : List Char} (h : Fits rule text after)
    (hsplit : text ++ after = c :: rest) :
    text.length ≤ (leadingRule c rest).2 + 1
      ∧ (text.length = (leadingRule c rest).2 + 1 →
        rule = (leadingRule c rest).1) := by
  cases h with
  | stray _ hstray =>
      obtain ⟨rfl, rfl⟩ := List.cons.inj hsplit
      rw [leadingRule_stray hstray]
      exact ⟨Nat.le_refl _, fun _ => rfl⟩
  | regular h =>
      cases h with
      | operator o => exact length_le_of_operator hsplit
      | comment _ hin =>
          -- the reader takes all up to the line end, and the text has none
          simp only [List.cons_append, List.cons.injEq] at hsplit
          obtain ⟨rfl, rfl⟩ := hsplit
          have hrun := length_le_takeWhile (p := (· != '\n'))
            (fun d hd => by simpa using hin d hd) after
          rw [leadingRule_comment, List.length_cons, List.length_cons]
          exact ⟨by omega, fun _ => rfl⟩
      | @blank d _ hd =>
          obtain ⟨rfl, rfl⟩ := List.cons.inj hsplit
          have hblank : isBlank d = true := by
            rcases hd with rfl | rfl | rfl
            all_goals rfl
          rw [leadingRule_blank hblank]
          exact ⟨Nat.le_refl _, fun _ => rfl⟩
      | newline =>
          obtain ⟨rfl, rfl⟩ := List.cons.inj hsplit
          exact ⟨Nat.le_refl _, fun _ => rfl⟩
      | string _ hin =>
          -- both end with the first quote, so the lengths are equal here
          simp only [List.cons_append, List.append_assoc, List.nil_append,
            List.cons.injEq] at hsplit
          obtain ⟨rfl, rfl⟩ := hsplit
          rw [leadingRule_string hin, List.length_cons, List.length_append]
          exact ⟨Nat.le_refl _, fun _ => rfl⟩
      | openString hin =>
          simp only [List.append_nil, List.cons.injEq] at hsplit
          obtain ⟨rfl, rfl⟩ := hsplit
          rw [leadingRule_openString hin, List.length_cons]
          exact ⟨Nat.le_refl _, fun _ => rfl⟩
      | whole _ hfirst hdigits =>
          -- the text may be the front of a number: more digits may follow, or
          -- a fraction
          simp only [List.cons_append, List.cons.injEq] at hsplit
          obtain ⟨rfl, rfl⟩ := hsplit
          have hle := length_le_numberRest hdigits after
          rw [leadingRule_number hfirst, List.length_cons]
          exact ⟨by omega, fun _ => rfl⟩
      | fraction _ hfirst hdigits hnext hplaces =>
          simp only [List.cons_append, List.append_assoc,
            List.cons.injEq] at hsplit
          obtain ⟨rfl, rfl⟩ := hsplit
          have hle := length_le_numberRest_fraction hdigits hnext hplaces after
          rw [leadingRule_number hfirst, List.length_cons, List.length_append,
            List.length_cons, List.length_cons]
          exact ⟨by omega, fun _ => rfl⟩
      | word _ hfirst hparts =>
          -- likewise of a word
          simp only [List.cons_append, List.cons.injEq] at hsplit
          obtain ⟨rfl, rfl⟩ := hsplit
          have hrun := length_le_takeWhile hparts after
          rw [leadingRule_word hfirst, List.length_cons]
          exact ⟨by omega, fun _ => rfl⟩

-- ============================================== the longest beginning

private theorem length_leadingRule (c : Char) (rest : List Char) :
    (c :: rest.take (leadingRule c rest).2).length
      = (leadingRule c rest).2 + 1 := by
  rw [List.length_cons, List.length_take_of_le (fits_leadingRule c rest).1]

/-- What the reader takes is the longest beginning that any rule allows. -/
theorem longest_leadingRule (c : Char) (rest : List Char) :
    Longest (leadingRule c rest).1 (c :: rest.take (leadingRule c rest).2)
      (rest.drop (leadingRule c rest).2) := by
  refine ⟨(fits_leadingRule c rest).2, ?_⟩
  intro other text after hfits hsplit
  rw [List.cons_append, List.take_append_drop] at hsplit
  rw [length_leadingRule]
  exact (length_le_of_fits hfits hsplit).1

/-- Nothing else is: the rule and the length of the longest beginning are
those that the reader finds. So maximal munch never leaves a choice, and a
reserved word is told from an identifier by its text and not by a rule. -/
theorem eq_leadingRule_of_longest {rule : Rule} {text after : List Char}
    {c : Char}
    {rest : List Char} (h : Longest rule text after)
    (hsplit : text ++ after = c :: rest) :
    rule = (leadingRule c rest).1 ∧ text = c :: rest.take (leadingRule c rest).2
      ∧ after = rest.drop (leadingRule c rest).2 := by
  have hread :
      c :: rest.take (leadingRule c rest).2 ++ rest.drop (leadingRule c rest).2
      = text ++ after := by
    rw [List.cons_append, List.take_append_drop, hsplit]
  -- each is at least as long as the other
  have hge := h.2 _ _ _ (fits_leadingRule c rest).2 hread
  obtain ⟨hle, hrule⟩ := length_le_of_fits h.1 hsplit
  rw [length_leadingRule] at hge
  have hlen : text.length = (leadingRule c rest).2 + 1 :=
    Nat.le_antisymm hle hge
  obtain ⟨htext, hafter⟩ :=
    List.append_inj hread (by rw [length_leadingRule, hlen])
  exact ⟨hrule hlen, htext.symm, hafter.symm⟩

end LoxLexer
