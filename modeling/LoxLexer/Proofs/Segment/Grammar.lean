/-
The lexical grammar of Lox, said without any reading direction: what texts
each rule allows, and what it means to be the longest.

# The grammar

`Regular` lists the eight rules that say what their texts look like. All but
one of them look at the text alone; an open string also needs to know that
nothing stands behind it, and so every rule is asked of a text and of the
characters behind it. The ninth rule, the stray, is for a character that no
text of the other eight begins with (`Fits`).

# What starts a text

`starts_iff` names the characters that texts of the eight rules begin with.
So strays are known from their character alone, and an operator is known from
its first character up to an equals sign behind it (`leading?_eq`).
-/
import Mathlib
import LoxLexer.Segment.Rule

namespace LoxLexer

-- =========================================================== the rules

/-- Whether a text is one that a rule allows, in front of what follows. The
stray is left out here: it is defined by what the others cannot begin. Only
the open string asks anything of what follows, so a rule is met or not by the
text itself in all other cases. -/
inductive Regular : Rule → List Char → List Char → Prop where
  | operator (o : Operator) (after : List Char) :
      Regular (.operator o) o.spelling after
  /-- Two slashes and anything but a line end. -/
  | comment {inside : List Char} (after : List Char)
      (h : ∀ c ∈ inside, c ≠ '\n') :
      Regular .comment ('/' :: '/' :: inside) after
  | blank {c : Char} (after : List Char) (h : c = ' ' ∨ c = '\t' ∨ c = '\r') :
      Regular .blank [c] after
  | newline (after : List Char) : Regular .newline ['\n'] after
  /-- Two quotes and anything but a quote between them. -/
  | string {inside : List Char} (after : List Char)
      (h : ∀ c ∈ inside, c ≠ '"') :
      Regular .string ('"' :: (inside ++ ['"'])) after
  /-- A quote and no other up to the end of the text. -/
  | openString {inside : List Char} (h : ∀ c ∈ inside, c ≠ '"') :
      Regular .openString ('"' :: inside) []
  /-- One digit or more. -/
  | whole {first : Char} {digits : List Char} (after : List Char)
      (hfirst : first.isDigit = true) (h : ∀ c ∈ digits, c.isDigit = true) :
      Regular .number (first :: digits) after
  /-- One digit or more on both sides of a point. -/
  | fraction {first next : Char} {digits places : List Char} (after : List Char)
      (hfirst : first.isDigit = true) (h : ∀ c ∈ digits, c.isDigit = true)
      (hnext : next.isDigit = true) (hplaces : ∀ c ∈ places, c.isDigit = true) :
      Regular .number (first :: (digits ++ '.' :: next :: places)) after
  /-- A letter or underscore, and then digits too. -/
  | word {first : Char} {rest : List Char} (after : List Char)
      (hfirst : isWordStart first = true)
      (h : ∀ c ∈ rest, isWordPart c = true) :
      Regular .word (first :: rest) after

/-- Whether some rule but the stray has a text that begins with a
character. -/
def Starts (c : Char) : Prop :=
  ∃ rule text after, Regular rule (c :: text) after

/-- Whether a text is one that a rule allows, in front of what follows. A
stray is a single character that none of the other rules begins with. -/
inductive Fits : Rule → List Char → List Char → Prop where
  | regular {rule : Rule} {text after : List Char}
      (h : Regular rule text after) :
      Fits rule text after
  | stray {c : Char} (after : List Char) (h : ¬ Starts c) :
      Fits .stray [c] after

/-- A stray is one character, and starts nothing. Here is all that can be said
of it: what stands behind is not looked at. -/
theorem Fits.of_stray {text after : List Char} (h : Fits .stray text after) :
    ∃ c, text = [c] ∧ ¬ Starts c := by
  cases h with
  | regular h => cases h
  | @stray c _ h => exact ⟨c, rfl, h⟩

/-- Nothing stands behind an open string. -/
theorem Fits.of_openString {text after : List Char}
    (h : Fits .openString text after) :
    after = [] := by
  cases h with
  | regular h =>
      cases h with
      | openString => rfl

/-- Whether a rule allows a text in front of what follows, and no rule allows
a longer beginning of the two together. The other beginnings are compared by
their length alone, under every rule: that no two rules allow the same longest
text is a theorem (`eq_leadingRule_of_longest`), not part of the notion. -/
def Longest (rule : Rule) (text after : List Char) : Prop :=
  Fits rule text after
    ∧ ∀ other text' after', Fits other text' after' →
      text' ++ after' = text ++ after →
        text'.length ≤ text.length

/-- Behind a slash that is an operator there is no other slash: the two would
be a comment, and that is longer. -/
theorem Longest.head?_of_slash {after : List Char}
    (h : Longest (.operator .slash) ['/'] after) : after.head? ≠ some '/' := by
  intro hhead
  obtain ⟨rest, rfl⟩ := List.head?_eq_some_iff.1 hhead
  have hcomment : Fits .comment ['/', '/'] rest :=
    .regular (.comment rest fun c hc => absurd hc List.not_mem_nil)
  have hle := h.2 .comment ['/', '/'] rest hcomment rfl
  exact absurd hle (by decide)

/-- Behind a comment there is nothing but a line end: any other character
would make a longer comment. -/
theorem Longest.head?_of_comment {inside after : List Char}
    (h : Longest .comment ('/' :: '/' :: inside) after)
    (hin : ∀ c ∈ inside, c ≠ '\n') : ∀ c, after.head? = some c → c = '\n' := by
  intro c hhead
  obtain ⟨rest, rfl⟩ := List.head?_eq_some_iff.1 hhead
  by_cases hc : c = '\n'
  · exact hc
  · -- with the character the comment would be longer by one
    have hmore : ∀ d ∈ inside ++ [c], d ≠ '\n' := by
      intro d hd
      rcases List.mem_append.1 hd with hd | hd
      · exact hin d hd
      · rw [List.mem_singleton.1 hd]
        exact hc
    have hle := h.2 .comment ('/' :: '/' :: (inside ++ [c])) rest
      (.regular (.comment rest hmore)) (by simp)
    simp only [List.length_cons, List.length_append, List.length_nil] at hle
    omega

-- ========================================================== operators

namespace Operator

/-- An operator is one character, or one character and an equals sign. What is
said of operators goes by these two forms, and not by their table. -/
theorem spelling_eq (o : Operator) :
    (∃ c, o.spelling = [c]) ∨ (∃ c, o.spelling = [c, '=']) := by
  cases o
  all_goals first
    | exact Or.inl ⟨_, rfl⟩
    | exact Or.inr ⟨_, rfl⟩

/-- The first character of an operator is an operator itself. -/
theorem exists_ofSpelling?_head (o : Operator) :
    ∃ c p, o.spelling.head? = some c ∧ ofSpelling? [c] = some p := by
  cases o
  all_goals exact ⟨_, _, rfl, rfl⟩

/-- The second character of an operator can only be an equals sign. -/
theorem eq_of_ofSpelling?_pair {c d : Char} {o : Operator}
    (h : ofSpelling? [c, d] = some o) : d = '=' := by
  rw [ofSpelling?_eq_some_iff] at h
  rcases o.spelling_eq with ⟨e, he⟩ | ⟨e, he⟩
  · rw [he] at h
    cases h
  · rw [he] at h
    simp only [List.cons.injEq, and_true] at h
    exact h.2.symm

/-- Only an equals sign behind the first character can make it longer. So what
stands further on is not looked at, nor what else stands behind. -/
theorem leading?_eq (c : Char) (rest : List Char) :
    leading? c rest
      = if rest.head? = some '='
        then (ofSpelling? [c, '=']).or (ofSpelling? [c])
        else ofSpelling? [c] := by
  unfold leading?
  cases rest with
  | nil => rfl
  | cons d rest =>
      by_cases hd : d = '='
      · subst hd
        rfl
      · have hnone : ofSpelling? [c, d] = none := by
          cases h : ofSpelling? [c, d] with
          | none => rfl
          | some o => exact absurd (eq_of_ofSpelling?_pair h) hd
        simp [hd, hnone]

/-- What is found in front of a text is spelled there. -/
theorem spelling_of_leading? {c : Char} {rest : List Char} {o : Operator}
    (h : leading? c rest = some o) :
    c :: rest.take (o.spelling.length - 1) = o.spelling := by
  rw [leading?_eq] at h
  split at h
  case isTrue heq =>
    rcases Option.or_eq_some_iff.1 h with h | ⟨-, h⟩
    · rw [ofSpelling?_eq_some_iff] at h
      cases rest with
      | nil => cases heq
      | cons d rest =>
          rw [List.head?_cons, Option.some.injEq] at heq
          rw [h, heq]
          rfl
    · rw [ofSpelling?_eq_some_iff] at h
      rw [h]
      rfl
  case isFalse =>
    rw [ofSpelling?_eq_some_iff] at h
    rw [h]
    rfl

/-- An operator spelled in front of a text is found there, or else a longer
one is. It is not always the operator itself: `!` is spelled in front of `!=`,
and `!=` is found. -/
theorem leading?_of_spelling {o : Operator} {c : Char} {rest after : List Char}
    (h : o.spelling ++ after = c :: rest) :
    ∃ p, leading? c rest = some p
      ∧ (p = o ∨ o.spelling.length < p.spelling.length) := by
  rw [leading?_eq]
  rcases o.spelling_eq with ⟨e, he⟩ | ⟨e, he⟩
  · rw [he, List.singleton_append, List.cons.injEq] at h
    obtain ⟨rfl, rfl⟩ := h
    have ho : ofSpelling? [e] = some o := ofSpelling?_eq_some_iff.2 he
    split
    case isTrue =>
      -- an equals sign behind: it may make the operator longer
      cases hp : ofSpelling? [e, '='] with
      | none => exact ⟨o, by rw [ho]; rfl, Or.inl rfl⟩
      | some p =>
          refine ⟨p, rfl, Or.inr ?_⟩
          rw [he, ofSpelling?_eq_some_iff.1 hp]
          exact Nat.lt_succ_self 1
    case isFalse => exact ⟨o, ho, Or.inl rfl⟩
  · rw [he, List.cons_append, List.singleton_append, List.cons.injEq] at h
    obtain ⟨rfl, rfl⟩ := h
    have ho : ofSpelling? [e, '='] = some o := ofSpelling?_eq_some_iff.2 he
    exact ⟨o, by rw [List.head?_cons, if_pos rfl, ho]; rfl, Or.inl rfl⟩

end Operator

-- ========================================== what the first character says

theorem range_of_isDigit {c : Char} (h : c.isDigit = true) :
    48 ≤ c.toNat ∧ c.toNat ≤ 57 :=
  Char.isDigit_iff_toNat.1 h

theorem range_of_isAlpha {c : Char} (h : c.isAlpha = true) :
    (65 ≤ c.toNat ∧ c.toNat ≤ 90) ∨ (97 ≤ c.toNat ∧ c.toNat ≤ 122) := by
  simp only [Char.isAlpha, Char.isUpper, Char.isLower, Bool.or_eq_true,
    Bool.and_eq_true, decide_eq_true_eq, ge_iff_le, UInt32.le_iff_toNat_le] at h
  exact h

theorem eq_of_isBlank {c : Char} (h : isBlank c = true) :
    c = ' ' ∨ c = '\t' ∨ c = '\r' := by
  simp only [isBlank, Bool.or_eq_true, beq_iff_eq] at h
  rcases h with (h | h) | h
  · exact Or.inl h
  · exact Or.inr (Or.inl h)
  · exact Or.inr (Or.inr h)

/-- What a word starts with is no gap. -/
theorem not_gap_of_isWordStart {c : Char} (h : isWordStart c = true) :
    isBlank c = false ∧ c ≠ '\n' := by
  constructor
  · cases hb : isBlank c with
    | false => rfl
    | true =>
        rcases eq_of_isBlank hb with rfl | rfl | rfl
        all_goals exact absurd h (by decide)
  · intro hc
    subst hc
    exact absurd h (by decide)

/-- What a number starts with is no gap and starts no word. -/
theorem not_gap_of_isDigit {c : Char} (h : c.isDigit = true) :
    isBlank c = false ∧ c ≠ '\n' ∧ isWordStart c = false := by
  refine ⟨?_, ?_, ?_⟩
  · cases hb : isBlank c with
    | false => rfl
    | true =>
        rcases eq_of_isBlank hb with rfl | rfl | rfl
        all_goals exact absurd h (by decide)
  · intro hc
    subst hc
    exact absurd h (by decide)
  · cases hw : isWordStart c with
    | false => rfl
    | true =>
        simp only [isWordStart, Bool.or_eq_true, beq_iff_eq] at hw
        have hdigit := range_of_isDigit h
        rcases hw with hw | rfl
        · have halpha := range_of_isAlpha hw
          omega
        · exact absurd h (by decide)

/-- What an operator starts with is nothing else: with `not_gap_of_isDigit` and
`not_gap_of_isWordStart` the classes of first characters exclude one another,
and the order in which a reader asks for them does not matter. -/
theorem not_gap_of_ofSpelling? {c : Char} {o : Operator}
    (h : Operator.ofSpelling? [c] = some o) :
    isBlank c = false ∧ c ≠ '\n' ∧ isWordStart c = false ∧ c.isDigit = false
      ∧ c ≠ '"' := by
  rw [Operator.ofSpelling?_eq_some_iff] at h
  cases o
  all_goals
    simp only [Operator.spelling, List.cons.injEq, and_true, reduceCtorEq,
      and_false] at h
  all_goals
    subst h
    decide

/-- What a word starts with, it may go on with. -/
theorem isWordPart_of_isWordStart {c : Char} (h : isWordStart c = true) :
    isWordPart c = true := by
  simp only [isWordStart, isWordPart, Char.isAlphanum, Bool.or_eq_true] at h ⊢
  rcases h with h | h
  · exact Or.inl (Or.inl h)
  · exact Or.inr h

/-- Numbers are written with digits and points. -/
theorem Fits.isDigit_or_point {text after : List Char}
    (h : Fits .number text after) : ∀ c ∈ text, c.isDigit = true ∨ c = '.' := by
  intro c hc
  cases h with
  | regular h =>
      cases h with
      | whole _ hfirst hdigits =>
          rcases List.mem_cons.1 hc with rfl | hc
          · exact Or.inl hfirst
          · exact Or.inl (hdigits c hc)
      | fraction _ hfirst hdigits hnext hplaces =>
          simp only [List.mem_cons, List.mem_append] at hc
          rcases hc with rfl | hc | rfl | rfl | hc
          · exact Or.inl hfirst
          · exact Or.inl (hdigits c hc)
          · exact Or.inr rfl
          · exact Or.inl hnext
          · exact Or.inl (hplaces c hc)

/-- Words are written with letters, digits and underscores. -/
theorem Fits.isWordPart {text after : List Char} (h : Fits .word text after) :
    ∀ c ∈ text, isWordPart c = true := by
  cases h with
  | regular h =>
      cases h with
      | word _ hfirst hrest =>
          exact List.forall_mem_cons.2 ⟨isWordPart_of_isWordStart hfirst, hrest⟩

/-- What the first character of a text of the eight rules is. The comment has
no case of its own: it begins with a slash, and this is an operator. -/
inductive Opening (c : Char) : Prop where
  | blank (h : isBlank c = true)
  | newline (h : c = '\n')
  | word (h : isWordStart c = true)
  | number (h : c.isDigit = true)
  | quote (h : c = '"')
  | operator {o : Operator} (h : Operator.ofSpelling? [c] = some o)

/-- The first character of a text of the eight rules. -/
private theorem opening_of_regular {rule : Rule} {text after : List Char}
    (h : Regular rule text after) : ∀ c, text.head? = some c → Opening c := by
  intro c hc
  cases h with
  | operator o =>
      obtain ⟨d, p, hd, hp⟩ := o.exists_ofSpelling?_head
      rw [hd] at hc
      cases hc
      exact .operator hp
  | comment =>
      cases hc
      exact .operator (o := .slash) rfl
  | blank _ hblank =>
      cases hc
      apply Opening.blank
      rcases hblank with h | h | h
      all_goals
        subst h
        rfl
  | newline =>
      cases hc
      exact .newline rfl
  | string | openString =>
      cases hc
      exact .quote rfl
  | whole _ hfirst | fraction _ hfirst =>
      cases hc
      exact .number hfirst
  | word _ hfirst =>
      cases hc
      exact .word hfirst

/-- The characters that texts of the eight rules begin with. It gives strays
a description by characters alone, and all case distinctions by the first
character of a text go through it. -/
theorem starts_iff {c : Char} : Starts c ↔ Opening c := by
  constructor
  · intro h
    obtain ⟨rule, text, after, hregular⟩ := h
    exact opening_of_regular hregular c rfl
  · intro h
    cases h with
    | blank h => exact ⟨.blank, [], [], .blank [] (eq_of_isBlank h)⟩
    | newline h =>
        subst h
        exact ⟨.newline, [], [], .newline []⟩
    | word h => exact ⟨.word, [], [], .word [] h (by simp)⟩
    | number h => exact ⟨.number, [], [], .whole [] h (by simp)⟩
    | quote h =>
        -- the shortest text with it: a string opened and not closed
        subst h
        exact ⟨.openString, [], [], .openString (by simp)⟩
    | @operator o h =>
        refine ⟨.operator o, [], [], ?_⟩
        rw [← Operator.ofSpelling?_eq_some_iff.1 h]
        exact .operator o []

/-- What starts nothing is none of these. -/
theorem not_opening {c : Char} (h : ¬ Starts c) :
    ¬ isBlank c = true ∧ c ≠ '\n' ∧ ¬ isWordStart c = true
      ∧ ¬ c.isDigit = true ∧ c ≠ '"' ∧ Operator.ofSpelling? [c] = none := by
  rw [starts_iff] at h
  refine ⟨fun hc => h (.blank hc), fun hc => h (.newline hc),
    fun hc => h (.word hc), fun hc => h (.number hc),
    fun hc => h (.quote hc), ?_⟩
  cases ho : Operator.ofSpelling? [c] with
  | none => rfl
  | some o => exact absurd (.operator ho) h

end LoxLexer
