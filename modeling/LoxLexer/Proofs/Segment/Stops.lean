/-
How far ahead the longest beginning of a text has to look. Whether a text of
a rule is the longest is decided by what follows it, and of that by two
characters at most: the second counts only behind a point that follows the
digits of a number. `Stops` says for each rule what must not follow, and there
is nothing else to say: the longest beginning stops (`Longest.stops`), and what
stops is the longest (`Fits.longest_of_stops`).

# Gaps

Blanks and line ends are in no class that a text goes on with. So nothing but
a comment or an open string goes on into a gap (`stops_of_gap`), and to put a
gap, or the end of the text, in the place of what follows never makes a text
longer (`Longest.of_quieter`). This is what every law about a text that is put
together from others, or has parts taken out of it, comes down to.
-/
import LoxLexer.Proofs.Segment.Longest

namespace LoxLexer

-- ============================================================ stopping

/-- Whether nothing that follows a text of a rule could belong to it. -/
def Stops (rule : Rule) (text after : List Char) : Prop :=
  match rule with
  | .operator o =>
    (o = .slash → after.head? ≠ some '/')
      ∧ (after.head? = some '='
        → Operator.ofSpelling? (o.spelling ++ ['=']) = none)
  | .comment => ∀ c, after.head? = some c → c = '\n'
  | .openString => after = []
  | .number =>
    (∀ c, after.head? = some c → c.isDigit = false)
      ∧ ('.' ∉ text → ∀ c rest, after = '.' :: c :: rest → c.isDigit = false)
  | .word => ∀ c, after.head? = some c → isWordPart c = false
  | .blank | .newline | .string | .stray => True

/-- Only an open string has to know what stands behind it. So a text that was
cut out of one source can be asked about in another. -/
theorem Fits.of_after {rule : Rule} {text after : List Char}
    (h : Fits rule text after) (hopen : rule ≠ .openString)
    (other : List Char) : Fits rule text other := by
  cases h with
  | stray _ hstray => exact .stray other hstray
  | regular h =>
      apply Fits.regular
      cases h with
      | operator o => exact .operator o other
      | comment _ hin => exact .comment other hin
      | blank _ hc => exact .blank other hc
      | newline => exact .newline other
      | string _ hin => exact .string other hin
      | openString => exact absurd rfl hopen
      | whole _ hfirst hdigits => exact .whole other hfirst hdigits
      | fraction _ hfirst hdigits hnext hplaces =>
          exact .fraction other hfirst hdigits hnext hplaces
      | word _ hfirst hrest => exact .word other hfirst hrest

-- ==================================================== longest, so it stops

/-- No rule allows the longest beginning and something of what follows. This is
how a character is shown not to follow: with it, the text would be longer. -/
theorem Longest.eq_nil_of_fits {rule other : Rule}
    {text after more rest : List Char} (h : Longest rule text after)
    (hafter : after = more ++ rest) (hfits : Fits other (text ++ more) rest) :
    more = [] := by
  have hle := h.2 other (text ++ more) rest hfits
    (by rw [hafter, List.append_assoc])
  rw [List.length_append] at hle
  exact List.eq_nil_of_length_eq_zero (by omega)

/-- An operator is taken with the equals sign that belongs to it. -/
private theorem stops_of_longest_operator {o : Operator} {after : List Char}
    (h : Longest (.operator o) o.spelling after) :
    Stops (.operator o) o.spelling after := by
  refine ⟨?_, ?_⟩
  · intro ho
    subst ho
    exact h.head?_of_slash
  · intro hhead
    obtain ⟨rest, rfl⟩ := List.head?_eq_some_iff.1 hhead
    cases hp : Operator.ofSpelling? (o.spelling ++ ['=']) with
    | none => rfl
    | some p =>
        have hfits : Fits (.operator p) (o.spelling ++ ['=']) rest := by
          rw [← Operator.ofSpelling?_eq_some_iff.1 hp]
          exact .regular (.operator p rest)
        cases h.eq_nil_of_fits rfl hfits

/-- A number is taken with the digits, and the point before digits, that
follow it. -/
private theorem stops_of_longest_number {text after : List Char}
    (h : Longest .number text after) : Stops .number text after := by
  obtain ⟨hfits, -⟩ := id h
  cases hfits with
  | regular hregular =>
      cases hregular with
      | @whole first digits _ hfirst hdigits =>
          constructor
          · -- a digit would make one more digit
            intro c hhead
            obtain ⟨rest, rfl⟩ := List.head?_eq_some_iff.1 hhead
            rw [Bool.eq_false_iff]
            intro hc
            have hmore : Fits .number ((first :: digits) ++ [c]) rest :=
              .regular (.whole rest hfirst
                (List.forall_mem_append.2
                  ⟨hdigits, List.forall_mem_singleton.2 hc⟩))
            cases h.eq_nil_of_fits rfl hmore
          · -- a point and a digit would make a fraction
            intro _ c rest hafter
            rw [Bool.eq_false_iff]
            intro hc
            have hmore : Fits .number ((first :: digits) ++ ['.', c]) rest :=
              .regular (.fraction rest hfirst hdigits hc (by simp))
            cases h.eq_nil_of_fits hafter hmore
      | @fraction first next digits places _ hfirst hdigits hnext hplaces =>
          constructor
          · intro c hhead
            obtain ⟨rest, rfl⟩ := List.head?_eq_some_iff.1 hhead
            rw [Bool.eq_false_iff]
            intro hc
            have hmore : Fits .number
                (first :: (digits ++ '.' :: next :: places) ++ [c]) rest := by
              rw [List.cons_append, List.append_assoc, List.cons_append,
                List.cons_append]
              exact .regular (.fraction rest hfirst hdigits hnext
                (List.forall_mem_append.2
                  ⟨hplaces, List.forall_mem_singleton.2 hc⟩))
            cases h.eq_nil_of_fits rfl hmore
          · intro hpoint
            exact absurd (by simp) hpoint

/-- A word is taken with all that it can go on with. -/
private theorem stops_of_longest_word {text after : List Char}
    (h : Longest .word text after) : Stops .word text after := by
  obtain ⟨hfits, -⟩ := id h
  cases hfits with
  | regular hregular =>
      cases hregular with
      | @word first rest _ hfirst hrest =>
          intro c hhead
          obtain ⟨behind, rfl⟩ := List.head?_eq_some_iff.1 hhead
          rw [Bool.eq_false_iff]
          intro hc
          have hmore : Fits .word ((first :: rest) ++ [c]) behind :=
            .regular (.word behind hfirst
              (List.forall_mem_append.2
                ⟨hrest, List.forall_mem_singleton.2 hc⟩))
          cases h.eq_nil_of_fits rfl hmore

/-- The longest beginning of a text stops where it ends. This is the direction
that reads off, from a cut that is given, what stands behind its pieces. -/
theorem Longest.stops {rule : Rule} {text after : List Char}
    (h : Longest rule text after) : Stops rule text after := by
  obtain ⟨hfits, -⟩ := id h
  cases rule with
  | operator o =>
      cases hfits with
      | regular hregular =>
          cases hregular
          exact stops_of_longest_operator h
  | comment =>
      cases hfits with
      | regular hregular =>
          cases hregular with
          | comment _ hin => exact h.head?_of_comment hin
  | openString => exact hfits.of_openString
  | number => exact stops_of_longest_number h
  | word => exact stops_of_longest_word h
  | blank | newline | string | stray => exact trivial

-- ==================================================== it stops, so longest

/-- A run of a class ends in front of what is not of the class, and at the end
of the text. -/
theorem takeWhile_of_stop {p : Char → Bool} {l after : List Char}
    (h : ∀ c ∈ l, p c = true)
    (hstop : ∀ c, after.head? = some c → p c = false) :
    (l ++ after).takeWhile p = l := by
  cases after with
  | nil =>
      rw [List.takeWhile_append_of_pos h, List.takeWhile_nil, List.append_nil]
  | cons c after => exact takeWhile_eq_of_stop h (hstop c rfl) after

/-- What is left behind the run. -/
theorem dropWhile_of_stop {p : Char → Bool} {l after : List Char}
    (h : ∀ c ∈ l, p c = true)
    (hstop : ∀ c, after.head? = some c → p c = false) :
    (l ++ after).dropWhile p = after := by
  rw [List.dropWhile_append_of_pos h]
  cases after with
  | nil => rfl
  | cons c after => exact List.dropWhile_cons_of_neg (by simp [hstop c rfl])

/-- Where the reader takes a rule and a length, that is the longest. To show a
text to be the longest it is enough to run the reader in front of it. -/
private theorem longest_of_leadingRule {rule : Rule} {c : Char}
    {taken after : List Char}
    (h : leadingRule c (taken ++ after) = (rule, taken.length)) :
    Longest rule (c :: taken) after := by
  have hlong := longest_leadingRule c (taken ++ after)
  rw [h, List.take_left, List.drop_left] at hlong
  exact hlong

/-- An operator that stops is the one the reader finds. Of one character, it
is not lengthened by what follows, and is not the start of a comment; of two,
there is nothing to lengthen it. -/
private theorem longest_of_stops_operator {o : Operator} {after : List Char}
    (h : Stops (.operator o) o.spelling after) :
    Longest (.operator o) o.spelling after := by
  obtain ⟨hslash, hequal⟩ := h
  rcases o.spelling_eq with ⟨e, he⟩ | ⟨e, he⟩
  · rw [he] at hequal ⊢
    have hsingle : Operator.ofSpelling? [e] = some o :=
      Operator.ofSpelling?_eq_some_iff.2 he
    have hcomment : ¬ (e = '/' ∧ after.head? = some '/') := by
      rintro ⟨rfl, hhead⟩
      cases hsingle
      exact hslash rfl hhead
    have hlead : Operator.leading? e after = some o := by
      rw [Operator.leading?_eq]
      split
      case isTrue hhead =>
        have hpair : Operator.ofSpelling? [e, '='] = none := hequal hhead
        rw [hpair, hsingle]
        rfl
      case isFalse => exact hsingle
    apply longest_of_leadingRule
    rw [List.nil_append, leadingRule_operator hsingle hcomment hlead, he]
    rfl
  · have hpair : Operator.ofSpelling? [e, '='] = some o :=
      Operator.ofSpelling?_eq_some_iff.2 he
    obtain ⟨d, p, hd, hp⟩ := o.exists_ofSpelling?_head
    rw [he, List.head?_cons, Option.some.injEq] at hd
    subst hd
    have hcomment : ¬ (e = '/' ∧ ('=' :: after).head? = some '/') :=
      fun hboth => absurd hboth.2 (by simp)
    have hlead : Operator.leading? e ('=' :: after) = some o := by
      rw [Operator.leading?_eq, List.head?_cons, if_pos rfl, hpair]
      rfl
    rw [he]
    apply longest_of_leadingRule
    rw [List.singleton_append, leadingRule_operator hp hcomment hlead, he]
    rfl

/-- Digits that stop are all that the number takes. -/
private theorem numberRest_of_stops {first : Char} {digits after : List Char}
    (hfirst : first.isDigit = true) (hdigits : ∀ c ∈ digits, c.isDigit = true)
    (h : Stops .number (first :: digits) after) :
    numberRest (digits ++ after) = digits.length := by
  obtain ⟨hdigit, hpoint⟩ := h
  have hnone : '.' ∉ first :: digits := by
    intro hmem
    rcases List.mem_cons.1 hmem with rfl | hmem
    · exact absurd hfirst (by decide)
    · exact absurd (hdigits '.' hmem) (by decide)
  have htake := takeWhile_of_stop hdigits hdigit
  have hdrop := dropWhile_of_stop hdigits hdigit
  by_cases hhead : after.head? = some '.'
  · -- a point follows, but no digit behind it
    obtain ⟨rest, rfl⟩ := List.head?_eq_some_iff.1 hhead
    have hempty : rest.takeWhile Char.isDigit = [] := by
      cases rest with
      | nil => rfl
      | cons c rest =>
          exact List.takeWhile_cons_of_neg (by simp [hpoint hnone c rest rfl])
    rw [numberRest_of_point hdrop, hempty, htake]
    rfl
  · rw [numberRest_of_no_point (by rw [hdrop]; exact hhead), htake]

/-- A fraction that stops is all that the number takes. A second point behind
it is nothing to a number, so only digits are asked about. -/
private theorem numberRest_of_stops_fraction {next : Char}
    {digits places after : List Char}
    (hdigits : ∀ c ∈ digits, c.isDigit = true) (hnext : next.isDigit = true)
    (hplaces : ∀ c ∈ places, c.isDigit = true)
    (hstop : ∀ c, after.head? = some c → c.isDigit = false) :
    numberRest (digits ++ '.' :: next :: (places ++ after))
      = (digits ++ '.' :: next :: places).length := by
  have hpoint : ∀ c, ('.' :: next :: (places ++ after)).head? = some c
      → c.isDigit = false := by
    intro c hc
    cases hc
    rfl
  have htake := takeWhile_of_stop hdigits hpoint
  have hdrop := dropWhile_of_stop hdigits hpoint
  have hplace : (next :: (places ++ after)).takeWhile Char.isDigit
      = next :: places := by
    rw [List.takeWhile_cons_of_pos hnext, takeWhile_of_stop hplaces hstop]
  rw [numberRest_of_point hdrop, hplace, htake, if_neg (by simp),
    List.length_append, List.length_cons (a := '.')]
  omega

/-- A text of a rule that stops is the longest beginning. With it a text that
is put together from pieces can be cut again: each stops, so each is found. -/
theorem Fits.longest_of_stops {rule : Rule} {text after : List Char}
    (hfits : Fits rule text after) (h : Stops rule text after) :
    Longest rule text after := by
  cases hfits with
  | stray _ hstray =>
      apply longest_of_leadingRule
      rw [leadingRule_stray hstray]
      rfl
  | regular hregular =>
      cases hregular with
      | operator o => exact longest_of_stops_operator h
      | @comment inside _ hin =>
          have hclass : ∀ c ∈ inside, (c != '\n') = true :=
            fun c hc => bne_iff_ne.2 (hin c hc)
          have hstop : ∀ c, after.head? = some c → (c != '\n') = false :=
            fun c hc => bne_eq_false_iff_eq.2 (h c hc)
          apply longest_of_leadingRule
          rw [List.cons_append, leadingRule_comment,
            takeWhile_of_stop hclass hstop]
          rfl
      | @blank c _ hc =>
          have hblank : isBlank c = true := by
            rcases hc with rfl | rfl | rfl
            all_goals rfl
          apply longest_of_leadingRule
          rw [leadingRule_blank hblank]
          rfl
      | newline => exact longest_of_leadingRule rfl
      | @string inside _ hin =>
          apply longest_of_leadingRule
          rw [List.append_assoc, List.singleton_append, leadingRule_string hin,
            List.length_append]
          rfl
      | openString hin =>
          apply longest_of_leadingRule
          rw [List.append_nil, leadingRule_openString hin]
      | whole _ hfirst hdigits =>
          apply longest_of_leadingRule
          rw [leadingRule_number hfirst, numberRest_of_stops hfirst hdigits h]
      | fraction _ hfirst hdigits hnext hplaces =>
          apply longest_of_leadingRule
          rw [List.append_assoc, List.cons_append, List.cons_append,
            leadingRule_number hfirst,
            numberRest_of_stops_fraction hdigits hnext hplaces h.1]
      | word _ hfirst hrest =>
          apply longest_of_leadingRule
          rw [leadingRule_word hfirst, takeWhile_of_stop hrest h]

-- ================================================================ gaps

/-- Blanks and line ends. -/
def isGap (c : Char) : Bool := isBlank c || c == '\n'

theorem eq_of_isGap {c : Char} (h : isGap c = true) :
    c = ' ' ∨ c = '\t' ∨ c = '\r' ∨ c = '\n' := by
  simp only [isGap, Bool.or_eq_true, beq_iff_eq] at h
  rcases h with h | h
  · rcases eq_of_isBlank h with h | h | h
    · exact Or.inl h
    · exact Or.inr (Or.inl h)
    · exact Or.inr (Or.inr (Or.inl h))
  · exact Or.inr (Or.inr (Or.inr h))

/-- A gap is in no class that a text goes on with. All that is said of gaps
below rests on this. -/
theorem not_part_of_isGap {c : Char} (h : isGap c = true) :
    c ≠ '/' ∧ c ≠ '=' ∧ c ≠ '.' ∧ c.isDigit = false ∧ isWordPart c = false := by
  rcases eq_of_isGap h with rfl | rfl | rfl | rfl
  all_goals decide

/-- Operators, numbers, words and strays are written without gaps. -/
theorem not_isGap_of_fits {rule : Rule} {text after : List Char}
    (h : Fits rule text after) (hcomment : rule ≠ .comment)
    (hblank : rule ≠ .blank) (hline : rule ≠ .newline)
    (hstring : rule ≠ .string) (hopen : rule ≠ .openString) :
    ∀ c ∈ text, isGap c = false := by
  intro c hc
  rw [Bool.eq_false_iff]
  intro hgap
  obtain ⟨-, -, hpoint, hdigit, hpart⟩ := not_part_of_isGap hgap
  cases rule with
  | operator o =>
      cases h with
      | regular h =>
          cases h
          revert hc
          rcases eq_of_isGap hgap with rfl | rfl | rfl | rfl
          all_goals
            cases o
            all_goals decide
  | number =>
      rcases h.isDigit_or_point c hc with h | h
      · rw [h] at hdigit
        cases hdigit
      · exact hpoint h
  | word =>
      rw [h.isWordPart c hc] at hpart
      cases hpart
  | stray =>
      obtain ⟨d, rfl, hstray⟩ := h.of_stray
      obtain ⟨hnoblank, hnoline, -⟩ := not_opening hstray
      rw [List.mem_singleton] at hc
      subst hc
      simp only [isGap, Bool.or_eq_true, beq_iff_eq] at hgap
      exact hgap.elim hnoblank hnoline
  | comment => exact hcomment rfl
  | blank => exact hblank rfl
  | newline => exact hline rfl
  | string => exact hstring rfl
  | openString => exact hopen rfl

/-- Whether a text begins as another does, or with a gap, or is empty. It is
what a text becomes when parts are taken out of it, or gaps are put in, and it
can only make what stands in front stop sooner. -/
def Quieter (after quiet : List Char) : Prop :=
  quiet.head? = after.head? ∨ ∀ c, quiet.head? = some c → isGap c = true

theorem Quieter.of_head? {after quiet : List Char}
    (h : quiet.head? = after.head?) : Quieter after quiet := Or.inl h

theorem Quieter.of_gap {after quiet : List Char}
    (h : ∀ c, quiet.head? = some c → isGap c = true) : Quieter after quiet :=
  Or.inr h

/-- What a quieter text begins with, if it is no gap, the other begins with
too. -/
theorem Quieter.head?_eq {after quiet : List Char} (h : Quieter after quiet)
    {c : Char} (hc : quiet.head? = some c) (hgap : isGap c = false) :
    after.head? = some c := by
  rcases h with h | h
  · rw [← h, hc]
  · rw [h c hc] at hgap
    cases hgap

/-- A class without gaps that what follows does not begin with, a quieter
text does not begin with either. -/
private theorem Quieter.class {after quiet : List Char}
    (h : Quieter after quiet) {p : Char → Bool} (hp : ∀ c, isGap c = true → p c = false)
    (hstop : ∀ c, after.head? = some c → p c = false) :
    ∀ c, quiet.head? = some c → p c = false := by
  intro c hc
  cases hgap : isGap c with
  | true => exact hp c hgap
  | false => exact hstop c (h.head?_eq hc hgap)

/-- What stops in front of a text stops in front of a quieter one. Behind a
point it must be quieter once more, for digits may follow there. -/
theorem Stops.of_quieter {rule : Rule} {text after quiet : List Char}
    (h : Stops rule text after) (hcomment : rule ≠ .comment)
    (hopen : rule ≠ .openString) (hquiet : Quieter after quiet)
    (hpoint : ∀ rest rest', after = '.' :: rest → quiet = '.' :: rest' →
      Quieter rest rest') :
    Stops rule text quiet := by
  cases rule with
  | comment => exact absurd rfl hcomment
  | openString => exact absurd rfl hopen
  | operator o =>
      exact ⟨fun ho hc => h.1 ho (hquiet.head?_eq hc (by decide)),
        fun hc => h.2 (hquiet.head?_eq hc (by decide))⟩
  | word =>
      exact hquiet.class (fun c hc => (not_part_of_isGap hc).2.2.2.2) h
  | number =>
      -- the second character counts when the first is a point, and that is
      -- then no gap, so it stood in the other text too
      have hdigit : ∀ c, isGap c = true → c.isDigit = false :=
        fun c hc => (not_part_of_isGap hc).2.2.2.1
      refine ⟨hquiet.class hdigit h.1, ?_⟩
      intro hwhole c rest' heq
      have hhead : after.head? = some '.' :=
        hquiet.head?_eq (by rw [heq]; rfl) (by decide)
      obtain ⟨rest, hafter⟩ := List.head?_eq_some_iff.1 hhead
      refine (hpoint rest (c :: rest') hafter heq).class hdigit ?_ c rfl
      intro d hd
      obtain ⟨behind, rfl⟩ := List.head?_eq_some_iff.1 hd
      exact h.2 hwhole d behind hafter
  | blank | newline | string | stray => exact trivial

/-- So the longest beginning is also the longest in front of a quieter text.
A comment and an open string are left out, for they go on into a gap. -/
theorem Longest.of_quieter {rule : Rule} {text after quiet : List Char}
    (h : Longest rule text after) (hcomment : rule ≠ .comment)
    (hopen : rule ≠ .openString) (hquiet : Quieter after quiet)
    (hpoint : ∀ rest rest', after = '.' :: rest → quiet = '.' :: rest' →
      Quieter rest rest') :
    Longest rule text quiet :=
  (h.1.of_after hopen quiet).longest_of_stops
    (h.stops.of_quieter hcomment hopen hquiet hpoint)

/-- At the end of the text everything stops. -/
theorem stops_nil (rule : Rule) (text : List Char) : Stops rule text [] := by
  cases rule with
  | operator o => exact ⟨fun _ => by simp, fun h => absurd h (by simp)⟩
  | comment | word => exact fun c hc => absurd hc (by simp)
  | number =>
      exact ⟨fun c hc => absurd hc (by simp),
        fun _ c rest h => absurd h (by simp)⟩
  | openString => rfl
  | blank | newline | string | stray => exact trivial

/-- Only comments and open strings go on into a gap. -/
theorem stops_of_gap {rule : Rule} (text : List Char) {after : List Char}
    (hcomment : rule ≠ .comment) (hopen : rule ≠ .openString)
    (h : ∀ c, after.head? = some c → isGap c = true) :
    Stops rule text after :=
  (stops_nil rule text).of_quieter hcomment hopen (.of_gap h)
    fun _ _ hnil => absurd hnil (by simp)

end LoxLexer
