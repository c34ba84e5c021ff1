/-
Lexemes: the texts that tokens are read from, given by what they are made of
and not by how they are found. A lexeme is an operator, a string, a number or
a word; it is written in one way (`Lexeme.text`), and its parts tell which
token it stands for (`Lexeme.token`): which kind, and which value.

The parts carry the conditions of the grammar with them, so every lexeme is
one that its rule allows (`Lexeme.fits`), whatever stands behind it, and read
as a piece it gives its token (`Lexeme.before_piece`).
-/
import LoxLexer.Proofs.Scan.Basic

namespace LoxLexer

-- ============================================================== lexemes

/-- One digit or more. Both sides of the point of a number are of this kind, so
neither can be left out. -/
structure Digits where
  chars : List Char
  ne_nil : chars ≠ []
  digits : ∀ c ∈ chars, c.isDigit = true

/-- What a token is read from. The constructors carry what the grammar asks of
the characters, so there are no other lexemes than those that can be read. -/
inductive Lexeme where
  | operator (o : Operator)
  /-- Anything but quotes between two quotes. -/
  | string (inside : List Char) (h : ∀ c ∈ inside, c ≠ '"')
  /-- Digits, or digits around a point. -/
  | number (whole : Digits) (places : Option Digits)
  /-- A letter or underscore, and then digits too. -/
  | word (first : Char) (rest : List Char) (hfirst : isWordStart first = true)
      (hrest : ∀ c ∈ rest, isWordPart c = true)

namespace Lexeme

/-- The characters a lexeme is written with. -/
def text : Lexeme → List Char
  | operator o => o.spelling
  | string inside _ => '"' :: (inside ++ ['"'])
  | number whole none => whole.chars
  | number whole (some places) => whole.chars ++ '.' :: places.chars
  | word first rest _ _ => first :: rest

/-- The rule that a lexeme is an instance of. -/
def rule : Lexeme → Rule
  | operator o => .operator o
  | string _ _ => .string
  | number _ _ => .number
  | word _ _ _ _ => .word

/-- The kind of token. A word that is reserved as a whole has a kind of its
own, any other is an identifier. -/
def kind : Lexeme → Kind
  | operator o => .operator o
  | string _ _ => .string
  | number _ _ => .number
  | word first rest _ _ => .ofWord (String.ofList (first :: rest))

/-- The decimal that a number writes: its digits read as one number, and how
many of them stand behind the point. -/
def decimal (whole : Digits) : Option Digits → Decimal
  | none => ⟨Nat.ofDigitChars 10 whole.chars 0, 0⟩
  | some places =>
    ⟨Nat.ofDigitChars 10 (whole.chars ++ places.chars) 0, places.chars.length⟩

/-- The value of the token: the text between the quotes, or the number nearest
to the decimal. -/
def literal? : Lexeme → Option Literal
  | string inside _ => some (.text (String.ofList inside))
  | number whole places => some (.number (.ofDecimal (decimal whole places)))
  | operator _ | word _ _ _ _ => none

/-- The token that a lexeme on a line stands for. -/
def token (line : Nat) (u : Lexeme) : Token where
  kind := u.kind
  lexeme := String.ofList u.text
  literal := u.literal?
  line := line

/-- A lexeme as a piece of a text. -/
def piece (u : Lexeme) : Piece where
  rule := u.rule
  text := u.text

-- ======================================================= as the rules say

/-- A lexeme is one that its rule allows. -/
theorem fits (u : Lexeme) (after : List Char) : Fits u.rule u.text after := by
  cases u with
  | operator o => exact .regular (.operator o after)
  | string inside h => exact .regular (.string after h)
  | word first rest hfirst hrest => exact .regular (.word after hfirst hrest)
  | number whole places =>
      obtain ⟨chars, hne, hdigits⟩ := whole
      obtain ⟨first, digits, rfl⟩ := List.exists_cons_of_ne_nil hne
      rw [List.forall_mem_cons] at hdigits
      cases places with
      | none => exact .regular (.whole after hdigits.1 hdigits.2)
      | some places =>
          obtain ⟨chars, hne, hplaces⟩ := places
          obtain ⟨next, places, rfl⟩ := List.exists_cons_of_ne_nil hne
          rw [List.forall_mem_cons] at hplaces
          exact .regular
            (.fraction after hdigits.1 hdigits.2 hplaces.1 hplaces.2)

theorem text_ne_nil (u : Lexeme) : u.text ≠ [] := by
  cases u with
  | operator o =>
      cases o
      all_goals exact List.cons_ne_nil _ _
  | string | word => exact List.cons_ne_nil _ _
  | number whole places =>
      cases places with
      | none => exact whole.ne_nil
      | some places => exact List.append_ne_nil_of_left_ne_nil whole.ne_nil _

/-- What a number is written with denotes its decimal. So its literal is the
number nearest to this decimal, and there always is one. -/
theorem ofText?_number (whole : Digits) (places : Option Digits) :
    Binary64.ofText? (String.ofList (number whole places).text)
      = some (.ofDecimal (decimal whole places)) := by
  unfold Binary64.ofText?
  rw [String.toList_ofList]
  cases places with
  | none =>
      rw [text, ofChars?_whole whole.ne_nil whole.digits]
      rfl
  | some places =>
      rw [text, ofChars?_fraction whole.ne_nil whole.digits places.ne_nil
        places.digits]
      rfl

/-- Read as a piece, a lexeme gives its token. What a piece makes of its text
by reading it again is what the parts of the lexeme say. -/
theorem token?_piece (u : Lexeme) (line : Nat) :
    u.piece.token? line = some (u.token line) := by
  cases u with
  | operator o => rfl
  | word => rfl
  | string inside h =>
      show some (Token.mk .string _
        (some (.text (String.ofList (inside ++ ['"']).dropLast))) line) = _
      rw [List.dropLast_concat]
      rfl
  | number whole places =>
      show some (Token.mk .number _
        ((Binary64.ofText? (String.ofList (number whole places).text)).map
          Literal.number) line) = _
      rw [ofText?_number]
      rfl

theorem diagnostic?_piece (u : Lexeme) (line : Nat) :
    u.piece.diagnostic? line = none := by
  cases u
  all_goals rfl

/-- A lexeme puts its token in front and nothing else. -/
theorem before_piece (u : Lexeme) (line : Nat) (s : Scan) :
    u.piece.before line s = { s with tokens := u.token line :: s.tokens } := by
  unfold Piece.before
  rw [token?_piece, diagnostic?_piece]
  rfl

/-- In front of a gap every lexeme stops. -/
theorem stops_of_gap (u : Lexeme) {after : List Char}
    (h : ∀ c, after.head? = some c → isGap c = true) :
    Stops u.rule u.text after := by
  apply LoxLexer.stops_of_gap u.text _ _ h
  all_goals
    cases u
    all_goals exact Rule.noConfusion

/-- A lexeme that stops is read as it is written, and the rest goes on behind
it. With this and `scanFrom_spacing` a text of lexemes is read from the front,
one after the other. -/
theorem scanFrom_text (u : Lexeme) {after : List Char}
    (h : Stops u.rule u.text after) (line : Nat) :
    scanFrom line (u.text ++ after)
      = { tokens := u.token line
            :: (scanFrom (line + u.text.count '\n') after).tokens
          errors := (scanFrom (line + u.text.count '\n') after).errors } := by
  have hscan := scanFrom_append (p := u.piece) u.text_ne_nil
    ((u.fits after).longest_of_stops h) line
  rw [before_piece] at hscan
  exact hscan

-- ==================================================== the first character

/-- What a lexeme begins with tells what it is. Operators, strings, numbers and
words have no first character in common; which operator it is, the next
character can still decide. -/
inductive Begins (c : Char) : Lexeme → Prop where
  | operator {o : Operator} (h : o.spelling.head? = some c) :
      Begins c (operator o)
  | string {inside : List Char} {h : ∀ d ∈ inside, d ≠ '"'} (hc : c = '"') :
      Begins c (string inside h)
  | number {whole : Digits} {places : Option Digits}
      (h : c.isDigit = true) : Begins c (number whole places)
  | word {first : Char} {rest : List Char} {hfirst : isWordStart first = true}
      {hrest : ∀ d ∈ rest, isWordPart d = true} (h : isWordStart c = true) :
      Begins c (word first rest hfirst hrest)

/-- The first character of a lexeme is one that it can begin with. -/
theorem begins_of_head? {u : Lexeme} {c : Char} (h : u.text.head? = some c) :
    Begins c u := by
  cases u with
  | operator o => exact .operator h
  | string =>
      cases h
      exact .string rfl
  | word first rest hfirst hrest =>
      cases h
      exact .word hfirst
  | number whole places =>
      apply Begins.number
      apply whole.digits
      cases places with
      | none => exact List.mem_of_head? h
      | some places =>
          rw [text, List.head?_append, List.head?_eq_some_head whole.ne_nil] at h
          cases h
          exact List.head_mem whole.ne_nil

theorem exists_begins (u : Lexeme) : ∃ c rest, u.text = c :: rest ∧ Begins c u := by
  obtain ⟨c, rest, hc⟩ := List.exists_cons_of_ne_nil u.text_ne_nil
  exact ⟨c, rest, hc, begins_of_head? (by rw [hc]; rfl)⟩

/-- What an operator begins with is in no class. -/
private theorem not_class_of_head?_spelling {o : Operator} {c : Char}
    (h : o.spelling.head? = some c) :
    isWordStart c = false ∧ c.isDigit = false ∧ c ≠ '"' := by
  obtain ⟨d, p, hd, hp⟩ := o.exists_ofSpelling?_head
  cases h.symm.trans hd
  exact (not_gap_of_ofSpelling? hp).2.2

/-- Words and nothing else begin with letters and underscores. -/
theorem Begins.isWordStart_iff {u : Lexeme} {c : Char} (h : Begins c u) :
    isWordStart c = true ↔ u.rule = .word := by
  cases h with
  | word h => exact ⟨fun _ => rfl, fun _ => h⟩
  | operator h =>
      rw [(not_class_of_head?_spelling h).1]
      exact ⟨fun hc => Bool.noConfusion hc, fun hc => Rule.noConfusion hc⟩
  | string h =>
      subst h
      exact ⟨fun hc => absurd hc (by decide), fun hc => Rule.noConfusion hc⟩
  | number h =>
      rw [(not_gap_of_isDigit h).2.2]
      exact ⟨fun hc => Bool.noConfusion hc, fun hc => Rule.noConfusion hc⟩

/-- Numbers and nothing else begin with digits. -/
theorem Begins.isDigit_iff {u : Lexeme} {c : Char} (h : Begins c u) :
    c.isDigit = true ↔ u.rule = .number := by
  cases h with
  | number h => exact ⟨fun _ => rfl, fun _ => h⟩
  | operator h =>
      rw [(not_class_of_head?_spelling h).2.1]
      exact ⟨fun hc => Bool.noConfusion hc, fun hc => Rule.noConfusion hc⟩
  | string h =>
      subst h
      exact ⟨fun hc => absurd hc (by decide), fun hc => Rule.noConfusion hc⟩
  | word h =>
      refine ⟨fun hc => ?_, fun hc => Rule.noConfusion hc⟩
      rw [(not_gap_of_isDigit hc).2.2] at h
      cases h

/-- So what a word can go on with is what words and numbers begin with. -/
theorem Begins.isWordPart_iff {u : Lexeme} {c : Char} (h : Begins c u) :
    isWordPart c = true ↔ u.rule = .word ∨ u.rule = .number := by
  rw [← h.isWordStart_iff, ← h.isDigit_iff]
  simp only [isWordPart, isWordStart, Char.isAlphanum, Bool.or_eq_true]
  exact or_right_comm

-- ======================================================== reserved words

/-- Every reserved word is a word. -/
private theorem isWordStart_of_head?_keyword {k : Keyword} {c : Char}
    (h : k.text.toList.head? = some c) : isWordStart c = true := by
  revert h
  cases k
  all_goals
    intro h
    cases h
    rfl

/-- A token is of the kind of a reserved word just when it is written as that
word. It is so of every lexeme and not of words only: an operator, a string or a
number is never written like one. -/
theorem kind_eq_keyword_iff (u : Lexeme) (k : Keyword) :
    u.kind = .keyword k ↔ String.ofList u.text = k.text := by
  -- what is written as a reserved word begins with a letter, so it is a word
  have hword : String.ofList u.text = k.text → u.rule = .word := by
    intro h
    obtain ⟨c, rest, hc, hbegins⟩ := u.exists_begins
    apply hbegins.isWordStart_iff.1
    apply isWordStart_of_head?_keyword (k := k)
    rw [← h, String.toList_ofList, hc]
    rfl
  cases u with
  | word => exact Kind.ofWord_eq_keyword_iff
  | operator | string | number =>
      exact ⟨fun h => Kind.noConfusion h, fun h => Rule.noConfusion (hword h)⟩

end Lexeme

end LoxLexer
