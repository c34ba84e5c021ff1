/-
A text cut into pieces: characters instead of bytes, and no offsets. A piece
is a rule and the text it was taken for; what token or diagnostic it gives
depends on these and on the line it stands on, and on nothing else.

`Cut` says what a cut is in terms of the grammar alone: from the start of the
text on, each piece is the longest beginning that any rule allows. Every text
has one (`cut_pieces`) and no other (`Cut.eq_pieces`), so a proof about the
pieces of a text is an induction on its cut, or, where the pieces themselves
need no name, on the text (`text_induction`).
-/
import LoxLexer.Proofs.Segment.Longest
import LoxLexer.Scan

namespace LoxLexer

-- ========================================================= one piece

/-- A stretch of a text, and the rule it was taken for. It has no offset and
no line: pieces are the same wherever they stand, and their place is added by
those that go through a cut in order. -/
structure Piece where
  rule : Rule
  text : List Char
deriving DecidableEq, Repr

namespace Piece

/-- How many lines a piece ends. -/
def newlines (p : Piece) : Nat := p.text.count '\n'

/-- What stands between the first and the last character: of a string, the
text between its quotes. -/
def inside (p : Piece) : List Char := p.text.tail.dropLast

/-- The token that a piece gives on a line. The text of a number can always be
read (`number_rounded`), so a number token always has its literal. -/
def token? (line : Nat) (p : Piece) : Option Token :=
  let lexeme := String.ofList p.text
  match p.rule with
  | .operator o => some ⟨.operator o, lexeme, none, line⟩
  | .string =>
    some ⟨.string, lexeme, some (.text (String.ofList p.inside)), line⟩
  | .number =>
    some ⟨.number, lexeme, (Binary64.ofText? lexeme).map .number, line⟩
  | .word => some ⟨.ofWord lexeme, lexeme, none, line⟩
  | .comment | .blank | .newline | .openString | .stray => none

/-- The diagnostic that a piece gives on a line. A stray is reported where
it stands, an open string where it ends. -/
def diagnostic? (line : Nat) (p : Piece) : Option Diagnostic :=
  match p.rule with
  | .stray => p.text.head?.map fun c => ⟨.unexpectedCharacter c, line⟩
  | .openString => some ⟨.unterminatedString, line + p.newlines⟩
  | _ => none

end Piece

-- =========================================================== the cut

/-- What the reader takes from the front of a text: `leadingRule` says how far
it goes, and this what it goes over. -/
def leadingPiece (first : Char) (rest : List Char) : Piece where
  rule := (leadingRule first rest).1
  text := first :: rest.take (leadingRule first rest).2

theorem leadingPiece_append (first : Char) (rest : List Char) :
    (leadingPiece first rest).text ++ rest.drop (leadingRule first rest).2
      = first :: rest := by
  rw [leadingPiece, List.cons_append, List.take_append_drop]

theorem fits_leadingPiece (first : Char) (rest : List Char) :
    Fits (leadingPiece first rest).rule (leadingPiece first rest).text
      (rest.drop (leadingRule first rest).2) :=
  (fits_leadingRule first rest).2

/-- An operator is taken with all of its spelling. -/
theorem leadingPiece_operator {c : Char} {rest : List Char} {o p : Operator}
    (hc : Operator.ofSpelling? [c] = some o)
    (hslash : ¬ (c = '/' ∧ rest.head? = some '/'))
    (hp : Operator.leading? c rest = some p) :
    leadingPiece c rest = ⟨.operator p, p.spelling⟩ := by
  rw [leadingPiece, leadingRule_operator hc hslash hp,
    Operator.spelling_of_leading? hp]

/-- The pieces of a text, in order: what the reader takes, and again from
behind it. -/
def pieces : List Char → List Piece
  | [] => []
  | c :: rest =>
    leadingPiece c rest :: pieces (rest.drop (leadingRule c rest).2)
termination_by text => text.length
decreasing_by
  rw [List.length_drop, List.length_cons]
  omega

/-- Whether some pieces are a cut of a text: none of them is empty, and each
is the longest beginning of what is left that any rule allows. -/
inductive Cut : List Piece → List Char → Prop where
  | done : Cut [] []
  | next {p : Piece} {cut : List Piece} {after : List Char} (hne : p.text ≠ [])
      (hlong : Longest p.rule p.text after) (hcut : Cut cut after) :
      Cut (p :: cut) (p.text ++ after)

/-- The pieces of a text are a cut of it. With `Cut.eq_pieces` every text has
exactly one cut, and what the scanner finds is a matter of the grammar. -/
theorem cut_pieces (text : List Char) : Cut (pieces text) text := by
  induction text using pieces.induct with
  | case1 =>
      rw [pieces]
      exact .done
  | case2 c rest ih =>
      rw [pieces, ← leadingPiece_append c rest]
      exact .next (List.cons_ne_nil _ _) (longest_leadingRule c rest) ih

/-- What holds of the empty text, and of a text when it holds of what is left
behind its longest beginning, holds of every text. Proofs that compare two
texts piece by piece are by this induction. -/
@[elab_as_elim]
theorem text_induction {motive : List Char → Prop} (nil : motive [])
    (append : ∀ (p : Piece) (after : List Char), p.text ≠ [] →
      Longest p.rule p.text after → motive after → motive (p.text ++ after))
    (text : List Char) : motive text := by
  obtain ⟨cut, hcut⟩ : ∃ cut, Cut cut text := ⟨_, cut_pieces text⟩
  induction hcut with
  | done => exact nil
  | @next p cut after hne hlong _ ih => exact append p after hne hlong ih

/-- The longest beginning of a text is its first piece, and the others are
those of what is left. -/
theorem pieces_append {p : Piece} {after : List Char} (hne : p.text ≠ [])
    (hlong : Longest p.rule p.text after) :
    pieces (p.text ++ after) = p :: pieces after := by
  obtain ⟨rule, text⟩ := p
  cases text with
  | nil => exact absurd rfl hne
  | cons c taken =>
      have hsplit : (c :: taken) ++ after = c :: (taken ++ after) :=
        List.cons_append
      obtain ⟨hrule, htext, hafter⟩ := eq_leadingRule_of_longest hlong hsplit
      rw [List.cons_append, pieces, leadingPiece, ← hrule, ← htext, ← hafter]

/-- A text has no cut but its pieces. -/
theorem Cut.eq_pieces {cut : List Piece} {text : List Char} (h : Cut cut text) :
    cut = pieces text := by
  induction h with
  | done => rw [pieces]
  | next hne hlong _ ih => rw [pieces_append hne hlong, ih]

/-- Nothing is cut into nothing. -/
theorem Cut.eq_nil {cut : List Piece} (h : Cut cut []) : cut = [] := by
  rw [h.eq_pieces, pieces]

/-- The pieces of a cut, laid end to end, are the text. -/
theorem Cut.flatMap_text {cut : List Piece} {text : List Char}
    (h : Cut cut text) :
    cut.flatMap Piece.text = text := by
  induction h with
  | done => rfl
  | next _ _ _ ih => rw [List.flatMap_cons, ih]

/-- Every piece of a cut is one that its rule allows. -/
theorem Cut.fits {cut : List Piece} {text : List Char} (h : Cut cut text) :
    ∀ p ∈ cut, ∃ after, Fits p.rule p.text after := by
  induction h with
  | done => exact fun p hp => absurd hp List.not_mem_nil
  | @next q cut after _ hlong _ ih =>
      intro p hp
      rcases List.mem_cons.1 hp with rfl | hp
      · exact ⟨after, hlong.1⟩
      · exact ih p hp

/-- Only a line end and a string hold line ends. This is why the scanner counts
lines at these two rules and nowhere else. -/
theorem count_newline_of_fits {rule : Rule} {text after : List Char}
    (h : Fits rule text after) (hline : rule ≠ .newline)
    (hstring : rule ≠ .string)
    (hopen : rule ≠ .openString) : text.count '\n' = 0 := by
  rw [List.count_eq_zero]
  intro hmem
  -- rule by rule: a line end is not among the characters that it allows
  cases rule with
  | newline => exact hline rfl
  | string => exact hstring rfl
  | openString => exact hopen rfl
  | stray =>
      obtain ⟨c, rfl, hstray⟩ := h.of_stray
      rw [List.mem_singleton] at hmem
      subst hmem
      exact hstray (starts_iff.2 (.newline rfl))
  | number =>
      rcases h.isDigit_or_point _ hmem with hdigit | hpoint
      · exact absurd hdigit (by decide)
      · exact absurd hpoint (by decide)
  | word => exact absurd (h.isWordPart _ hmem) (by decide)
  | operator o =>
      cases h with
      | regular h =>
          cases h
          revert hmem
          cases o
          all_goals decide
  | comment =>
      cases h with
      | regular h =>
          cases h with
          | comment _ hin =>
              simp only [List.mem_cons, Char.reduceEq, false_or] at hmem
              exact hin '\n' hmem rfl
  | blank =>
      cases h with
      | regular h =>
          cases h with
          | blank _ hblank =>
              rw [List.mem_singleton] at hmem
              subst hmem
              revert hblank
              decide

/-- The quotes of a string are not counted as line ends. -/
theorem newlines_string (inside : List Char) :
    Piece.newlines ⟨.string, '"' :: (inside ++ ['"'])⟩ = inside.count '\n' := by
  rw [Piece.newlines, List.count_cons, List.count_append]
  rfl

theorem newlines_openString (inside : List Char) :
    Piece.newlines ⟨.openString, '"' :: inside⟩ = inside.count '\n' := by
  rw [Piece.newlines, List.count_cons]
  rfl

-- ================================================ what the pieces give

namespace Piece

variable {p : Piece} {line : Nat}

/-- A token has the text of its piece, and the line on which the piece
starts. -/
theorem eq_of_token? {t : Token} (h : p.token? line = some t) :
    t.lexeme = String.ofList p.text ∧ t.line = line := by
  unfold token? at h
  dsimp only at h
  split at h
  all_goals
    cases h
  all_goals exact ⟨rfl, rfl⟩

/-- No word is of the kind of strings. -/
private theorem ofWord_ne_string (word : String) :
    Kind.ofWord word ≠ .string := by
  unfold Kind.ofWord
  cases Keyword.ofText? word with
  | none => exact Kind.noConfusion
  | some k => exact Kind.noConfusion

/-- A string token comes from a closed string. -/
theorem eq_of_token?_string {t : Token} (h : p.token? line = some t)
    (hkind : t.kind = .string) :
    p.rule = .string ∧ t.literal = some (.text (String.ofList p.inside)) := by
  cases hrule : p.rule with
  | string =>
      rw [token?, hrule] at h
      cases h
      exact ⟨rfl, rfl⟩
  | word =>
      rw [token?, hrule] at h
      cases h
      exact absurd hkind (ofWord_ne_string _)
  | operator o | number | comment | blank | newline | openString | stray =>
      rw [token?, hrule] at h
      cases h
      all_goals cases hkind

/-- A character is unexpected on the line where it stands, an open string is
unterminated on the line where it ends. A piece gives no other diagnostic, and
never two. -/
theorem eq_of_diagnostic? {d : Diagnostic} (h : p.diagnostic? line = some d) :
    (p.rule = .stray
      ∧ (∃ c, p.text.head? = some c ∧ d.fault = .unexpectedCharacter c)
        ∧ d.line = line)
      ∨ (p.rule = .openString ∧ d.fault = .unterminatedString
        ∧ d.line = line + p.newlines) := by
  unfold diagnostic? at h
  split at h
  case h_1 hrule =>
    obtain ⟨c, hc, hd⟩ := Option.map_eq_some_iff.1 h
    subst hd
    exact Or.inl ⟨hrule, ⟨c, hc, rfl⟩, rfl⟩
  case h_2 hrule =>
    cases h
    exact Or.inr ⟨hrule, rfl, rfl⟩
  case h_3 => cases h

/-- Only strays and open strings are reported. -/
theorem diagnostic?_eq_none (hstray : p.rule ≠ .stray)
    (hopen : p.rule ≠ .openString) : p.diagnostic? line = none := by
  unfold diagnostic?
  split
  case h_1 hrule => exact absurd hrule hstray
  case h_2 hrule => exact absurd hrule hopen
  case h_3 => rfl

end Piece

/-- The tokens of some pieces that start on a line. Each piece passes on the
line that it ends on to the next. -/
def tokensFrom (line : Nat) : List Piece → List Token
  | [] => []
  | p :: cut => (p.token? line).toList ++ tokensFrom (line + p.newlines) cut

/-- The diagnostics of some pieces that start on a line. -/
def errorsFrom (line : Nat) : List Piece → List Diagnostic
  | [] => []
  | p :: cut =>
    (p.diagnostic? line).toList ++ errorsFrom (line + p.newlines) cut

end LoxLexer
