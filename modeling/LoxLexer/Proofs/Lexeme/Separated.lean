/-
Lexemes with separators between them. A separator begins with a blank or a
line end and goes on with more of these and with comments, each up to the end
of its line. Nothing in a comment counts, and no lexeme goes on into a gap; so
whatever lexemes are written, and with whatever separators behind them, the
scan reads just these lexemes, and finds nothing wrong (`scan_separated`).
-/
import LoxLexer.Proofs.Number.Nearest

namespace LoxLexer

-- ======================================================== the separators

/-- A blank or a line end, and then spacing of any kind. The gap in front is
what stops the lexeme; a comment there could be taken for more of it, as a
slash and a comment would be a comment. -/
structure Separator where
  first : Char
  rest : List Char
  gap : isGap first = true
  spacing : Spacing rest

namespace Separator

def text (w : Separator) : List Char := w.first :: w.rest

theorem spacing_text (w : Separator) : Spacing w.text := .gap w.gap w.spacing

end Separator

-- ============================================================ separated

/-- Lexemes written one after the other, each with a separator behind it. -/
def separated : List (Lexeme × Separator) → List Char
  | [] => []
  | (u, w) :: more => u.text ++ (w.text ++ separated more)

/-- Their tokens, from a line on: each stands on the line where its lexeme
begins. -/
def separatedTokens (line : Nat) : List (Lexeme × Separator) → List Token
  | [] => []
  | (u, w) :: more =>
    u.token line
      :: separatedTokens (line + u.text.count '\n' + w.text.count '\n') more

/-- One token for each lexeme. -/
theorem length_separatedTokens (units : List (Lexeme × Separator)) : ∀ line,
    (separatedTokens line units).length = units.length := by
  induction units with
  | nil => exact fun _ => rfl
  | cons unit more ih =>
      intro line
      exact congrArg (· + 1) (ih _)

/-- Separated lexemes are read as they are written, from any line on. Each
lexeme stops in front of its separator, which is passed over whatever follows
it; the lines that the two end are added for what is behind. -/
theorem scanFrom_separated (units : List (Lexeme × Separator)) : ∀ line,
    scanFrom line (separated units)
      = { tokens := separatedTokens line units
            ++ [.eof (line + (separated units).count '\n')]
          errors := [] } := by
  induction units with
  | nil => exact scanFrom_nil
  | cons unit more ih =>
      intro line
      obtain ⟨u, w⟩ := unit
      have hstops : Stops u.rule u.text (w.text ++ separated more) := by
        apply u.stops_of_gap
        intro c hc
        cases hc
        exact w.gap
      -- the end of the input is as many lines down for the whole as for the
      -- rest from behind the separator
      have hlines : line + (u.text ++ (w.text ++ separated more)).count '\n'
          = line + u.text.count '\n' + w.text.count '\n'
            + (separated more).count '\n' := by
        rw [List.count_append, List.count_append]
        omega
      rw [separated, separatedTokens, u.scanFrom_text hstops,
        scanFrom_spacing w.spacing_text, ih, hlines]
      rfl

/-- What is read from separated lexemes are these lexemes: one token for
each, in order, with its kind and value and on its line, then the end of the
input, and no diagnostic. The kind is that of a reserved word just when the
lexeme is written as that word, and the value of a number is the decimal that
it writes, rounded as the standard has it. -/
theorem scan_separated (units : List (Lexeme × Separator)) :
    (scan (String.ofList (separated units))).errors = []
      ∧ (scan (String.ofList (separated units))).tokens
          = separatedTokens 1 units ++ [.eof (1 + (separated units).count '\n')]
      ∧ (scan (String.ofList (separated units))).tokens.length
          = units.length + 1
      ∧ (∀ (u : Lexeme) (k : Keyword),
          u.kind = .keyword k ↔ String.ofList u.text = k.text)
      ∧ (∀ (whole : Digits) (places : Option Digits),
          ∃ x, (Lexeme.number whole places).literal? = some (.number x)
            ∧ x.IsRounded (Lexeme.decimal whole places).value) := by
  have hscan := scanFrom_separated units 1
  rw [scan_eq_scanFrom, String.toList_ofList, hscan]
  refine ⟨rfl, rfl, ?_, Lexeme.kind_eq_keyword_iff,
    fun whole places => ⟨_, rfl, Binary64.isRounded_ofDecimal _⟩⟩
  rw [List.length_append, length_separatedTokens]
  rfl

end LoxLexer
