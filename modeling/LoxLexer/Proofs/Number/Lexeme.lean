/-
What a number lexeme denotes. The lexical rule for numbers allows two forms,
digits and digits around a point, and these are just the two that the decimal
reader accepts: so a number lexeme always has a value, and the reader's
refusal is never seen by a scan.
-/
import LoxLexer.Proofs.Segment.Longest
import LoxLexer.Number.Nearest

namespace LoxLexer

/-- Digits denote the number they are read as in base ten, with no places. -/
theorem ofChars?_whole {digits : List Char} (hne : digits ≠ [])
    (h : ∀ c ∈ digits, c.isDigit = true) :
    Decimal.ofChars? digits = some ⟨Nat.ofDigitChars 10 digits 0, 0⟩ := by
  have htake : (digits ++ []).takeWhile Char.isDigit = digits ++ [] :=
    List.takeWhile_append_of_pos h
  have hdrop : (digits ++ []).dropWhile Char.isDigit = [] :=
    List.dropWhile_append_of_pos h
  rw [List.append_nil] at htake hdrop
  unfold Decimal.ofChars?
  rw [htake, hdrop]
  dsimp only
  rw [if_neg (by simpa using hne)]

/-- Digits around a point denote all their digits, with as many places as
there are digits behind the point. -/
theorem ofChars?_fraction {digits places : List Char} (hne : digits ≠ [])
    (h : ∀ c ∈ digits, c.isDigit = true) (hplaces : places ≠ [])
    (h' : ∀ c ∈ places, c.isDigit = true) :
    Decimal.ofChars? (digits ++ '.' :: places)
      = some ⟨Nat.ofDigitChars 10 (digits ++ places) 0, places.length⟩ := by
  have htake : (digits ++ '.' :: places).takeWhile Char.isDigit = digits :=
    takeWhile_eq_of_stop h rfl places
  have hdrop :
      (digits ++ '.' :: places).dropWhile Char.isDigit = '.' :: places := by
    rw [List.dropWhile_append_of_pos h]
    rfl
  unfold Decimal.ofChars?
  rw [htake, hdrop]
  dsimp only
  rw [if_neg (by simpa using hne), if_pos ⟨rfl, hplaces, List.all_eq_true.2 h'⟩]

/-- A number lexeme has a value. The two ways to write one are taken apart by
the grammar, and each is put together as the reader of decimals wants it. -/
theorem exists_ofText?_of_number {text after : List Char}
    (h : Fits .number text after) :
    ∃ x, Binary64.ofText? (String.ofList text) = some x := by
  unfold Binary64.ofText?
  rw [String.toList_ofList]
  cases h with
  | regular h =>
      cases h with
      | whole _ hfirst hdigits =>
          rw [ofChars?_whole (List.cons_ne_nil _ _) fun c hc => ?_]
          · exact ⟨_, rfl⟩
          · rcases List.mem_cons.1 hc with rfl | hc
            · exact hfirst
            · exact hdigits c hc
      | fraction _ hfirst hdigits hnext hplaces =>
          -- the point splits the text, and neither side is empty
          rw [← List.cons_append, ofChars?_fraction (List.cons_ne_nil _ _) ?_
            (List.cons_ne_nil _ _) ?_]
          · exact ⟨_, rfl⟩
          · intro c hc
            rcases List.mem_cons.1 hc with rfl | hc
            · exact hfirst
            · exact hdigits c hc
          · intro c hc
            rcases List.mem_cons.1 hc with rfl | hc
            · exact hnext
            · exact hplaces c hc

end LoxLexer
