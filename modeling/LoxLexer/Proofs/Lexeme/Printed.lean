/-
What is printed for a source can be read back. Texts are printed as they
stand, so a string over several lines prints lines that look like lines of
other tokens, and a printed line by itself says nothing. But read from the
start, the printed text leaves no choice.

# One token

A category name holds no space, so it ends at the first one, and it tells
the kind (`Kind.name_injective`). What follows is the lexeme. In a string it
goes on to the second quote, whatever stands between; every other lexeme
holds no space and ends before the next one (`Lexeme.text_decodes`). The lexeme
fixes the value, and the value the rest of the line. So a printed token is no
beginning of another one (`Token.decodes`), and neither is a printed
diagnostic, whose character is always a single one (`Diagnostic.decodes`).

# All tokens

Texts of which none is a beginning of another can be laid end to end and
still be told apart (`map_eq_of_flatMap_eq`).
-/
import LoxLexer.Proofs.Lexeme.Respaced
import LoxLexer.Command.Program

namespace LoxLexer

open Command (unlines toList_unlines)

-- ============================================================ first marks

/-- A mark that does not stand in two texts ends both at the same place. All
parts of a line but the last are told apart by such a mark: a space, a quote
or a bracket. -/
theorem eq_of_append_mark {mark : Char} {x y a b : List Char} (hx : mark ∉ x)
    (hy : mark ∉ y) (h : x ++ mark :: a = y ++ mark :: b) : x = y ∧ a = b := by
  have hread : ∀ {l : List Char}, mark ∉ l → ∀ after,
      (l ++ mark :: after).takeWhile (· != mark) = l := fun hl after =>
    takeWhile_eq_of_stop (fun _ hc => bne_iff_ne.2 (ne_of_mem_of_not_mem hc hl))
      (bne_self_eq_false mark) after
  obtain rfl : x = y := by rw [← hread hx a, h, hread hy b]
  rw [List.append_cancel_left_eq] at h
  exact ⟨rfl, List.tail_eq_of_cons_eq h⟩

-- ======================================================= category names

namespace Kind

theorem mem_all (k : Kind) : k ∈ all := by
  cases k with
  | operator o => simp [all, Operator.mem_all]
  | keyword k => simp [all, Keyword.mem_all]
  | identifier | string | number | endOfInput => simp [all]

/-- A category name is looked up as its kind. So no two kinds have the same
name, and this is seen by one look at each and not by one at each pair. -/
theorem ofName?_name (k : Kind) : ofName? k.name = some k := by
  have hall : ∀ l ∈ all, ofName? l.name = some l := by decide +kernel
  exact hall k k.mem_all

theorem name_injective {k l : Kind} (h : k.name = l.name) : k = l := by
  have hread := ofName?_name k
  rw [h, ofName?_name l, Option.some.injEq] at hread
  exact hread.symm

theorem space_not_mem_name (k : Kind) : ' ' ∉ k.name.toList := by
  have hall : ∀ l ∈ all, ' ' ∉ l.name.toList := by decide +kernel
  exact hall k k.mem_all

end Kind

-- ============================================================== lexemes

namespace Lexeme

/-- Strings and nothing else are of the kind of strings. So two tokens of one
kind are both strings, or neither is. -/
theorem kind_eq_string_iff (u : Lexeme) : u.kind = .string ↔ u.rule = .string := by
  constructor
  · exact fun h => (Piece.eq_of_token?_string (u.token?_piece 1) h).1
  · intro h
    cases u with
    | string => rfl
    | operator | number | word => cases h

/-- There is no space in a lexeme but that of a string. -/
theorem space_not_mem_text {u : Lexeme} (h : u.rule ≠ .string) : ' ' ∉ u.text := by
  intro hmem
  cases u with
  | string => exact h rfl
  | operator o =>
      revert hmem
      cases o
      all_goals decide
  | number whole places =>
      rcases ((number whole places).fits []).isDigit_or_point _ hmem with hc | hc
      all_goals exact absurd hc (by decide)
  | word first rest hfirst hrest =>
      exact absurd (((word first rest hfirst hrest).fits []).isWordPart _ hmem)
        (by decide)

/-- Of two lexemes of one kind, each with a space behind it, neither is a
beginning of the other. A string may hold spaces, so it is ended by its quote;
any other lexeme is ended by the space. -/
theorem text_decodes {u v : Lexeme} (hkind : u.kind = v.kind) {a b : List Char}
    (h : u.text ++ ' ' :: a = v.text ++ ' ' :: b) : u.text = v.text ∧ a = b := by
  have hrule : u.rule = .string ↔ v.rule = .string := by
    rw [← kind_eq_string_iff, ← kind_eq_string_iff, hkind]
  by_cases hstring : u.rule = .string
  · -- both are strings, and the second quote ends each of them
    cases u with
    | operator | number | word => cases hstring
    | string inside hin =>
        cases v with
        | operator | number | word => cases hrule.1 rfl
        | string inside' hin' =>
            simp only [text, List.cons_append, List.cons.injEq, true_and,
              List.append_assoc, List.nil_append] at h
            obtain ⟨rfl, hrest⟩ := eq_of_append_mark
              (fun hmem => hin _ hmem rfl) (fun hmem => hin' _ hmem rfl) h
            exact ⟨rfl, List.tail_eq_of_cons_eq hrest⟩
  · exact eq_of_append_mark (space_not_mem_text hstring)
      (space_not_mem_text (mt hrule.2 hstring)) h

end Lexeme

-- ========================================================== printed tokens

/-- What a token is printed as, from its name on. -/
theorem Token.toList_render (t : Token) (after : List Char) :
    t.render.toList ++ after
      = t.kind.name.toList ++ ' ' :: (t.lexeme.toList ++ ' ' ::
        (((t.literal.map Literal.render).getD "null").toList ++ after)) := by
  simp [render]

/-- What is printed for a token depends on what it is, not on its place. -/
theorem Token.render_eq_of_content {t u : Token} (h : t.content = u.content) :
    t.render = u.render := by
  simp only [content, Prod.mk.injEq] at h
  rw [render, render, h.1, h.2.1, h.2.2]

/-- Of two printed tokens, each with its line end, neither is a beginning of
the other. The name tells the kind, the kind how the lexeme ends, and the
lexeme all the rest: the text of a value may hold line ends, and is not read
back at all. -/
theorem Token.decodes {t u : Token} (ht : (∃ line, t = .eof line) ∨ t.FromLexeme)
    (hu : (∃ line, u = .eof line) ∨ u.FromLexeme) {a b : List Char}
    (h : t.render.toList ++ '\n' :: a = u.render.toList ++ '\n' :: b) :
    t.content = u.content ∧ a = b := by
  have hsame : t.content = u.content := by
    rw [toList_render, toList_render] at h
    obtain ⟨hname, hrest⟩ := eq_of_append_mark t.kind.space_not_mem_name
      u.kind.space_not_mem_name h
    have hkind : t.kind = u.kind := Kind.name_injective (String.toList_inj.1 hname)
    -- the end of the input has a kind of its own
    rcases ht with ⟨line, rfl⟩ | ht
    · rcases hu with ⟨line', rfl⟩ | hu
      · rfl
      · exact absurd hkind.symm hu.ne_eof.1
    · rcases hu with ⟨line', rfl⟩ | hu
      · exact absurd hkind ht.ne_eof.1
      · apply ht.content_eq hu
        obtain ⟨x, line, rfl⟩ := ht
        obtain ⟨y, line', rfl⟩ := hu
        simp only [Lexeme.token, String.toList_ofList] at hrest
        exact congrArg String.ofList (Lexeme.text_decodes hkind hrest).1
  rw [render_eq_of_content hsame, List.append_cancel_left_eq] at h
  exact ⟨hsame, List.tail_eq_of_cons_eq h⟩

-- ===================================================== printed diagnostics

/-- Of two messages, each with its line end, neither is a beginning of the
other. The two faults part at the third character of their messages. -/
theorem Fault.decodes {f g : Fault} {a b : List Char}
    (h : f.message.toList ++ '\n' :: a = g.message.toList ++ '\n' :: b) :
    f = g ∧ a = b := by
  have hchar : ∀ c after, (unexpectedCharacter c).message.toList ++ after
      = "Unexpected character: ".toList ++ c :: after := by
    intro c after
    show ("Unexpected character: " ++ c.toString).toList ++ after = _
    rw [String.toList_append, Char.toString_eq_singleton, String.toList_singleton,
      List.append_assoc, List.singleton_append]
  have hother : ∀ c after after',
      "Unexpected character: ".toList ++ c :: after
        ≠ unterminatedString.message.toList ++ after' := by
    intro c after after' heq
    have hthree := congrArg (List.take 3) heq
    rw [List.take_append_of_le_length (by decide +kernel),
      List.take_append_of_le_length (by decide +kernel)] at hthree
    exact absurd hthree (by decide +kernel)
  cases f with
  | unexpectedCharacter c =>
      rw [hchar] at h
      cases g with
      | unexpectedCharacter c' =>
          rw [hchar, List.append_cancel_left_eq] at h
          simp only [List.cons.injEq, true_and] at h
          exact ⟨by rw [h.1], h.2⟩
      | unterminatedString => exact absurd h (hother c _ _)
  | unterminatedString =>
      cases g with
      | unexpectedCharacter c' =>
          rw [hchar] at h
          exact absurd h.symm (hother c' _ _)
      | unterminatedString =>
          rw [List.append_cancel_left_eq] at h
          exact ⟨rfl, List.tail_eq_of_cons_eq h⟩

/-- What a diagnostic is printed as, from its line on. -/
theorem Diagnostic.toList_render (d : Diagnostic) (after : List Char) :
    d.render.toList ++ after
      = "[line ".toList ++ (Nat.toDigits 10 d.line ++ ']' ::
        (" Error: ".toList ++ (d.fault.message.toList ++ after))) := by
  have hline : (toString d.line).toList = Nat.toDigits 10 d.line := by
    rw [Nat.toString_eq_repr, Nat.repr_eq_ofList_toDigits, String.toList_ofList]
  have hmark : "] Error: ".toList = ']' :: " Error: ".toList := by decide +kernel
  rw [render, String.toList_append, String.toList_append, String.toList_append,
    hline, hmark]
  simp only [List.append_assoc, List.cons_append]

/-- Of two printed diagnostics, each with its line end, neither is a
beginning of the other. Here the line number can be read back, up to its
bracket, and the message after it. -/
theorem Diagnostic.decodes {d e : Diagnostic} {a b : List Char}
    (h : d.render.toList ++ '\n' :: a = e.render.toList ++ '\n' :: b) :
    d = e ∧ a = b := by
  have hbracket : ∀ n, ']' ∉ Nat.toDigits 10 n := fun n hmem =>
    absurd (Nat.isDigit_of_mem_toDigits (by decide) (by decide) hmem) (by decide)
  rw [toList_render, toList_render, List.append_cancel_left_eq] at h
  obtain ⟨hdigits, hrest⟩ :=
    eq_of_append_mark (hbracket d.line) (hbracket e.line) h
  rw [List.append_cancel_left_eq] at hrest
  have hline : d.line = e.line := by
    rw [← Nat.ofDigitChars_ten_toDigits (n := d.line), hdigits,
      Nat.ofDigitChars_ten_toDigits]
  obtain ⟨hfault, hafter⟩ := Fault.decodes hrest
  obtain ⟨fault, line⟩ := d
  exact ⟨by rw [show fault = e.fault from hfault, show line = e.line from hline], hafter⟩

-- ============================================================ whole texts

/-- Texts of which none is a beginning of another are told apart when they
are laid end to end. What is told of each is a value and not the thing itself:
tokens on different lines are printed alike. -/
theorem map_eq_of_flatMap_eq {α β : Type} {print : α → List Char} {value : α → β}
    {p : α → Prop} (hne : ∀ x, print x ≠ [])
    (hcode : ∀ x y, p x → p y → ∀ a b, print x ++ a = print y ++ b →
      value x = value y ∧ a = b) (xs : List α) :
    ∀ ys : List α, (∀ x ∈ xs, p x) → (∀ y ∈ ys, p y) →
      xs.flatMap print = ys.flatMap print → xs.map value = ys.map value := by
  induction xs with
  | nil =>
      intro ys _ _ h
      cases ys with
      | nil => rfl
      | cons y ys =>
          rw [List.flatMap_cons] at h
          exact absurd (List.append_eq_nil_iff.1 h.symm).1 (hne y)
  | cons x xs ih =>
      intro ys hxs hys h
      rw [List.forall_mem_cons] at hxs
      cases ys with
      | nil =>
          rw [List.flatMap_cons] at h
          exact absurd (List.append_eq_nil_iff.1 h).1 (hne x)
      | cons y ys =>
          rw [List.forall_mem_cons] at hys
          rw [List.flatMap_cons, List.flatMap_cons] at h
          obtain ⟨hvalue, hrest⟩ := hcode x y hxs.1 hys.1 _ _ h
          rw [List.map_cons, List.map_cons, hvalue, ih ys hxs.2 hys.2 hrest]

/-- What is printed for the tokens of a source tells their number, order,
kinds, lexemes and values, and what is printed for its diagnostics tells all
of these, whatever the strings in it imitate. -/
theorem printed_eq_iff (source other : String) :
    (unlines ((scan source).tokens.map Token.render)
          = unlines ((scan other).tokens.map Token.render)
        ↔ (scan source).tokens.map Token.content
          = (scan other).tokens.map Token.content)
      ∧ (unlines ((scan source).errors.map Diagnostic.render)
          = unlines ((scan other).errors.map Diagnostic.render)
        ↔ (scan source).errors = (scan other).errors) := by
  constructor
  · constructor
    · intro h
      have hchars := congrArg String.toList h
      rw [toList_unlines, toList_unlines, List.flatMap_map, List.flatMap_map] at hchars
      -- only tokens of a source are told apart, so they are known to be such
      refine map_eq_of_flatMap_eq (fun x => by simp) (fun t u ht hu a b hab => ?_)
        _ _ (fun t => eof_or_fromLexeme) (fun t => eof_or_fromLexeme) hchars
      rw [List.append_assoc, List.append_assoc] at hab
      exact Token.decodes ht hu hab
    · intro h
      have hrender : ∀ ts : List Token, ts.map Token.render
          = (ts.map Token.content).map fun content =>
            Token.render ⟨content.1, content.2.1, content.2.2, 1⟩ := by
        intro ts
        rw [List.map_map]
        rfl
      rw [hrender, h, ← hrender]
  · constructor
    · intro h
      have hchars := congrArg String.toList h
      rw [toList_unlines, toList_unlines, List.flatMap_map, List.flatMap_map] at hchars
      rw [← List.map_id (scan source).errors, ← List.map_id (scan other).errors]
      refine map_eq_of_flatMap_eq (p := fun _ => True) (fun x => by simp)
        (fun d e _ _ a b hab => ?_) _ _ (fun _ _ => trivial) (fun _ _ => trivial) hchars
      rw [List.append_assoc, List.append_assoc] at hab
      exact Diagnostic.decodes hab
    · intro h
      rw [h]

/-- The second line belongs to a string, and only the last one is the end. -/
example : unlines ((scan "\"a\nEOF  null\n\"").tokens.map Token.render)
    = "STRING \"a\nEOF  null\n\" a\nEOF  null\n\nEOF  null\n" := by
  decide +kernel

end LoxLexer
