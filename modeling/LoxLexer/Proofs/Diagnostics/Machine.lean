/-
The diagnostics of a source, found by a machine that knows nothing of tokens.
It reads one character at a time and is in one of four modes; what it puts
out for a source is what the scan of the source reports (`errors_eq_run`).

# Why four modes are enough

A piece is run through without a look at the others: from code, the machine
puts out what the piece gives and goes on as if it were in code again
(`run_piece`). Two pieces do not leave it in code by the letter. Behind a
lone slash it waits for a second one, and behind a comment for the line end,
but neither can be told from code by what follows: the piece would have been
longer if a second slash, or any character of the line, came next. The third
is the open string, and nothing follows it.
-/
import LoxLexer.Proofs.Segment.Placement

namespace LoxLexer

-- ======================================================= the machine

/-- Where the machine is: between the words, behind one slash, between
quotes, or behind two slashes. -/
inductive Mode where
  | code
  | slash
  | text
  | comment
deriving DecidableEq, Repr

/-- What code is written with besides letters, digits, quotes and slashes. -/
def marks : List Char :=
  ['_', ' ', '\t', '\r', '\n', '(', ')', '{', '}', ',', '.', '-', '+', ';', '*',
    '!', '=', '<', '>']

/-- Whether a character of code neither opens nor closes anything, and belongs
to some token or stands between them. All others but quotes and slashes are
strays. -/
def isPlain (c : Char) : Bool := c.isAlpha || c.isDigit || marks.contains c

namespace Mode

/-- The mode behind a character. A quote between two quotes ends them, and is
not looked at in a comment; a comment goes on to the line end, which is not
looked at between quotes. -/
def next : Mode → Char → Mode
  | code, c => if c = '"' then text else if c = '/' then slash else code
  | slash, c => if c = '"' then text else if c = '/' then comment else code
  | text, c => if c = '"' then code else text
  | comment, c => if c = '\n' then code else comment

/-- What the machine puts out at a character on a line. Nothing is wrong
inside quotes or comments. -/
def output? (line : Nat) (c : Char) : Mode → Option Diagnostic
  | code | slash =>
    if c = '"' ∨ c = '/' ∨ isPlain c = true then none
    else some ⟨.unexpectedCharacter c, line⟩
  | text | comment => none

/-- What the machine puts out over a text, from a mode and a line on. At the
end of the text an open quote is reported. -/
def run (q : Mode) (line : Nat) : List Char → List Diagnostic
  | [] => if q = text then [⟨.unterminatedString, line⟩] else []
  | c :: rest =>
    (q.output? line c).toList
      ++ run (q.next c) (if c = '\n' then line + 1 else line) rest

-- ================================================== runs of characters

/-- Where no character changes the mode or is put out, only the lines are
counted. Long pieces are run through by this lemma: the plain ones in code, the
inside of a string and that of a comment. -/
theorem run_steady {q : Mode} {text : List Char}
    (h : ∀ c ∈ text, q.next c = q ∧ ∀ line, q.output? line c = none)
    (line : Nat) (after : List Char) :
    run q line (text ++ after) = run q (line + text.count '\n') after := by
  induction text generalizing line with
  | nil => rfl
  | cons c text ih =>
      obtain ⟨hnext, hout⟩ := h c List.mem_cons_self
      have hrest := ih fun d hd => h d (List.mem_cons_of_mem c hd)
      rw [List.cons_append, run, hnext, hout, hrest, List.count_cons]
      by_cases hc : c = '\n'
      · subst hc
        rw [if_pos rfl, if_pos (by decide), Nat.add_comm (text.count '\n'),
          ← Nat.add_assoc]
        rfl
      · rw [if_neg hc, if_neg (by simpa using hc)]
        rfl

/-- Plain characters keep the machine in code, and none of them is put out. -/
theorem run_plain {text : List Char} (h : ∀ c ∈ text, isPlain c = true)
    (line : Nat) (after : List Char) :
    run code line (text ++ after)
      = run code (line + text.count '\n') after := by
  refine run_steady (fun c hc => ?_) line after
  have hplain := h c hc
  have hquote : c ≠ '"' := by
    intro hc
    subst hc
    exact absurd hplain (by decide)
  have hslash : c ≠ '/' := by
    intro hc
    subst hc
    exact absurd hplain (by decide)
  constructor
  · rw [next, if_neg hquote, if_neg hslash]
  · intro line
    rw [output?, if_pos (Or.inr (Or.inr hplain))]

theorem run_open_quote (line : Nat) (rest : List Char) :
    run code line ('"' :: rest) = run text line rest := rfl

theorem run_close_quote (line : Nat) (rest : List Char) :
    run text line ('"' :: rest) = run code line rest := rfl

/-- Between quotes the machine waits for a quote. -/
theorem run_text {inside : List Char} (h : ∀ c ∈ inside, c ≠ '"') (line : Nat)
    (after : List Char) :
    run text line (inside ++ after)
      = run text (line + inside.count '\n') after :=
  run_steady (q := text)
    (fun c hc => ⟨if_neg (h c hc), fun _ => rfl⟩) line after

/-- In a comment the machine waits for the line end. -/
theorem run_comment {inside : List Char} (h : ∀ c ∈ inside, c ≠ '\n')
    (line : Nat)
    (after : List Char) :
    run comment line (inside ++ after) = run comment line after := by
  have hcount : inside.count '\n' = 0 :=
    List.count_eq_zero.2 fun hin => h '\n' hin rfl
  have hrun :=
    run_steady (q := comment) (fun c hc => ⟨if_neg (h c hc), fun _ => rfl⟩)
    line after
  rw [hrun, hcount, Nat.add_zero]

/-- Behind a slash that is not followed by another the machine might as well
be in code: the two modes differ in what a second slash does, and in nothing
else. -/
theorem run_slash {after : List Char} (h : after.head? ≠ some '/')
    (line : Nat) :
    run slash line after = run code line after := by
  cases after with
  | nil => rfl
  | cons c rest =>
      have hc : c ≠ '/' := fun heq => h (by rw [heq]; rfl)
      have hnext : slash.next c = code.next c := by
        rw [next, next, if_neg hc, if_neg hc]
      rw [run, run, hnext]
      rfl

/-- Behind a comment that ends the machine might as well be in code. What ends
it is a line end, which leads to code from either mode, or the end of the
text. -/
theorem run_comment_end {after : List Char}
    (h : ∀ c, after.head? = some c → c = '\n') (line : Nat) :
    run comment line after = run code line after := by
  cases after with
  | nil => rfl
  | cons c rest =>
      obtain rfl := h c rfl
      rfl

end Mode

-- ================================================== what pieces are made of

/-- What an operator starts with is a slash or plain. -/
private theorem plain_of_ofSpelling? {c : Char} {o : Operator}
    (h : Operator.ofSpelling? [c] = some o) : c = '/' ∨ isPlain c = true := by
  rw [Operator.ofSpelling?_eq_some_iff] at h
  cases o
  all_goals
    simp only [Operator.spelling, List.cons.injEq, and_true, reduceCtorEq,
      and_false] at h
  all_goals
    subst h
    decide

/-- All operators but the slash are plain. -/
private theorem plain_of_mem_spelling {o : Operator} (h : o ≠ .slash) :
    ∀ c ∈ o.spelling, isPlain c = true := by
  apply List.all_eq_true.1
  cases o
  case slash => exact absurd rfl h
  all_goals rfl

theorem plain_of_isDigit {c : Char} (h : c.isDigit = true) :
    isPlain c = true := by
  rw [isPlain, h, Bool.or_true, Bool.true_or]

theorem plain_of_isWordPart {c : Char} (h : isWordPart c = true) :
    isPlain c = true := by
  simp only [isWordPart, Char.isAlphanum, Bool.or_eq_true, beq_iff_eq] at h
  rcases h with (h | h) | rfl
  · rw [isPlain, h, Bool.true_or, Bool.true_or]
  · exact plain_of_isDigit h
  · decide

/-- Every mark is a gap, the underscore or an operator. -/
private theorem opening_of_mem_marks {c : Char} (h : c ∈ marks) : Opening c := by
  have hall : marks.all (fun c => isBlank c || c == '\n' || isWordStart c
      || (Operator.ofSpelling? [c]).isSome) = true := by decide
  have hc := List.all_eq_true.1 hall c h
  simp only [Bool.or_eq_true, beq_iff_eq] at hc
  rcases hc with ((hc | hc) | hc) | hc
  · exact .blank hc
  · exact .newline hc
  · exact .word hc
  · obtain ⟨o, ho⟩ := Option.isSome_iff_exists.1 hc
    exact .operator ho

/-- The machine knows what starts a text of the eight rules. So a character
that it puts out in code is a stray, and a stray is one that it puts out. -/
theorem starts_iff_plain {c : Char} :
    Starts c ↔ c = '"' ∨ c = '/' ∨ isPlain c = true := by
  rw [starts_iff]
  constructor
  · intro h
    cases h with
    | blank h =>
        rcases eq_of_isBlank h with rfl | rfl | rfl
        all_goals decide
    | newline h =>
        subst h
        decide
    | word h =>
        exact Or.inr (Or.inr (plain_of_isWordPart (isWordPart_of_isWordStart h)))
    | number h => exact Or.inr (Or.inr (plain_of_isDigit h))
    | quote h => exact Or.inl h
    | operator h => exact Or.inr (plain_of_ofSpelling? h)
  · intro h
    rcases h with h | h | h
    · exact .quote h
    · subst h
      exact .operator (o := .slash) rfl
    · -- letters, digits and marks, as the grammar sorts them
      simp only [isPlain, Bool.or_eq_true, List.contains_iff_mem] at h
      rcases h with (h | h) | h
      · apply Opening.word
        rw [isWordStart, h, Bool.true_or]
      · exact .number h
      · exact opening_of_mem_marks h

-- ===================================================== piece by piece

open Mode

/-- A plain piece is not reported. -/
private theorem run_plain_piece {p : Piece} (h : ∀ c ∈ p.text, isPlain c = true)
    (hrule : p.rule ≠ .stray ∧ p.rule ≠ .openString) (line : Nat)
    (after : List Char) :
    run code line (p.text ++ after)
      = (p.diagnostic? line).toList ++ run code (line + p.newlines) after := by
  rw [run_plain h, Piece.diagnostic?_eq_none hrule.1 hrule.2]
  rfl

/-- A stray is reported, and the machine stays in code. -/
private theorem run_stray_piece {c : Char} (h : ¬ Starts c) (line : Nat)
    (after : List Char) :
    run code line ([c] ++ after)
      = (Piece.diagnostic? line ⟨.stray, [c]⟩).toList
        ++ run code (line + Piece.newlines ⟨.stray, [c]⟩) after := by
  have hout : code.output? line c = some ⟨.unexpectedCharacter c, line⟩ :=
    if_neg fun hc => h (starts_iff_plain.2 hc)
  have hline : c ≠ '\n' := by
    intro hc
    exact h (starts_iff.2 (.newline hc))
  have hnext : code.next c = code := by
    rw [next, if_neg fun hc => h (starts_iff_plain.2 (Or.inl hc)),
      if_neg fun hc => h (starts_iff_plain.2 (Or.inr (Or.inl hc)))]
  have hcount : Piece.newlines ⟨.stray, [c]⟩ = 0 :=
    count_newline_of_fits (.stray after h) (by simp) (by simp) (by simp)
  rw [List.singleton_append, run, hout, hnext, if_neg hline, hcount]
  rfl

/-- From code, the machine puts out what the piece gives and is as good as in
code behind it. This is the invariant of the whole run. It needs the piece to
be the longest: behind a lone slash or a comment, what follows is looked at. -/
theorem run_piece {p : Piece} {after : List Char}
    (h : Longest p.rule p.text after) (line : Nat) :
    run code line (p.text ++ after)
      = (p.diagnostic? line).toList ++ run code (line + p.newlines) after := by
  have hfits := h.1
  obtain ⟨rule, text⟩ := p
  dsimp only at h hfits
  cases hfits with
  | stray _ hstray => exact run_stray_piece hstray line after
  | regular hregular =>
      cases hregular with
      | operator o =>
          -- the slash alone leaves the machine in another mode
          by_cases ho : o = .slash
          · subst ho
            exact run_slash h.head?_of_slash line
          · exact run_plain_piece (plain_of_mem_spelling ho)
              (by simp) line after
      | @comment inside _ hin =>
          have hcount : Piece.newlines ⟨.comment, '/' :: '/' :: inside⟩ = 0 :=
            count_newline_of_fits h.1 (by simp) (by simp) (by simp)
          rw [hcount, ← run_comment_end (h.head?_of_comment hin)]
          exact run_comment hin line after
      | blank _ hblank =>
          refine run_plain_piece (List.forall_mem_singleton.2 ?_)
            (by simp) line after
          rcases hblank with rfl | rfl | rfl
          all_goals decide
      | newline =>
          refine run_plain_piece (List.forall_mem_singleton.2 ?_)
            (by simp) line after
          decide
      | @string inside _ hin =>
          calc run code line ('"' :: (inside ++ ['"']) ++ after)
              = run text line (inside ++ '"' :: after) := by
                rw [List.cons_append, List.append_assoc, run_open_quote]
                rfl
            _ = run text (line + inside.count '\n') ('"' :: after) :=
              run_text hin line _
            _ = run code (line + inside.count '\n') after :=
              run_close_quote _ after
            _ = run code (line + Piece.newlines ⟨.string, _⟩) after := by
              rw [newlines_string]
      | @openString inside hin =>
          calc run code line ('"' :: inside ++ [])
              = run text line (inside ++ []) := by
                rw [List.cons_append, run_open_quote]
            _ = run text (line + inside.count '\n') [] := run_text hin line []
            _ = (Piece.diagnostic? line ⟨.openString, '"' :: inside⟩).toList := by
              unfold Piece.diagnostic?
              rw [newlines_openString]
              rfl
      | whole | fraction =>
          refine run_plain_piece (fun c hc => ?_) (by simp) line after
          rcases h.1.isDigit_or_point c hc with hdigit | rfl
          · exact plain_of_isDigit hdigit
          · decide
      | word =>
          exact run_plain_piece (fun c hc => plain_of_isWordPart
            (h.1.isWordPart c hc)) (by simp) line after

/-- From code, the machine puts out what the pieces of a text give. -/
theorem run_cut {cut : List Piece} {text : List Char} (h : Cut cut text) :
    ∀ line, run code line text = errorsFrom line cut := by
  induction h with
  | done => exact fun _ => rfl
  | next _ hlong _ ih =>
      intro line
      rw [run_piece hlong, ih, errorsFrom]

/-- The only thing put out at a character is that it is unexpected. -/
private theorem fault_of_output? {q : Mode} {line : Nat} {c : Char}
    {d : Diagnostic}
    (h : q.output? line c = some d) : d.fault = .unexpectedCharacter c := by
  cases q with
  | code | slash =>
      simp only [output?] at h
      split at h
      case isTrue => cases h
      case isFalse =>
        cases h
        rfl
  | text | comment => cases h

/-- An open string is put out last: it is put out at the end of the text, and a
character never is. -/
theorem unterminated_last {text : List Char} :
    ∀ {q : Mode} {line : Nat} {before after : List Diagnostic} {d : Diagnostic},
      run q line text = before ++ d :: after → d.fault = .unterminatedString →
        after = [] := by
  induction text with
  | nil =>
      intro q line before after d h _
      unfold run at h
      split at h
      case isTrue =>
        cases before with
        | nil => exact (List.cons.inj h).2.symm
        | cons e before => cases before <;> cases (List.cons.inj h).2
      case isFalse => cases before <;> cases h
  | cons c text ih =>
      intro q line before after d h hfault
      rw [run] at h
      -- what is put out at the character is not it, so it comes later
      cases hout : q.output? line c with
      | none =>
          rw [hout] at h
          exact ih h hfault
      | some e =>
          rw [hout] at h
          cases before with
          | nil =>
              obtain ⟨rfl, -⟩ := List.cons.inj h
              rw [fault_of_output? hout] at hfault
              cases hfault
          | cons _ before => exact ih (List.cons.inj h).2 hfault

-- ============================================================ the scan

/-- The diagnostics of a source are what the machine puts out for it. So an
open string is reported last, and the exit code says whether the machine puts
out anything. -/
theorem errors_eq_run (source : String) :
    (scan source).errors = run code 1 source.toList
      ∧ (∀ before d after, (scan source).errors = before ++ d :: after →
          d.fault = .unterminatedString → after = [])
      ∧ ((scan source).hadError = true ↔ run code 1 source.toList ≠ [])
      ∧ ((scan source).exitCode = 65 ↔ run code 1 source.toList ≠ [])
      ∧ ((scan source).exitCode = 0 ↔ run code 1 source.toList = []) := by
  have herrors : (scan source).errors = run code 1 source.toList := by
    rw [scan_eq, run_cut (cut_pieces source.toList)]
  unfold Scan.exitCode Scan.hadError
  rw [herrors]
  refine ⟨rfl, fun before d after h => unterminated_last h, ?_⟩
  cases run code 1 source.toList with
  | nil => decide
  | cons d errors => simp [Scan.lexicalErrorCode]

end LoxLexer
