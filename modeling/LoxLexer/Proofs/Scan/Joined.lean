/-
Two sources with a gap between them. What is read from both together is what
is read from the first and then, that many lines further down, what is read
from the second (`scan_joined`). Nothing of the first goes on into the gap,
with two exceptions, and the law is for those texts that have neither: an open
string would go on to the next quote, and a comment at the end would go on to
the next line end, unless that stands in the gap. Then the comment takes the
blanks in front of the line end with it, but these give nothing anyway.

The second source is read from its start, whatever stands in front of it: a
scan has no memory but its line.
-/
import LoxLexer.Proofs.Scan.Basic

namespace LoxLexer

-- ================================================== one scan after another

/-- A scan, and behind it, instead of its end of the input, another. The
diagnostics have no such end, so they are only laid end to end. -/
def Scan.andThen (s t : Scan) : Scan where
  tokens := s.tokens.dropLast ++ t.tokens
  errors := s.errors ++ t.errors

/-- What a piece gives stays in front. The scan behind it must not be empty,
or else the token of the piece would be taken for the end of the input. -/
theorem Piece.before_andThen (p : Piece) (line : Nat) {s : Scan}
    (hs : s.tokens ≠ []) (t : Scan) :
    (p.before line s).andThen t = p.before line (s.andThen t) := by
  unfold Piece.before Scan.andThen
  dsimp only
  rw [List.dropLast_append_of_ne_nil hs, List.append_assoc, List.append_assoc]

-- ================================================= in front of a gap

/-- What follows is no louder for a gap behind it: if there is anything, it
begins as before, and else it begins with the gap. -/
theorem quieter_append (after : List Char) {tail : List Char}
    (h : ∀ c, tail.head? = some c → isGap c = true) :
    Quieter after (after ++ tail) := by
  cases after with
  | nil => exact .of_gap h
  | cons c after => exact .of_head? rfl

/-- A piece is still the longest beginning when a gap is put behind the text,
unless it is open to that: an open string, or a comment at the end. A comment
that ends in front of a line end is as good as any other piece. -/
theorem Longest.append_gap {p : Piece} {after tail : List Char}
    (hlong : Longest p.rule p.text after) (hopen : p.rule ≠ .openString)
    (hcomment : p.rule = .comment → after ≠ [])
    (h : ∀ c, tail.head? = some c → isGap c = true) :
    Longest p.rule p.text (after ++ tail) := by
  by_cases hrule : p.rule = .comment
  · have hstops := hlong.stops
    refine (hlong.1.of_after hopen _).longest_of_stops ?_
    rw [hrule] at hstops ⊢
    intro c hc
    apply hstops c
    rw [← hc, List.head?_append,
      List.head?_eq_some_head (hcomment hrule)]
    rfl
  · refine hlong.of_quieter hrule hopen (quieter_append after h) ?_
    intro rest rest' hafter htail
    rw [hafter, List.cons_append] at htail
    obtain ⟨-, rfl⟩ := List.cons.inj htail
    exact quieter_append rest h

/-- A comment and a gap with a line end in it are spacing: the comment takes
the blanks in front of the first line end. -/
theorem spacing_of_comment {text gap : List Char} (h : Fits .comment text [])
    (hgap : ∀ c ∈ gap, isGap c = true) (hline : '\n' ∈ gap) :
    Spacing (text ++ gap) := by
  obtain ⟨blanks, rest, rfl, hnot⟩ := List.eq_append_cons_of_mem hline
  cases h with
  | regular h =>
      cases h with
      | @comment inside _ hin =>
          have hall : ∀ c ∈ inside ++ blanks, c ≠ '\n' := by
            intro c hc
            rcases List.mem_append.1 hc with hc | hc
            · exact hin c hc
            · intro heq
              exact hnot (heq ▸ hc)
          have hrest : Spacing rest :=
            spacing_of_gaps fun c hc => hgap c (by simp [hc])
          rw [List.cons_append, List.cons_append, ← List.append_assoc]
          exact .comment hall hrest

/-- Behind a text without an open string, and a gap, another text is read as
from its start. The induction is on the cut of the first text: each of its
pieces is still found, and behind the last of them the gap is spacing. -/
theorem scanFrom_joined {cut : List Piece} {first : List Char}
    (h : Cut cut first) {gap : List Char} (hne : gap ≠ [])
    (hgap : ∀ c ∈ gap, isGap c = true) (second : List Char) :
    (∀ p ∈ cut, p.rule ≠ .openString) →
      ('\n' ∈ gap ∨ cut.getLast?.map Piece.rule ≠ some .comment) → ∀ line,
        scanFrom line (first ++ (gap ++ second))
          = (scanFrom line first).andThen
              (scanFrom (line + (first ++ gap).count '\n') second) := by
  induction h with
  | done =>
      intro _ _ line
      rw [List.nil_append, scanFrom_spacing (spacing_of_gaps hgap), scanFrom_nil]
      rfl
  | @next p cut after hpiece hlong hcut ih =>
      intro hclosed hlast line
      have hopen : p.rule ≠ .openString := hclosed p List.mem_cons_self
      by_cases hend : p.rule = .comment ∧ after = []
      · -- the comment goes on to the line end in the gap
        obtain ⟨hrule, rfl⟩ := hend
        have hnil := hcut.eq_nil
        subst hnil
        have hline : '\n' ∈ gap := by
          rcases hlast with hline | hlast
          · exact hline
          · exact absurd (congrArg some hrule) hlast
        have hfits := hlong.1
        rw [hrule] at hfits
        have hspace := spacing_of_comment hfits hgap hline
        rw [scanFrom_append hpiece hlong, Piece.before_of_silent (Or.inl hrule),
          scanFrom_nil, List.append_nil, ← List.append_assoc,
          scanFrom_spacing hspace]
        rfl
      · -- any other piece stops, whether in front of the gap or before it
        have hhead : ∀ c, (gap ++ second).head? = some c → isGap c = true := by
          intro c hc
          rw [List.head?_append, List.head?_eq_some_head hne] at hc
          cases hc
          exact hgap _ (List.head_mem hne)
        have hlonger := hlong.append_gap (p := p) hopen
          (fun hrule hnil => hend ⟨hrule, hnil⟩) hhead
        have hrest := ih
          (fun q hq => hclosed q (List.mem_cons_of_mem p hq))
          (hlast.imp_right fun hlast => ?_) (line + p.newlines)
        · have hlines : line + (p.text ++ after ++ gap).count '\n'
              = line + p.newlines + (after ++ gap).count '\n' := by
            rw [List.append_assoc, List.count_append, Piece.newlines,
              Nat.add_assoc]
          rw [List.append_assoc, scanFrom_append hpiece hlonger, hrest,
            scanFrom_append hpiece hlong, hlines,
            Piece.before_andThen p line (scanFrom_tokens_ne_nil _ _)]
        · cases cut with
          | nil => simp
          | cons q cut =>
              rw [List.getLast?_cons_cons] at hlast
              exact hlast

-- ============================================================== the sources

/-- An open string is always reported. So a source without this report has no
open string among its pieces. -/
theorem exists_error_of_openString {p : Piece} (hrule : p.rule = .openString) :
    ∀ {cut : List Piece} (line : Nat), p ∈ cut →
      ∃ d ∈ errorsFrom line cut, d.fault = .unterminatedString := by
  intro cut
  induction cut with
  | nil => exact fun _ hp => absurd hp List.not_mem_nil
  | cons q cut ih =>
      intro line hp
      rcases List.mem_cons.1 hp with rfl | hp
      · refine ⟨⟨.unterminatedString, line + p.newlines⟩, ?_, rfl⟩
        rw [errorsFrom, Piece.diagnostic?, hrule]
        exact List.mem_append_left _ List.mem_cons_self
      · obtain ⟨d, hd, hfault⟩ := ih (line + q.newlines) hp
        exact ⟨d, List.mem_append_right _ hd, hfault⟩

/-- Two sources with a gap between them are read one after the other. The
first must not end in an open string, and its last segment must not be a
comment, unless the gap holds a line end. -/
theorem scan_joined (first gap second : String) (hne : gap ≠ "")
    (hgap : ∀ c ∈ gap.toList, isGap c = true)
    (hclosed : ∀ d ∈ (scan first).errors, d.fault ≠ .unterminatedString)
    (hlast : '\n' ∈ gap.toList
      ∨ (segments first).getLast?.map Segment.rule ≠ some .comment) :
    (scan (first ++ gap ++ second)).tokens
        = (scan first).tokens.dropLast
          ++ (scan second).tokens.map
              (Token.later ((first ++ gap).toList.count '\n'))
      ∧ (scan (first ++ gap ++ second)).errors
        = (scan first).errors
          ++ (scan second).errors.map
              (Diagnostic.later ((first ++ gap).toList.count '\n')) := by
  have hpieces : ∀ p ∈ pieces first.toList, p.rule ≠ .openString := by
    intro p hp hrule
    obtain ⟨d, hd, hfault⟩ := exists_error_of_openString hrule 1 hp
    rw [scan_eq] at hclosed
    exact hclosed d hd hfault
  have hrules : (pieces first.toList).getLast?.map Piece.rule
      = (segments first).getLast?.map Segment.rule := by
    rw [← map_piece_segments, List.getLast?_map, Option.map_map]
    rfl
  have hscan := scanFrom_joined (cut_pieces first.toList)
    (fun hnil => hne (String.toList_eq_nil_iff.1 hnil)) hgap second.toList
    hpieces (by rw [hrules]; exact hlast) 1
  rw [scanFrom_later] at hscan
  rw [scan_eq_scanFrom, scan_eq_scanFrom first, scan_eq_scanFrom second,
    String.toList_append, String.toList_append, List.append_assoc, hscan]
  exact ⟨rfl, rfl⟩

/-- Behind an unexpected character and a comment, a string over two lines and
an open string, all on later lines. -/
theorem scan_joined_comment :
    (∀ c ∈ " \n".toList, isGap c = true)
      ∧ (∀ d ∈ (scan "1.#//\"").errors, d.fault ≠ .unterminatedString)
      ∧ (scan ("1.#//\"" ++ " \n" ++ "5\"a\nb\"\"")).tokens
          = (scan "1.#//\"").tokens.dropLast
            ++ (scan "5\"a\nb\"\"").tokens.map
                (Token.later (("1.#//\"" ++ " \n").toList.count '\n'))
      ∧ (scan ("1.#//\"" ++ " \n" ++ "5\"a\nb\"\"")).errors
          = (scan "1.#//\"").errors
            ++ (scan "5\"a\nb\"\"").errors.map
                (Diagnostic.later (("1.#//\"" ++ " \n").toList.count '\n')) := by
  have hgap : ∀ c ∈ " \n".toList, isGap c = true :=
    List.all_eq_true.1 (by decide)
  have hclosed : ∀ d ∈ (scan "1.#//\"").errors,
      d.fault ≠ .unterminatedString := by
    decide +kernel
  exact ⟨hgap, hclosed, scan_joined "1.#//\"" " \n" "5\"a\nb\"\"" (by decide)
    hgap hclosed (Or.inl (by decide +kernel))⟩

end LoxLexer
