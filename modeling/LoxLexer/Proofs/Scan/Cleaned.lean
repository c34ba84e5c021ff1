/-
What is wrong with a source, and what only comments on it, changes none of
its tokens. Cleaning takes the comments out of a source, puts a space in the
place of each unexpected character, and leaves of an open string only its line
ends; the cleaned source has the same tokens, on the same lines, and nothing
is wrong with it (`scan_cleaned`).

# Why no two pieces run together

Behind a piece that is kept, the cleaned rest of the text begins as the rest
did, or with a gap, or it is empty (`quieter_cleaned`): a comment ends at a
line end or with the text, an unexpected character became a space, and of an
open string line ends remain. So what stopped there before still stops. Only
a number looks one character further, and then the first was a point, which
is a piece by itself (`Cut.of_point`), so that the same holds behind it.
-/
import LoxLexer.Proofs.Scan.Basic

namespace LoxLexer

-- ============================================================= cleaning

/-- What is left of a piece: no comment, a space for an unexpected character,
the line ends of an open string, and all of anything else. -/
def Piece.cleaned (p : Piece) : List Char :=
  match p.rule with
  | .comment => []
  | .stray => [' ']
  | .openString => p.text.filter (· == '\n')
  | .operator _ | .blank | .newline | .string | .number | .word => p.text

/-- A source without its comments and without anything wrong. -/
def cleaned (source : String) : String :=
  String.ofList ((segments source).flatMap fun g => (g.piece source).cleaned)

theorem toList_cleaned (source : String) :
    (cleaned source).toList
      = (pieces source.toList).flatMap Piece.cleaned := by
  rw [cleaned, String.toList_ofList, ← map_piece_segments, List.flatMap_map]

/-- Either a piece is kept, or it is one of the three that are not. The proofs
below go by these four cases and not by the nine rules. -/
theorem Piece.cleaned_cases (p : Piece) :
    (p.rule = .comment ∧ p.cleaned = [])
      ∨ (p.rule = .stray ∧ p.cleaned = [' '])
      ∨ (p.rule = .openString ∧ p.cleaned = p.text.filter (· == '\n'))
      ∨ ((p.rule ≠ .comment ∧ p.rule ≠ .stray ∧ p.rule ≠ .openString)
        ∧ p.cleaned = p.text) := by
  unfold Piece.cleaned
  cases p.rule
  all_goals simp

-- ========================================================== what follows

/-- A point in front of a text is a piece of its own. It is the only character
behind which a number is still asked about. -/
theorem Cut.of_point {cut : List Piece} {rest : List Char}
    (h : Cut cut ('.' :: rest)) :
    ∃ more, cut = ⟨.operator .dot, ['.']⟩ :: more ∧ Cut more rest := by
  have hlong : Longest (.operator .dot) ['.'] rest := by
    apply (Fits.regular (.operator .dot rest)).longest_of_stops
    exact ⟨fun hslash => Operator.noConfusion hslash, fun _ => rfl⟩
  refine ⟨pieces rest, ?_, cut_pieces rest⟩
  rw [h.eq_pieces]
  exact pieces_append (p := ⟨.operator .dot, ['.']⟩) (List.cons_ne_nil _ _) hlong

/-- What is left of a text begins as the text does, or with a gap. This is the
invariant that lets a piece in front stop as it did: by induction on the cut,
with a look at what follows only behind a comment, which leaves nothing. -/
theorem quieter_cleaned {cut : List Piece} {text : List Char}
    (h : Cut cut text) : Quieter text (cut.flatMap Piece.cleaned) := by
  induction h with
  | done => exact .of_head? rfl
  | @next p cut after hne hlong hcut ih =>
      rw [List.flatMap_cons]
      rcases p.cleaned_cases with ⟨hrule, hleft⟩ | ⟨hrule, hleft⟩ |
        ⟨hrule, hleft⟩ | ⟨-, hleft⟩
      · -- behind a comment there is a line end or nothing, cleaned or not
        have hstops := hlong.stops
        rw [hrule] at hstops
        rw [hleft, List.nil_append]
        apply Quieter.of_gap
        intro c hc
        cases hgap : isGap c with
        | true => rfl
        | false =>
            rw [hstops c (ih.head?_eq hc hgap)] at hgap
            exact absurd hgap (by decide)
      · rw [hleft]
        apply Quieter.of_gap
        intro c hc
        cases hc
        rfl
      · -- nothing follows an open string, and of it line ends are left
        have hfits := hlong.1
        rw [hrule] at hfits
        have hnil := hfits.of_openString
        subst hnil
        rw [hleft, hcut.eq_nil, List.flatMap_nil, List.append_nil,
          List.append_nil]
        apply Quieter.of_gap
        intro c hc
        have hline := (List.mem_filter.1 (List.mem_of_head? hc)).2
        rw [isGap, hline, Bool.or_true]
      · rw [hleft]
        apply Quieter.of_head?
        rw [List.head?_append, List.head?_append, List.head?_eq_some_head hne]
        rfl

/-- A piece that is kept is still the longest beginning. What follows is
quieter, and it is quieter too behind a point, for the point is kept. -/
theorem longest_cleaned {p : Piece} {cut : List Piece} {after : List Char}
    (hlong : Longest p.rule p.text after) (hcut : Cut cut after)
    (hcomment : p.rule ≠ .comment) (hopen : p.rule ≠ .openString) :
    Longest p.rule p.text (cut.flatMap Piece.cleaned) := by
  have hpoint : ∀ rest rest', after = '.' :: rest →
      cut.flatMap Piece.cleaned = '.' :: rest' → Quieter rest rest' := by
    intro rest rest' hafter hleft
    subst hafter
    obtain ⟨more, rfl, hmore⟩ := hcut.of_point
    obtain ⟨-, rfl⟩ := List.cons.inj hleft
    exact quieter_cleaned hmore
  exact hlong.of_quieter hcomment hopen (quieter_cleaned hcut) hpoint

-- ====================================================== what is still read

/-- What is wrong with a text gives only diagnostics. -/
theorem Piece.before_of_fault {p : Piece}
    (h : p.rule = .stray ∨ p.rule = .openString) (line : Nat) (s : Scan) :
    { p.before line s with errors := [] } = { s with errors := [] } := by
  obtain ⟨rule, text⟩ := p
  rcases h with h | h
  all_goals
    dsimp only at h
    subst h
    rfl

/-- A comment and a stray have no line end in them. -/
private theorem newlines_of_rule {p : Piece} {after : List Char}
    (hlong : Longest p.rule p.text after)
    (h : p.rule = .comment ∨ p.rule = .stray) : p.newlines = 0 := by
  rcases h with hrule | hrule
  all_goals
    exact count_newline_of_fits hlong.1 (by simp [hrule]) (by simp [hrule])
      (by simp [hrule])

/-- What is left of a text gives the tokens of the text and no diagnostic. Each
piece leaves as many line ends as it had, so all that follows it stays on its
line. -/
theorem scanFrom_cleaned {cut : List Piece} {text : List Char}
    (h : Cut cut text) : ∀ line,
    scanFrom line (cut.flatMap Piece.cleaned)
      = { scanFrom line text with errors := [] } := by
  induction h with
  | done =>
      intro line
      rw [List.flatMap_nil, scanFrom_nil]
  | @next p cut after hne hlong hcut ih =>
      intro line
      rw [List.flatMap_cons, scanFrom_append hne hlong]
      rcases p.cleaned_cases with ⟨hrule, hleft⟩ | ⟨hrule, hleft⟩ |
        ⟨hrule, hleft⟩ | ⟨⟨hcomment, hstray, hopen⟩, hleft⟩
      · -- a comment, a stray, an open string, and what is kept
        rw [hleft, List.nil_append, ih, newlines_of_rule hlong (Or.inl hrule),
          Piece.before_of_silent (Or.inl hrule)]
        rfl
      · rw [hleft, List.singleton_append, scanFrom_gap (by decide), ih,
          newlines_of_rule hlong (Or.inr hrule),
          Piece.before_of_fault (Or.inl hrule)]
        rfl
      · have hfits := hlong.1
        rw [hrule] at hfits
        have hnil := hfits.of_openString
        subst hnil
        have hspace : Spacing (p.text.filter (· == '\n')) := by
          apply spacing_of_gaps
          intro c hc
          rw [isGap, (List.mem_filter.1 hc).2, Bool.or_true]
        rw [hleft, hcut.eq_nil, List.flatMap_nil, scanFrom_spacing hspace,
          List.count_filter (by rfl), scanFrom_nil,
          Piece.before_of_fault (Or.inr hrule), scanFrom_nil]
        rfl
      · rw [hleft,
          scanFrom_append hne (longest_cleaned hlong hcut hcomment hopen), ih]
        unfold Piece.before
        rw [Piece.diagnostic?_eq_none hstray hopen]
        rfl

/-- A cleaned source has the tokens of the source, in all their parts and on
their lines, and nothing is wrong with it. -/
theorem scan_cleaned (source : String) :
    (scan (cleaned source)).errors = []
      ∧ (scan (cleaned source)).tokens = (scan source).tokens := by
  have hscan := scanFrom_cleaned (cut_pieces source.toList) 1
  rw [← toList_cleaned] at hscan
  rw [scan_eq_scanFrom, scan_eq_scanFrom, hscan]
  exact ⟨rfl, rfl⟩

example : cleaned "a//b\n1.#5 \"c\nd" = "a\n1. 5 \n"
    ∧ (scan "a\n1. 5 \n").tokens = (scan "a//b\n1.#5 \"c\nd").tokens := by
  decide +kernel

end LoxLexer
