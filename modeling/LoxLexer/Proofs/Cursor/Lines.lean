/-
The lines that tokens and diagnostics are placed on. The line of a cursor is
always the line of its offset (`Ready.line_eq`): each line end is counted when
the cursor passes it, whether it stands between the pieces or inside a string,
and a comment stops in front of the one that ends it.

So a turn places what it finds on the line that it begins on. Only an open
string is placed where it ends, and behind it there is nothing: that is the
last line, on which the end of the input is placed too. The lines of the
tokens never go back, and no more do those of the diagnostics, since each
piece places what it gives between its own first and last line
(`line_of_mem_tokensFrom`, `line_of_mem_errorsFrom`).
-/
import LoxLexer.Proofs.Cursor.Simulation

namespace LoxLexer

-- ====================================================== lines of a source

/-- The line of an offset: one more than there are line ends in front. -/
def lineAt (source : String) (offset : Nat) : Nat :=
  1 + ((octets source).take offset).count '\n'

/-- The last line of a source. -/
def endLine (source : String) : Nat := 1 + source.toList.count '\n'

/-- Behind some whole characters the line is known from them: no byte of a wide
character is a line end. -/
theorem lineAt_width {source : String} {before after : List Char}
    (h : source.toList = before ++ after) :
    lineAt source (width before) = 1 + before.count '\n' := by
  show 1 + ((octets source).take (width before)).count '\n' = _
  rw [octets_eq_encode, h, encode_append, width, List.take_left,
    count_encode (by decide)]

/-- There are no more line ends than bytes. So a line number is no larger than
a size, and fits where a size does. -/
theorem lineAt_le (source : String) (offset : Nat) :
    lineAt source offset ≤ 1 + source.utf8ByteSize := by
  have hcount : ((octets source).take offset).count '\n'
      ≤ ((octets source).take offset).length := List.count_le_length
  have htake : ((octets source).take offset).length ≤ (octets source).length :=
    List.length_take_le' _ _
  have hsize : (octets source).length = source.utf8ByteSize := by
    rw [octets_eq_encode, ← width_toList]
    rfl
  show 1 + ((octets source).take offset).count '\n' ≤ _
  omega

-- ================================================ the lines of the pieces

/-- The tokens of a text are placed on its lines: not before the first, and
not behind the last. -/
theorem line_of_mem_tokensFrom {cut : List Piece} {text : List Char}
    (h : Cut cut text) :
    ∀ line, ∀ t ∈ tokensFrom line cut, line ≤ t.line
      ∧ t.line ≤ line + text.count '\n' := by
  induction h with
  | done => exact fun _ _ ht => absurd ht List.not_mem_nil
  | @next p cut after _ _ _ ih =>
      intro line t ht
      rw [List.count_append]
      rcases List.mem_append.1 ht with ht | ht
      · rw [Option.mem_toList] at ht
        rw [(Piece.eq_of_token? ht).2]
        omega
      · have hrest := ih _ t ht
        unfold Piece.newlines at hrest
        omega

/-- The diagnostics of a text are not placed before its first line. Nothing
more is needed to see that their lines do not go back. -/
theorem line_of_mem_errorsFrom {cut : List Piece} {text : List Char}
    (h : Cut cut text) :
    ∀ line, ∀ e ∈ errorsFrom line cut, line ≤ e.line := by
  induction h with
  | done => exact fun _ _ he => absurd he List.not_mem_nil
  | @next p cut after _ _ _ ih =>
      intro line e he
      rcases List.mem_append.1 he with he | he
      · rw [Option.mem_toList] at he
        rcases Piece.eq_of_diagnostic? he with ⟨-, -, hline⟩ | ⟨-, -, hline⟩
        all_goals omega
      · have hrest := ih _ e he
        omega

/-- The lines of the tokens of a text do not go back. The token of a piece is
on the line where the piece begins, and those of the others on that line or
later. -/
theorem pairwise_tokensFrom {cut : List Piece} {text : List Char}
    (h : Cut cut text) :
    ∀ line, (tokensFrom line cut).Pairwise fun s t => s.line ≤ t.line := by
  induction h with
  | done => exact fun _ => .nil
  | @next p cut after _ _ hcut ih =>
      intro line
      rw [tokensFrom, List.pairwise_append]
      refine ⟨?_, ih _, ?_⟩
      · cases p.token? line with
        | none => exact .nil
        | some t => exact List.pairwise_singleton _ t
      · intro s hs t ht
        rw [Option.mem_toList] at hs
        have hrest := line_of_mem_tokensFrom hcut _ t ht
        have hfirst := (Piece.eq_of_token? hs).2
        omega

/-- The lines of the diagnostics of a text do not go back. An open string is
reported where it ends, which may be lines later, but not later than what
follows it. -/
theorem pairwise_errorsFrom {cut : List Piece} {text : List Char}
    (h : Cut cut text) :
    ∀ line, (errorsFrom line cut).Pairwise fun d e => d.line ≤ e.line := by
  induction h with
  | done => exact fun _ => .nil
  | @next p cut after _ _ hcut ih =>
      intro line
      rw [errorsFrom, List.pairwise_append]
      refine ⟨?_, ih _, ?_⟩
      · cases p.diagnostic? line with
        | none => exact .nil
        | some d => exact List.pairwise_singleton _ d
      · -- a stray is reported on the first line of its piece, an open string
        -- on the last, and the others from that last line on
        intro d hd e he
        rw [Option.mem_toList] at hd
        have hrest := line_of_mem_errorsFrom hcut _ e he
        rcases Piece.eq_of_diagnostic? hd with ⟨-, -, hline⟩ | ⟨-, -, hline⟩
        all_goals omega

namespace Cursor

variable {source : String} {c : Cursor}

-- ================================================ the lines of the cursor

/-- The line of a cursor is the line of its offset. The count that the cursor
keeps is nothing that could go wrong by itself. -/
theorem Ready.line_eq (h : c.Ready source) :
    c.line = lineAt source c.current := by
  obtain ⟨before, after, hstands, hline⟩ := h.stands
  rw [hstands.2, lineAt_width hstands.1, hline]

/-- What a turn from one cursor to another takes note of, and where: all on the
line of the offset where it begins, but for an open string. -/
structure Places (source : String) (c d : Cursor) : Prop where
  tokens : ∃ found, d.tokens = c.tokens ++ found
    ∧ ∀ t ∈ found, t.line = lineAt source c.current
  errors : ∃ found, d.errors = c.errors ++ found
    ∧ ∀ e ∈ found,
        (∃ char, e.fault = .unexpectedCharacter char
          ∧ e.line = lineAt source c.current)
          ∨ (e.fault = .unterminatedString ∧ e.line = endLine source)

/-- An open string ends on the last line, since it takes all that is left. -/
private theorem endLine_of_openString {before rest : List Char} {x : Char}
    (h : c.Stands source before (x :: rest))
    (hrule : (leadingPiece x rest).rule = .openString) :
    endLine source
      = 1 + before.count '\n' + (leadingPiece x rest).newlines := by
  have hfits := fits_leadingPiece x rest
  rw [hrule] at hfits
  have htext := leadingPiece_append x rest
  rw [hfits.of_openString, List.append_nil] at htext
  rw [endLine, h.1, List.count_append, Piece.newlines, htext, Nat.add_assoc]

/-- A turn that takes the piece ahead places what it finds as it should. -/
theorem places_past {before rest : List Char} {x : Char}
    (h : c.Stands source before (x :: rest))
    (hline : c.line = 1 + before.count '\n') :
    Places source c (c.past (leadingPiece x rest)) := by
  have hat : c.line = lineAt source c.current := by
    rw [h.2, lineAt_width h.1, hline]
  constructor
  · refine ⟨_, rfl, ?_⟩
    intro t ht
    rw [Option.mem_toList] at ht
    rw [(Piece.eq_of_token? ht).2, hat]
  · refine ⟨_, rfl, ?_⟩
    intro e he
    rw [Option.mem_toList] at he
    rcases Piece.eq_of_diagnostic? he with ⟨-, ⟨y, -, hfault⟩, hplace⟩ |
      ⟨hrule, hfault, hplace⟩
    · exact Or.inl ⟨y, hfault, hplace.trans hat⟩
    · refine Or.inr ⟨hfault, ?_⟩
      rw [hplace, hline, endLine_of_openString h hrule]

/-- Every token and every unexpected character is placed on the line of the
offset where its turn begins; an open string and the end of the input are
placed on the last line. No line end is missed or counted twice, the lines
never go back, and there are not more of them than bytes, and one. -/
theorem line_attribution (source : String) :
    (∀ c, Reaches source c →
        c.line = lineAt source c.current ∧ c.line ≤ 1 + source.utf8ByteSize
          ∧ (c.current < source.utf8ByteSize →
              ∃ d, c.next source = some d ∧ Places source c d))
      ∧ initial.run source = some (scan source)
      ∧ (∃ found, (scan source).tokens = found ++ [.eof (endLine source)])
      ∧ (scan source).tokens.Pairwise (fun s t => s.line ≤ t.line)
      ∧ (scan source).errors.Pairwise (fun d e => d.line ≤ e.line) := by
  have hcut := cut_pieces source.toList
  refine ⟨?_, run_eq_scan source, ?_, ?_, ?_⟩
  · intro c h
    have hready := ready_of_reaches h
    refine ⟨hready.line_eq, ?_, ?_⟩
    · rw [hready.line_eq]
      exact lineAt_le source c.current
    · intro hmore
      obtain ⟨_, x, rest, hahead, hline, hnext, -⟩ := hready.next hmore
      exact ⟨_, hnext, places_past hahead hline⟩
  · rw [scan_eq]
    exact ⟨_, rfl⟩
  · rw [scan_eq]
    refine List.pairwise_append.2
      ⟨pairwise_tokensFrom hcut 1, List.pairwise_singleton _ _, ?_⟩
    intro s hs t ht
    rw [List.mem_singleton] at ht
    subst ht
    exact (line_of_mem_tokensFrom hcut 1 s hs).2
  · rw [scan_eq]
    exact pairwise_errorsFrom hcut 1

end Cursor

end LoxLexer
