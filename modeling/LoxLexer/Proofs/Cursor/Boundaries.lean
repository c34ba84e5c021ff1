/-
The cursor never leaves the boundaries of characters. It is between two
characters whenever a turn begins, every turn takes it further and not beyond
the end, and every part that it asks the source for is there
(`cursor_on_boundaries`).

# The three parts

A turn asks for three kinds of parts. The text of a token goes from where the
turn began to where it ended; the value of a string lacks one byte on either
side; and a stray is looked up in all that is left of the source. That each is
there is what `Sliceable` says of its offsets (`slice?_isSome_iff`). What is
left of the source is not empty, so a stray is never replaced by the stand-in
for a character that cannot be found.
-/
import LoxLexer.Proofs.Cursor.Simulation

namespace LoxLexer

/-- Whether there is a part of a source from one offset to another: both are
boundaries, and in order. To cut anywhere else is refused, and a source with a
character of two bytes has offsets where it would be. -/
def Sliceable (source : String) (start stop : Nat) : Prop :=
  IsBoundary source start ∧ IsBoundary source stop ∧ start ≤ stop

theorem sliceable_of_slice? {source part : String} {start stop : Nat}
    (h : slice? source start stop = some part) :
      Sliceable source start stop := by
  apply slice?_isSome_iff.1
  rw [h]
  rfl

namespace Cursor

/-- What a turn that goes from one cursor to another keeps to. A turn finds at
most one token or one fault; the clauses about parts say of each that the
source was asked for nothing but parts that are there. -/
structure Turn (source : String) (c d : Cursor) : Prop where
  start : d.start = c.current
  advances : c.current < d.current
  within : d.current ≤ source.utf8ByteSize
  /-- The text of a token can be cut out, also while its value is read. -/
  text : Sliceable source d.start d.current
  lexeme : ∀ t, d.tokens = c.tokens ++ [t] →
    slice? source d.start d.current = some t.lexeme
  /-- The value of a string can be cut out from between its quotes. -/
  value : ∀ t, d.tokens = c.tokens ++ [t] → t.kind = .string →
    Sliceable source (d.start + 1) (d.current - 1)
      ∧ t.literal = (slice? source (d.start + 1) (d.current - 1)).map .text
  /-- What is left can be cut out, and begins with what is reported. -/
  stray :
    ∀ char line, d.errors = c.errors ++ [⟨.unexpectedCharacter char, line⟩] →
    Sliceable source d.start source.utf8ByteSize
      ∧ (∃ rest, slice? source d.start source.utf8ByteSize = some rest
        ∧ rest.toList.head? = some char)
      ∧ d.current = d.start + char.utf8Size

-- ==================================================== what was taken note of

variable {source : String} {c : Cursor} {p : Piece}

/-- The one token that a turn adds is the token of its piece. -/
private theorem token?_of_past {t : Token}
    (h : (c.past p).tokens = c.tokens ++ [t]) :
    p.token? c.line = some t := by
  have hlist := List.append_cancel_left h
  cases ht : p.token? c.line with
  | none =>
      rw [ht] at hlist
      cases hlist
  | some s =>
      rw [ht] at hlist
      rw [(List.cons.inj hlist).1]

/-- So is the one diagnostic that it adds. -/
private theorem diagnostic?_of_past {e : Diagnostic}
    (h : (c.past p).errors = c.errors ++ [e]) :
      p.diagnostic? c.line = some e := by
  have hlist := List.append_cancel_left h
  cases he : p.diagnostic? c.line with
  | none =>
      rw [he] at hlist
      cases hlist
  | some s =>
      rw [he] at hlist
      rw [(List.cons.inj hlist).1]

-- ============================================================ the turn

/-- A turn that takes the piece ahead keeps to the boundaries. What it asks for
is given by what it finds: the token and its kind say whether a string was cut
out, and the diagnostic whether a character was looked up. -/
theorem turn_past {before rest : List Char} {x : Char}
    (h : c.Stands source before (x :: rest)) :
    Turn source c (c.past (leadingPiece x rest)) := by
  have hfits := fits_leadingPiece x rest
  have hpos : 0 < width (leadingPiece x rest).text :=
    width_pos (List.cons_ne_nil _ _)
  have hsplit := h
  rw [← leadingPiece_append] at hsplit
  have hcurrent : (c.past (leadingPiece x rest)).current
      = width before + width (leadingPiece x rest).text := by
    rw [← h.2]
    rfl
  have hslice := slice?_width hsplit.1
  rw [← hcurrent, ← h.2] at hslice
  refine ⟨rfl, ?_, ?_, sliceable_of_slice? hslice, ?_, ?_, ?_⟩
  · rw [hcurrent, h.2]
    omega
  · exact (sliceable_of_slice? hslice).2.1.le
  · intro t ht
    rw [(Piece.eq_of_token? (token?_of_past ht)).1]
    exact hslice
  · -- only a closed string gives a token of this kind
    intro t ht hkind
    obtain ⟨hrule, hliteral⟩ :=
      Piece.eq_of_token?_string (token?_of_past ht) hkind
    have hinside := slice?_inside hsplit.1 hfits hrule
    rw [← hcurrent, ← h.2] at hinside
    refine ⟨sliceable_of_slice? hinside, ?_⟩
    show t.literal = (slice? source (c.current + 1) _).map .text
    rw [hliteral, hinside]
    rfl
  · intro char line hstray
    rcases Piece.eq_of_diagnostic? (diagnostic?_of_past hstray) with
      ⟨hrule, ⟨y, hy, hfault⟩, -⟩ | ⟨-, hfault, -⟩
    case inr => cases hfault
    case inl =>
      cases hfault
      cases hy
      -- a stray is one character, and the turn ends behind its last byte
      have htext : (leadingPiece x rest).text = [x] := by
        rw [hrule] at hfits
        obtain ⟨y, hy, -⟩ := hfits.of_stray
        rw [hy, (List.cons.inj hy).1]
      refine ⟨sliceable_of_slice? h.slice?_left, ⟨_, h.slice?_left, ?_⟩, ?_⟩
      · rw [String.toList_ofList]
        rfl
      · rw [hcurrent, htext, width_cons, width_nil, Nat.add_zero, ← h.2]
        rfl

/-- The cursor is on boundaries whenever a turn begins; every turn goes on
from there, and further; and the loop ends, with the scan. -/
theorem cursor_on_boundaries (source : String) :
    (∀ c, Reaches source c →
        IsBoundary source c.start ∧ IsBoundary source c.current
          ∧ c.current ≤ source.utf8ByteSize
          ∧ (c.current < source.utf8ByteSize →
              ∃ d, c.next source = some d ∧ Turn source c d))
      ∧ initial.run source = some (scan source) := by
  refine ⟨?_, run_eq_scan source⟩
  intro c h
  have hready := ready_of_reaches h
  obtain ⟨before, after, hstands, -⟩ := hready.stands
  have hcurrent : IsBoundary source c.current :=
    isBoundary_iff.2 ⟨before, after, hstands.1, hstands.2⟩
  refine ⟨hready.start, hcurrent, hcurrent.le, ?_⟩
  intro hmore
  obtain ⟨_, x, rest, hahead, -, hnext, -⟩ := hready.next hmore
  exact ⟨_, hnext, turn_past hahead⟩

end Cursor

end LoxLexer
