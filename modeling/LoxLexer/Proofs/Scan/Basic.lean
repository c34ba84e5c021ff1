/-
The scan of a text as an operation that goes piece by piece. A text may start
on any line (`scanFrom`), and the scan of a source is that of its characters
from the first line on. What a piece gives comes in front of what the rest of
the text gives (`scanFrom_append`), and that is the only equation of the
scan that the laws about texts made of parts need.

# What is changed piece by piece

Where each piece of one text gives what a piece of another gives, with some
change to it, so does the text (`Piece.before_map`). A text on later lines and
a text that is rewritten in its strings are of this kind.

# What is passed over

Comments, blanks and line ends give nothing, so a text of these only moves
the line of what follows (`scanFrom_spacing`). And the line a text starts on
is nothing but a number to be added (`scanFrom_later`).

# Segments as pieces

The segments of a source, read back as pieces, are the pieces of its
characters (`map_piece_segments`): what is said of the one can be said of the
other.
-/
import LoxLexer.Proofs.Segment.Stops
import LoxLexer.Proofs.Segment.Placement

namespace LoxLexer

-- ================================================= scans from any line

/-- What a text gives that starts on a line. The end of the input is part of
it, so this is a scan and not a part of one. -/
def scanFrom (line : Nat) (text : List Char) : Scan where
  tokens := tokensFrom line (pieces text) ++ [.eof (line + text.count '\n')]
  errors := errorsFrom line (pieces text)

theorem scan_eq_scanFrom (source : String) :
    scan source = scanFrom 1 source.toList := scan_eq source

/-- A scan, and in front of it what a piece on a line gives. A text is scanned
by its first piece and the rest, and this puts the two together. -/
def Piece.before (line : Nat) (p : Piece) (s : Scan) : Scan where
  tokens := (p.token? line).toList ++ s.tokens
  errors := (p.diagnostic? line).toList ++ s.errors

/-- A scan with its tokens and its diagnostics changed. -/
def Scan.map (onToken : Token → Token) (onError : Diagnostic → Diagnostic)
    (s : Scan) : Scan where
  tokens := s.tokens.map onToken
  errors := s.errors.map onError

/-- Where what one piece gives is changed to what another gives, the scan with
the one in front is changed to the scan with the other in front. -/
theorem Piece.before_map {p q : Piece} {line start : Nat}
    {onToken : Token → Token} {onError : Diagnostic → Diagnostic}
    (htoken : q.token? start = (p.token? line).map onToken)
    (herror : q.diagnostic? start = (p.diagnostic? line).map onError) (s : Scan) :
    q.before start (s.map onToken onError)
      = (p.before line s).map onToken onError := by
  unfold Piece.before Scan.map
  rw [htoken, herror, Option.toList_map, Option.toList_map, List.map_append,
    List.map_append]

theorem scanFrom_nil (line : Nat) :
    scanFrom line [] = { tokens := [.eof line], errors := [] } := by
  rw [scanFrom, pieces]
  rfl

/-- There is always the end of the input. -/
theorem scanFrom_tokens_ne_nil (line : Nat) (text : List Char) :
    (scanFrom line text).tokens ≠ [] :=
  List.append_ne_nil_of_right_ne_nil _ (List.cons_ne_nil _ _)

/-- The longest beginning of a text gives its part, and the rest goes on
behind it. What the rest gives depends on the line it starts on and on nothing
else that came before. -/
theorem scanFrom_append {p : Piece} {after : List Char} (hne : p.text ≠ [])
    (hlong : Longest p.rule p.text after) (line : Nat) :
    scanFrom line (p.text ++ after)
      = p.before line (scanFrom (line + p.newlines) after) := by
  have hend : line + (p.text ++ after).count '\n'
      = line + p.newlines + after.count '\n' := by
    rw [List.count_append, Piece.newlines, Nat.add_assoc]
  unfold scanFrom Piece.before
  rw [pieces_append hne hlong, tokensFrom, errorsFrom, hend, List.append_assoc]

-- ========================================================= what is silent

/-- Comments, blanks and line ends give nothing. -/
theorem Piece.before_of_silent {p : Piece}
    (h : p.rule = .comment ∨ p.rule = .blank ∨ p.rule = .newline) (line : Nat)
    (s : Scan) : p.before line s = s := by
  obtain ⟨rule, text⟩ := p
  rcases h with h | h | h
  all_goals
    dsimp only at h
    subst h
    rfl

/-- A comment at the end of a line, or of the text, is passed over. It does not
move the line either, as it stops in front of the line end. -/
theorem scanFrom_comment {inside after : List Char}
    (hin : ∀ c ∈ inside, c ≠ '\n')
    (hend : ∀ c, after.head? = some c → c = '\n') (line : Nat) :
    scanFrom line ('/' :: '/' :: (inside ++ after)) = scanFrom line after := by
  have hfits : Fits .comment ('/' :: '/' :: inside) after :=
    .regular (.comment after hin)
  have hcount : Piece.newlines ⟨.comment, '/' :: '/' :: inside⟩ = 0 :=
    count_newline_of_fits hfits (by simp) (by simp) (by simp)
  have hscan := scanFrom_append (p := ⟨.comment, '/' :: '/' :: inside⟩)
    (List.cons_ne_nil _ _) (hfits.longest_of_stops hend) line
  rw [Piece.before_of_silent (Or.inl rfl), hcount] at hscan
  exact hscan

/-- A gap only counts for the lines: the line end for one, and the three blanks
for none. -/
theorem scanFrom_gap {c : Char} (hc : isGap c = true) (line : Nat)
    (after : List Char) :
    scanFrom line (c :: after) = scanFrom (line + [c].count '\n') after := by
  rcases eq_of_isGap hc with h | h | h | h
  case inr.inr.inr =>
    subst h
    have hfits : Fits .newline ['\n'] after := .regular (.newline after)
    have hscan := scanFrom_append (p := ⟨.newline, ['\n']⟩)
      (List.cons_ne_nil _ _) (hfits.longest_of_stops trivial) line
    rw [Piece.before_of_silent (Or.inr (Or.inr rfl))] at hscan
    exact hscan
  all_goals
    have hblank : c = ' ' ∨ c = '\t' ∨ c = '\r' := by simp [h]
    have hfits : Fits .blank [c] after := .regular (.blank after hblank)
    have hscan := scanFrom_append (p := ⟨.blank, [c]⟩)
      (List.cons_ne_nil _ _) (hfits.longest_of_stops trivial) line
    rw [Piece.before_of_silent (Or.inr (Or.inl rfl))] at hscan
    exact hscan

/-- Texts of blanks, line ends and comments that end with their line. A comment
without the line end is left out: what follows would become part of it. -/
inductive Spacing : List Char → Prop where
  | nil : Spacing []
  | gap {c : Char} {rest : List Char} (hc : isGap c = true)
      (h : Spacing rest) : Spacing (c :: rest)
  | comment {inside rest : List Char} (hin : ∀ c ∈ inside, c ≠ '\n')
      (h : Spacing rest) : Spacing ('/' :: '/' :: (inside ++ '\n' :: rest))

theorem spacing_of_gaps {text : List Char} (h : ∀ c ∈ text, isGap c = true) :
    Spacing text := by
  induction text with
  | nil => exact .nil
  | cons c rest ih =>
      exact .gap (h c List.mem_cons_self)
        (ih fun d hd => h d (List.mem_cons_of_mem c hd))

/-- Spacing is passed over, whatever follows, and only counts for the
lines. Nothing is asked of what follows, as spacing ends with a gap. -/
theorem scanFrom_spacing {space : List Char} (h : Spacing space)
    (after : List Char) : ∀ line,
    scanFrom line (space ++ after)
      = scanFrom (line + space.count '\n') after := by
  induction h with
  | nil => exact fun _ => rfl
  | @gap c rest hc _ ih =>
      intro line
      rw [List.cons_append, scanFrom_gap hc, ih, Nat.add_assoc,
        ← List.count_append, List.singleton_append]
  | @comment inside rest hin _ ih =>
      intro line
      -- one line end for the comment, and those of the rest
      have hcount : ('/' :: '/' :: (inside ++ '\n' :: rest)).count '\n'
          = ['\n'].count '\n' + rest.count '\n' := by
        rw [List.count_cons_of_ne (by decide), List.count_cons_of_ne (by decide),
          List.count_append, List.count_eq_zero.2 fun hmem => hin '\n' hmem rfl,
          Nat.zero_add, ← List.count_append]
        rfl
      have hline : ∀ c, ('\n' :: (rest ++ after)).head? = some c → c = '\n' := by
        intro c hhead
        cases hhead
        rfl
      rw [List.cons_append, List.cons_append, List.append_assoc,
        List.cons_append, scanFrom_comment hin hline, scanFrom_gap (by decide),
        ih, hcount, Nat.add_assoc]

-- ============================================================ later lines

/-- A token some lines further down. -/
def Token.later (lines : Nat) (t : Token) : Token :=
  { t with line := t.line + lines }

/-- A diagnostic some lines further down. -/
def Diagnostic.later (lines : Nat) (d : Diagnostic) : Diagnostic :=
  { d with line := d.line + lines }

/-- A scan some lines further down. -/
def Scan.later (lines : Nat) (s : Scan) : Scan where
  tokens := s.tokens.map (Token.later lines)
  errors := s.errors.map (Diagnostic.later lines)

/-- The line of a piece is only noted down: no rule, no text and no value
depends on it. -/
theorem Piece.before_later (p : Piece) (line lines : Nat) (s : Scan) :
    p.before (line + lines) (s.later lines) = (p.before line s).later lines := by
  have htoken : p.token? (line + lines)
      = (p.token? line).map (Token.later lines) := by
    unfold Piece.token?
    cases p.rule
    all_goals rfl
  have hdiagnostic : p.diagnostic? (line + lines)
      = (p.diagnostic? line).map (Diagnostic.later lines) := by
    unfold Piece.diagnostic?
    cases p.rule
    case stray =>
      cases p.text.head?
      all_goals rfl
    case openString =>
      rw [Nat.add_right_comm]
      rfl
    all_goals rfl
  exact Piece.before_map htoken hdiagnostic s

/-- The same text further down gives the same further down. Laws about two
texts that start on different lines come down to one line by this. -/
theorem scanFrom_later (text : List Char) (lines : Nat) : ∀ line,
    scanFrom (line + lines) text = (scanFrom line text).later lines := by
  induction text using text_induction with
  | nil =>
      intro line
      rw [scanFrom_nil, scanFrom_nil]
      rfl
  | append p after hne hlong ih =>
      intro line
      rw [scanFrom_append hne hlong, scanFrom_append hne hlong,
        Nat.add_right_comm, ih, Piece.before_later]

-- ======================================================= texts rewritten

/-- A value with its text rewritten; a number is kept. -/
def Literal.mapText (f : String → String) : Literal → Literal
  | .number x => .number x
  | .text s => .text (f s)

/-- A token with its lexeme and the text of its value rewritten. -/
def Token.mapText (f : String → String) (t : Token) : Token :=
  { t with lexeme := f t.lexeme, literal := t.literal.map (Literal.mapText f) }

/-- There is nothing to rewrite in the end of the input. -/
theorem Token.mapText_eof {f : String → String} (h : f "" = "") (line : Nat) :
    (Token.eof line).mapText f = .eof line := by
  unfold Token.mapText Token.eof
  rw [h]
  rfl

/-- Where the text of a piece is kept, and that of a string is rewritten
between its quotes, the token of the piece is rewritten. -/
theorem Piece.token?_mapText {f : String → String}
    {g : List Char → List Char}
    (hg : ∀ text, f (String.ofList text) = String.ofList (g text)) {p : Piece}
    (hkeep : p.rule ≠ .comment → p.rule ≠ .string → p.rule ≠ .openString →
      p.rule ≠ .stray → g p.text = p.text)
    (hinside : p.rule = .string → (g p.text).tail.dropLast = g p.inside)
    (line : Nat) :
    Piece.token? line ⟨p.rule, g p.text⟩
      = (p.token? line).map (Token.mapText f) := by
  obtain ⟨rule, text⟩ := p
  dsimp only at hkeep hinside ⊢
  cases rule with
  | string =>
      unfold Piece.token? Token.mapText
      simp only [Option.map_some, Literal.mapText, hg, ← hinside rfl]
      rfl
  | operator | number | word =>
      have htext := hkeep (by simp) (by simp) (by simp) (by simp)
      have hlexeme : f (String.ofList text) = String.ofList text := by
        rw [hg, htext]
      unfold Piece.token? Token.mapText
      simp only [Option.map_some, Option.map_map, htext, hlexeme]
      rfl
  | comment | blank | newline | openString | stray => rfl

-- =================================================== where tokens come from

/-- A token of some pieces is that of one of them, on some line. What is to be
shown of every token can so be shown of a text that its rule allows. -/
theorem exists_fits_of_mem_tokensFrom {cut : List Piece} {text : List Char}
    (h : Cut cut text) {t : Token} : ∀ line, t ∈ tokensFrom line cut →
      ∃ (p : Piece) (after : List Char) (start : Nat),
        Fits p.rule p.text after ∧ p.token? start = some t := by
  induction h with
  | done => exact fun _ ht => absurd ht List.not_mem_nil
  | @next p cut after _ hlong _ ih =>
      intro line ht
      rcases List.mem_append.1 ht with ht | ht
      · exact ⟨p, after, line, hlong.1, Option.mem_toList.1 ht⟩
      · exact ih _ ht

/-- A token of a source is the end of the input, or that of a piece. -/
theorem eof_or_exists_fits {source : String} {t : Token}
    (h : t ∈ (scan source).tokens) :
    (∃ line, t = .eof line)
      ∨ ∃ (p : Piece) (after : List Char) (start : Nat),
        Fits p.rule p.text after ∧ p.token? start = some t := by
  rw [scan_eq] at h
  rcases List.mem_append.1 h with h | h
  · exact Or.inr (exists_fits_of_mem_tokensFrom (cut_pieces _) 1 h)
  · exact Or.inl ⟨_, List.mem_singleton.1 h⟩

-- ====================================================== segments as pieces

/-- A segment of a source read back as a piece. -/
def Segment.piece (source : String) (g : Segment) : Piece where
  rule := g.rule
  text := (g.text source).toList

/-- Placed pieces are read back as they were: a segment keeps its rule, and its
offsets lead back to its text. -/
theorem map_piece_place {source : String} {cut : List Piece} {text : List Char}
    (hcut : Cut cut text) :
    ∀ (before : List Char) (line : Nat), source.toList = before ++ text →
      (place (width before) line cut).map (Segment.piece source) = cut := by
  induction hcut with
  | done => exact fun _ _ _ => rfl
  | @next p cut after _ _ _ ih =>
      intro before line h
      have hrest := ih (before ++ p.text) (line + p.newlines)
        (by rw [h, List.append_assoc])
      rw [width_append] at hrest
      rw [place, List.map_cons, hrest, Segment.piece, text_covering h,
        String.toList_ofList]
      rfl

/-- The segments of a source are the pieces of its characters. -/
theorem map_piece_segments (source : String) :
    (segments source).map (Segment.piece source) = pieces source.toList := by
  rw [segments_eq]
  exact map_piece_place (cut_pieces source.toList) [] 1 rfl

end LoxLexer
