/-
Closing an open string. A source that ends in an open string is read, up to
the quote that opens it, as it would be read with anything behind that quote
(`Cut.exists_open`): a piece that stops in front of a quote does not look
behind it. So when a second quote closes the string, nothing of what was found
before changes, the string becomes a token on the line where it opens, and its
fault is gone; and what stands behind the second quote is read as from its
start, on later lines (`scan_closed`).
-/
import LoxLexer.Proofs.Lexeme.Basic

namespace LoxLexer

-- ================================================== in front of a quote

/-- What stops in front of a quote, or in front of a text with a quote behind
it, does not look behind the quote. At most two characters are looked at, and
if the quote is the first of them it is not a point, so the second does not
count. -/
theorem Longest.of_quote {rule : Rule} {text after inside : List Char}
    (h : Longest rule text (after ++ '"' :: inside)) (rest : List Char) :
    Longest rule text (after ++ '"' :: rest) := by
  have hopen : rule ≠ .openString := by
    rintro rfl
    exact absurd h.1.of_openString (by simp)
  have hhead : ∀ before : List Char,
      (before ++ '"' :: rest).head? = (before ++ '"' :: inside).head? := by
    intro before
    rw [List.head?_append, List.head?_append]
    rfl
  by_cases hcomment : rule = .comment
  · apply (h.1.of_after hopen _).longest_of_stops
    have hstops := h.stops
    rw [hcomment] at hstops ⊢
    intro c hc
    rw [hhead] at hc
    exact hstops c hc
  · refine h.of_quieter hcomment hopen (.of_head? (hhead after)) ?_
    -- a point in front of the quote, and behind the point again the same
    intro behind behind' hafter hrest
    cases after with
    | nil => exact absurd (List.cons.inj hafter).1 (by decide)
    | cons c after =>
        obtain ⟨-, rfl⟩ := List.cons.inj hafter
        obtain ⟨-, rfl⟩ := List.cons.inj hrest
        exact .of_head? (hhead after)

/-- An open string is the last piece of a text, and the pieces in front of it
stay in front whatever else stands behind its quote. So the text in front can
be read by itself, both when the string is open and when it is closed. -/
theorem Cut.exists_open {cut : List Piece} {text : List Char} (h : Cut cut text)
    {p : Piece} (hp : p ∈ cut) (hrule : p.rule = .openString) :
    ∃ (front : List Piece) (inside : List Char),
      cut = front ++ [⟨.openString, '"' :: inside⟩]
        ∧ text = front.flatMap Piece.text ++ '"' :: inside
        ∧ (∀ c ∈ inside, c ≠ '"')
        ∧ ∀ rest, pieces (front.flatMap Piece.text ++ '"' :: rest)
            = front ++ pieces ('"' :: rest) := by
  induction h with
  | done => exact absurd hp List.not_mem_nil
  | @next q cut after hne hlong hcut ih =>
      by_cases hopen : q.rule = .openString
      · obtain ⟨rule, text⟩ := q
        dsimp only at hopen
        subst hopen
        have hfits := hlong.1
        obtain rfl := hfits.of_openString
        obtain rfl := hcut.eq_nil
        cases hfits with
        | regular hregular =>
            cases hregular with
            | @openString inside hin =>
                refine ⟨[], inside, rfl, ?_, hin, fun _ => rfl⟩
                rw [List.append_nil]
                rfl
      · have hmem : p ∈ cut := by
          rcases List.mem_cons.1 hp with rfl | hp
          · exact absurd hrule hopen
          · exact hp
        obtain ⟨front, inside, rfl, rfl, hin, hrest⟩ := ih hmem
        refine ⟨q :: front, inside, rfl, ?_, hin, fun rest => ?_⟩
        · rw [List.flatMap_cons, List.append_assoc]
        · rw [List.flatMap_cons, List.append_assoc,
            pieces_append hne (hlong.of_quote rest), hrest, List.cons_append]

-- ================================================= behind what is in front

/-- Pieces behind others give their tokens on the lines behind these. -/
theorem tokensFrom_append (front cut : List Piece) : ∀ line,
    tokensFrom line (front ++ cut)
      = tokensFrom line front
        ++ tokensFrom (line + (front.flatMap Piece.text).count '\n') cut := by
  induction front with
  | nil => exact fun _ => rfl
  | cons p front ih =>
      intro line
      rw [List.cons_append, tokensFrom, tokensFrom, ih, List.flatMap_cons,
        List.count_append, List.append_assoc, Piece.newlines, Nat.add_assoc]

/-- And their diagnostics too. -/
theorem errorsFrom_append (front cut : List Piece) : ∀ line,
    errorsFrom line (front ++ cut)
      = errorsFrom line front
        ++ errorsFrom (line + (front.flatMap Piece.text).count '\n') cut := by
  induction front with
  | nil => exact fun _ => rfl
  | cons p front ih =>
      intro line
      rw [List.cons_append, errorsFrom, errorsFrom, ih, List.flatMap_cons,
        List.count_append, List.append_assoc, Piece.newlines, Nat.add_assoc]

/-- Where the pieces of a text begin with some pieces, these give what they
give, and the rest is read from the line behind them. It is not so of every
text that is put together: the last piece could go on into the rest. -/
theorem scanFrom_of_pieces {front : List Piece} {rest : List Char}
    (h : pieces (front.flatMap Piece.text ++ rest) = front ++ pieces rest)
    (line : Nat) :
    scanFrom line (front.flatMap Piece.text ++ rest)
      = { tokens := tokensFrom line front
            ++ (scanFrom (line + (front.flatMap Piece.text).count '\n') rest).tokens
          errors := errorsFrom line front
            ++ (scanFrom (line + (front.flatMap Piece.text).count '\n') rest).errors } := by
  unfold scanFrom
  rw [h, tokensFrom_append, errorsFrom_append, List.count_append,
    List.append_assoc, Nat.add_assoc]

section Opened

variable {front : List Piece} {inside : List Char}

/-- An open string gives only its fault, on the line where the text ends. -/
theorem scanFrom_opened (hin : ∀ c ∈ inside, c ≠ '"')
    (hrest : ∀ rest, pieces (front.flatMap Piece.text ++ '"' :: rest)
      = front ++ pieces ('"' :: rest)) (line : Nat) :
    scanFrom line (front.flatMap Piece.text ++ '"' :: inside)
      = { tokens := tokensFrom line front
            ++ [.eof (line + (front.flatMap Piece.text ++ '"' :: inside).count '\n')]
          errors := errorsFrom line front
            ++ [⟨.unterminatedString,
                line + (front.flatMap Piece.text ++ '"' :: inside).count '\n'⟩] } := by
  have hfits : Fits .openString ('"' :: inside) [] := .regular (.openString hin)
  have hopen := scanFrom_append (p := ⟨.openString, '"' :: inside⟩)
    (List.cons_ne_nil _ _) (hfits.longest_of_stops rfl)
  simp only [List.append_nil, scanFrom_nil] at hopen
  rw [scanFrom_of_pieces (hrest inside), hopen, List.count_append, ← Nat.add_assoc]
  rfl

/-- Closed by another quote it gives its token, on the line where it opens, and
what stands behind it is read from the line where it ends. -/
theorem scanFrom_closed (hin : ∀ c ∈ inside, c ≠ '"')
    (hrest : ∀ rest, pieces (front.flatMap Piece.text ++ '"' :: rest)
      = front ++ pieces ('"' :: rest)) (line : Nat) (second : List Char) :
    scanFrom line ((front.flatMap Piece.text ++ '"' :: inside) ++ '"' :: second)
      = { tokens := tokensFrom line front
            ++ ⟨.string, String.ofList ('"' :: (inside ++ ['"'])),
                some (.text (String.ofList inside)),
                line + (front.flatMap Piece.text).count '\n'⟩
              :: (scanFrom (line + (front.flatMap Piece.text
                    ++ '"' :: inside).count '\n') second).tokens
          errors := errorsFrom line front
            ++ (scanFrom (line + (front.flatMap Piece.text
                  ++ '"' :: inside).count '\n') second).errors } := by
  have hstring := (Lexeme.string inside hin).scanFrom_text
    (show Stops .string _ second from trivial)
  have htext : (Lexeme.string inside hin).text ++ second
      = '"' :: (inside ++ '"' :: second) := by
    simp [Lexeme.text]
  have hcount : (Lexeme.string inside hin).text.count '\n'
      = ('"' :: inside).count '\n' := by
    simp [Lexeme.text]
  simp only [htext, hcount] at hstring
  rw [List.append_assoc, List.cons_append, scanFrom_of_pieces (hrest _), hstring,
    List.count_append, ← Nat.add_assoc]
  rfl

end Opened

-- ============================================================== the sources

/-- What is reported as unterminated is an open string: this is how the open
string is found, when only the diagnostics are known. -/
theorem exists_openString_of_error {d : Diagnostic}
    (hfault : d.fault = .unterminatedString) {cut : List Piece} :
    ∀ line, d ∈ errorsFrom line cut → ∃ p ∈ cut, p.rule = .openString := by
  induction cut with
  | nil => exact fun _ hd => absurd hd List.not_mem_nil
  | cons p cut ih =>
      intro line hd
      rcases List.mem_append.1 hd with hd | hd
      · rcases Piece.eq_of_diagnostic? (Option.mem_toList.1 hd) with
          ⟨-, ⟨c, -, hstray⟩, -⟩ | ⟨hrule, -, -⟩
        · rw [hfault] at hstray
          cases hstray
        · exact ⟨p, List.mem_cons_self, hrule⟩
      · obtain ⟨q, hq, hrule⟩ := ih _ hd
        exact ⟨q, List.mem_cons_of_mem p hq, hrule⟩

/-- The last piece is placed behind all the others. -/
theorem getLast?_place (front : List Piece) (p : Piece) : ∀ offset line,
    (place offset line (front ++ [p])).getLast?
      = some (Segment.covering p.rule
          (offset + width (front.flatMap Piece.text))
          (line + (front.flatMap Piece.text).count '\n') (encode p.text)) := by
  induction front with
  | nil => exact fun _ _ => rfl
  | cons q front ih =>
      intro offset line
      rw [List.cons_append, place, List.getLast?_cons, ih, Option.getD_some,
        List.flatMap_cons, width_append, List.count_append, Piece.newlines,
        Nat.add_assoc, Nat.add_assoc]

/-- The last segment of a source is its last piece, and ends where the source
does. With an open string as the last piece it says where the string opens. -/
theorem getLast?_segments {source : String} {front : List Piece} {p : Piece}
    (h : pieces source.toList = front ++ [p]) :
    (segments source).getLast?
      = some ⟨p.rule, width (front.flatMap Piece.text), source.utf8ByteSize,
          1 + (front.flatMap Piece.text).count '\n',
          1 + source.toList.count '\n'⟩ := by
  have htext : front.flatMap Piece.text ++ p.text = source.toList := by
    rw [← (cut_pieces source.toList).flatMap_text, h, List.flatMap_append,
      List.flatMap_singleton]
  have hstop : 0 + width (front.flatMap Piece.text) + (encode p.text).length
      = source.utf8ByteSize := by
    rw [Nat.zero_add, ← width, ← width_append, htext, width_toList]
  have hend : 1 + (front.flatMap Piece.text).count '\n' + (encode p.text).count '\n'
      = 1 + source.toList.count '\n' := by
    rw [count_encode (by decide), ← htext, List.count_append, Nat.add_assoc]
  rw [segments_eq, h, getLast?_place, Segment.covering, hstop, hend, Nat.zero_add]

/-- A source with an open string, which is its last segment, and behind it a
quote and another source. The string is closed: its fault, the last one of the
first source, is gone, and its token stands on the line where the string opens,
behind the tokens in front of it. All that the second source gives follows, as
many lines further down as the first source has line ends. -/
theorem scan_closed (first second : String) {d : Diagnostic}
    (hd : d ∈ (scan first).errors) (hfault : d.fault = .unterminatedString) :
    ∃ before inside : String,
      first = before ++ "\"" ++ inside
        ∧ (segments first).getLast?
          = some ⟨.openString, before.utf8ByteSize, first.utf8ByteSize,
              1 + before.toList.count '\n', 1 + first.toList.count '\n'⟩
        ∧ (scan first).errors.getLast?
          = some ⟨.unterminatedString, 1 + first.toList.count '\n'⟩
        ∧ (scan (first ++ "\"" ++ second)).errors
          = (scan first).errors.dropLast
            ++ (scan second).errors.map
                (Diagnostic.later (first.toList.count '\n'))
        ∧ (scan (first ++ "\"" ++ second)).tokens
          = (scan first).tokens.dropLast
            ++ ⟨.string, "\"" ++ inside ++ "\"", some (.text inside),
                1 + before.toList.count '\n'⟩
              :: (scan second).tokens.map
                  (Token.later (first.toList.count '\n')) := by
  rw [scan_eq] at hd
  -- the pieces in front, the same whether the string is open or closed
  obtain ⟨p, hp, hrule⟩ := exists_openString_of_error hfault 1 hd
  obtain ⟨front, inside, hcut, htext, hin, hrest⟩ :=
    (cut_pieces first.toList).exists_open hp hrule
  have hopened := scanFrom_opened hin hrest 1
  have hclosed := scanFrom_closed hin hrest 1 second.toList
  have hjoined : first.toList ++ '"' :: second.toList
      = (first ++ "\"" ++ second).toList := by
    simp
  rw [← htext, ← scan_eq_scanFrom] at hopened
  rw [← htext, hjoined, ← scan_eq_scanFrom, scanFrom_later, ← scan_eq_scanFrom]
    at hclosed
  refine ⟨String.ofList (front.flatMap Piece.text), String.ofList inside,
    ?_, ?_, ?_, ?_, ?_⟩
  · apply String.toList_injective
    simp [htext]
  · rw [getLast?_segments hcut, ← width_toList (String.ofList _),
      String.toList_ofList]
  · rw [hopened, List.getLast?_concat]
  · rw [hclosed, hopened, List.dropLast_concat]
    rfl
  · have hlexeme : String.ofList ('"' :: (inside ++ ['"']))
        = "\"" ++ String.ofList inside ++ "\"" := by
      apply String.toList_injective
      simp
    rw [hclosed, hopened, List.dropLast_concat, hlexeme, String.toList_ofList]
    rfl

/-- Behind a string over two lines, an unexpected character and a comment, an
open string that the first quote of the second source would have closed. -/
theorem scan_closed_comment :
    ⟨.unterminatedString, 3⟩ ∈ (scan "\"a\nb\"#1.//\"\n\"c").errors
      ∧ ∃ before inside : String,
        "\"a\nb\"#1.//\"\n\"c" = before ++ "\"" ++ inside
          ∧ (segments "\"a\nb\"#1.//\"\n\"c").getLast?
            = some ⟨.openString, before.utf8ByteSize, 14,
                1 + before.toList.count '\n', 3⟩
          ∧ (scan "\"a\nb\"#1.//\"\n\"c").errors.getLast?
            = some ⟨.unterminatedString, 3⟩
          ∧ (scan "\"a\nb\"#1.//\"\n\"c\"\"é\n").errors
            = (scan "\"a\nb\"#1.//\"\n\"c").errors.dropLast
              ++ (scan "\"é\n").errors.map (Diagnostic.later 2)
          ∧ (scan "\"a\nb\"#1.//\"\n\"c\"\"é\n").tokens
            = (scan "\"a\nb\"#1.//\"\n\"c").tokens.dropLast
              ++ ⟨.string, "\"" ++ inside ++ "\"", some (.text inside),
                  1 + before.toList.count '\n'⟩
                :: (scan "\"é\n").tokens.map (Token.later 2) := by
  have hd : ⟨.unterminatedString, 3⟩ ∈ (scan "\"a\nb\"#1.//\"\n\"c").errors := by
    decide +kernel
  obtain ⟨before, inside, hclosed⟩ :=
    scan_closed "\"a\nb\"#1.//\"\n\"c" "\"é\n" hd rfl
  exact ⟨hd, before, inside, hclosed⟩

end LoxLexer
