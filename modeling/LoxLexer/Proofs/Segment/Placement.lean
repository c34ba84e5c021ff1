/-
From bytes to characters: the segments of a source, which are cut from its
bytes, are the pieces of its characters, each at the offset and on the line
that the pieces before it lead to (`segments_eq`). So the scan of a source is
what its pieces give (`scan_eq`), and no later proof looks at bytes again to
say what a scan finds.

# Why the bytes do not matter

The first byte of a character decides as the character does: an ASCII
character is its own byte, and a leading byte starts nothing, so both are
strays. Behind it only classes of ASCII characters are run through, and a
run of bytes in such a class is the encoding of the run of characters. A
stray takes its continuation bytes, which are just the rest of its character.
-/
import LoxLexer.Proofs.Text.Slice
import LoxLexer.Proofs.Segment.Pieces
import LoxLexer.Proofs.Number.Lexeme
import LoxLexer.Scan

namespace LoxLexer

-- ===================================================== ASCII classes

theorem ascii_of_isDigit {c : Char} (h : c.isDigit = true) : c.toNat < 128 := by
  have := range_of_isDigit h
  omega

theorem ascii_of_mem_spelling (o : Operator) :
    ∀ c ∈ o.spelling, c.toNat < 128 := by
  have hall : o.spelling.all (fun c => decide (c.toNat < 128)) = true := by
    cases o
    all_goals rfl
  intro c hc
  exact of_decide_eq_true (List.all_eq_true.1 hall c hc)

theorem ascii_of_isWordPart {c : Char} (h : isWordPart c = true) :
    c.toNat < 128 := by
  simp only [isWordPart, Char.isAlphanum, Bool.or_eq_true, beq_iff_eq] at h
  rcases h with (h | h) | rfl
  · have := range_of_isAlpha h
    omega
  · exact ascii_of_isDigit h
  · decide

/-- Everything that a text of the eight rules begins with is ASCII. A character
beyond it is therefore a stray wherever it is not inside a comment or a
string. -/
theorem ascii_of_starts {c : Char} (h : Starts c) : c.toNat < 128 := by
  cases starts_iff.1 h with
  | blank h =>
      rcases eq_of_isBlank h with rfl | rfl | rfl
      all_goals decide
  | newline h =>
      subst h
      decide
  | word h =>
      simp only [isWordStart, Bool.or_eq_true, beq_iff_eq] at h
      rcases h with h | rfl
      · have := range_of_isAlpha h
        omega
      · decide
  | number h => exact ascii_of_isDigit h
  | quote h =>
      subst h
      decide
  | @operator o h =>
      apply ascii_of_mem_spelling o c
      rw [Operator.ofSpelling?_eq_some_iff.1 h]
      exact List.mem_singleton_self c

theorem asciiClass_isDigit : AsciiClass Char.isDigit :=
  .of_ascii fun _ => ascii_of_isDigit

theorem asciiClass_isWordPart : AsciiClass isWordPart :=
  .of_ascii fun _ => ascii_of_isWordPart

/-- The bytes of an ASCII character in front of a text. -/
theorem encode_cons_of_ascii {c : Char} (h : c.toNat < 128) (text : List Char) :
    encode (c :: text) = c :: encode text := by
  rw [encode_cons, charOctets_of_ascii h]
  rfl

-- ================================================ one piece in bytes

/-- A run of digits is its own bytes. -/
private theorem encode_digits (rest : List Char) :
    encode (rest.takeWhile Char.isDigit) = rest.takeWhile Char.isDigit :=
  encode_of_ascii fun _ hc => ascii_of_isDigit (of_mem_takeWhile hc)

/-- Behind a digit the bytes are read as the characters are: digits and a point
are one byte each, and what ends the number ends it in bytes too. -/
theorem numberRest_encode (rest : List Char) :
    numberRest (encode rest) = numberRest rest := by
  have htake := takeWhile_encode asciiClass_isDigit rest
  have hdrop := dropWhile_encode asciiClass_isDigit rest
  rw [encode_digits] at htake
  by_cases hpoint : (rest.dropWhile Char.isDigit).head? = some '.'
  · obtain ⟨after, hafter⟩ := List.head?_eq_some_iff.1 hpoint
    rw [hafter, encode_cons_of_ascii (by decide)] at hdrop
    rw [numberRest_of_point hdrop, numberRest_of_point hafter, htake,
      takeWhile_encode asciiClass_isDigit, encode_digits]
  · have hbytes : ((encode rest).dropWhile Char.isDigit).head? ≠ some '.' := by
      rw [hdrop, Ne, head?_encode (by decide)]
      exact hpoint
    rw [numberRest_of_no_point hbytes, numberRest_of_no_point hpoint, htake]

/-- What a number takes is as many bytes as characters. -/
theorem width_take_numberRest (rest : List Char) :
    width (rest.take (numberRest rest)) = numberRest rest := by
  have hwhole : ∀ c ∈ rest.takeWhile Char.isDigit, c.toNat < 128 := fun c hc =>
    ascii_of_isDigit (of_mem_takeWhile hc)
  obtain ⟨hle, htake⟩ := take_numberRest rest
  have hascii : ∀ c ∈ rest.take (numberRest rest), c.toNat < 128 := by
    rcases htake with htake | ⟨next, places, htake, hdigits⟩
    · rw [htake]
      exact hwhole
    · intro c hc
      rw [htake] at hc
      rcases List.mem_append.1 hc with hc | hc
      · exact hwhole c hc
      · rcases List.mem_cons.1 hc with rfl | hc
        · decide
        · exact ascii_of_isDigit (hdigits c hc)
  rw [width, encode_of_ascii hascii, List.length_take_of_le hle]

/-- Behind a quote the bytes are read as the characters are. -/
private theorem leadingRule_quote_encode (rest : List Char) :
    leadingRule '"' (encode rest)
      = ((leadingRule '"' rest).1,
        width (rest.take (leadingRule '"' rest).2)) := by
  by_cases hquote : '"' ∈ rest
  · obtain ⟨inside, after, rfl, hnot⟩ := List.eq_append_cons_of_mem hquote
    have hin : ∀ c ∈ inside, c ≠ '"' := fun c hc heq => hnot (heq ▸ hc)
    have hbytes : ∀ b ∈ encode inside, b ≠ '"' := fun b hb heq =>
      hnot ((mem_encode (by decide) inside).1 (heq ▸ hb))
    rw [encode_append, encode_cons_of_ascii (by decide),
      leadingRule_string hbytes, leadingRule_string hin]
    rw [take_closing, width_append]
    rfl
  · have hin : ∀ c ∈ rest, c ≠ '"' := fun c hc heq => hquote (heq ▸ hc)
    have hbytes : ∀ b ∈ encode rest, b ≠ '"' := fun b hb heq =>
      hquote ((mem_encode (by decide) rest).1 (heq ▸ hb))
    rw [leadingRule_openString hbytes, leadingRule_openString hin,
      List.take_length]
    rfl

/-- Behind the first character of an operator the bytes are read as the
characters are. An operator is as many bytes as characters; a comment may be
more bytes, and the reader's two answers then differ in length. -/
private theorem leadingRule_operator_encode {c : Char} {o : Operator}
    (h : Operator.ofSpelling? [c] = some o) (rest : List Char) :
    leadingRule c (encode rest)
      = ((leadingRule c rest).1, width (rest.take (leadingRule c rest).2)) := by
  by_cases hslash : c = '/' ∧ rest.head? = some '/'
  · obtain ⟨rfl, hhead⟩ := hslash
    obtain ⟨after, rfl⟩ := List.head?_eq_some_iff.1 hhead
    rw [encode_cons_of_ascii (by decide), leadingRule_comment,
      leadingRule_comment, takeWhile_encode (.bne (by decide)),
      List.take_succ_cons, take_length_takeWhile,
      width_cons, Nat.add_comm]
    rfl
  · have hbytes : ¬ (c = '/' ∧ (encode rest).head? = some '/') := by
      rw [head?_encode (by decide)]
      exact hslash
    have hspelling : o.spelling ++ rest = c :: rest := by
      rw [Operator.ofSpelling?_eq_some_iff.1 h]
      rfl
    obtain ⟨p, hp, -⟩ := Operator.leading?_of_spelling hspelling
    -- the reader looks for an equals sign, and finds it in the bytes as well
    have hequal := head?_encode (a := '=') (by decide) rest
    have hp' : Operator.leading? c (encode rest) = some p := by
      rw [Operator.leading?_eq] at hp ⊢
      simpa only [hequal] using hp
    have htake := Operator.spelling_of_leading? hp
    have hwidth :
        width (rest.take (p.spelling.length - 1)) = p.spelling.length - 1 := by
      have hascii : ∀ d ∈ rest.take (p.spelling.length - 1), d.toNat < 128 := by
        intro d hd
        apply ascii_of_mem_spelling p d
        rw [← htake]
        exact List.mem_cons_of_mem c hd
      have hlen := congrArg List.length htake
      rw [List.length_cons] at hlen
      rw [width, encode_of_ascii hascii]
      omega
    rw [leadingRule_operator h hbytes hp', leadingRule_operator h hslash hp,
      hwidth]

/-- Behind an ASCII character the bytes are read as the characters are: the
same rule is taken, and over the bytes of the same characters. -/
private theorem leadingRule_encode {c : Char} (h : Starts c)
    (rest : List Char) :
    leadingRule c (encode rest)
      = ((leadingRule c rest).1, width (rest.take (leadingRule c rest).2)) := by
  cases starts_iff.1 h with
  | blank h =>
      rw [leadingRule_blank h, leadingRule_blank h]
      rfl
  | newline h =>
      subst h
      rfl
  | word h =>
      rw [leadingRule_word h, leadingRule_word h, take_length_takeWhile,
        takeWhile_encode asciiClass_isWordPart]
      rfl
  | number h =>
      rw [leadingRule_number h, leadingRule_number h, numberRest_encode,
        width_take_numberRest]
  | quote h =>
      subst h
      exact leadingRule_quote_encode rest
  | operator h => exact leadingRule_operator_encode h rest

/-- What starts a text of the eight rules is not taken for a stray. -/
theorem leadingRule_ne_stray {c : Char} (h : Starts c) (rest : List Char) :
    (leadingRule c rest).1 ≠ .stray := by
  intro hrule
  have hfits := (fits_leadingRule c rest).2
  rw [hrule] at hfits
  obtain ⟨d, htext, hnot⟩ := hfits.of_stray
  exact hnot ((List.cons.inj htext).1 ▸ h)

/-- A character that starts nothing has a first byte that starts nothing, and
behind that byte only bytes that continue the character. -/
theorem exists_lead_of_not_starts {c : Char} (h : ¬ Starts c) :
    ∃ lead bytes, charOctets c = lead :: bytes ∧ ¬ Starts lead
      ∧ ∀ b ∈ bytes, isContinuation b = true := by
  obtain ⟨lead, bytes, hlead, -, hbytes⟩ := charOctets_eq_cons c
  refine ⟨lead, bytes, hlead, ?_, hbytes⟩
  intro hstarts
  by_cases hc : c.toNat < 128
  · rw [charOctets_of_ascii hc, List.cons.injEq] at hlead
    exact h (hlead.1 ▸ hstarts)
  · have hwide := wide_of_mem_charOctets (c := c) (b := lead) (by omega)
      (by rw [hlead]; exact List.mem_cons_self)
    have := ascii_of_starts hstarts
    omega

/-- The first piece of a text, read from its bytes. -/
theorem extent_encode (c : Char) (rest : List Char) :
    ∃ first octets, encode (c :: rest) = first :: octets
      ∧ Segment.extent first octets
          = ((leadingRule c rest).1,
            width (c :: rest.take (leadingRule c rest).2) - 1) := by
  by_cases hstarts : Starts c
  · have hascii := ascii_of_starts hstarts
    refine ⟨c, encode rest, encode_cons_of_ascii hascii rest, ?_⟩
    unfold Segment.extent
    rw [leadingRule_encode hstarts, width_cons, utf8Size_of_ascii hascii,
      Nat.add_sub_cancel_left]
    split
    case h_1 heq =>
      exact absurd (congrArg Prod.fst heq) (leadingRule_ne_stray hstarts rest)
    case h_2 => rfl
  · obtain ⟨lead, bytes, hlead, hnot, hbytes⟩ :=
      exists_lead_of_not_starts hstarts
    refine ⟨lead, bytes ++ encode rest, by rw [encode_cons, hlead]; rfl, ?_⟩
    have hsize := length_charOctets c
    rw [hlead, List.length_cons] at hsize
    unfold Segment.extent
    rw [leadingRule_stray hnot, leadingRule_stray hstarts]
    dsimp only
    rw [List.takeWhile_append_of_pos hbytes, takeWhile_isContinuation,
      List.append_nil, List.take_zero, width_cons, width_nil, ← hsize]
    rfl

-- ====================================================== all of them

/-- Where the pieces of a text stand: the offsets count their bytes and the
lines their line ends. -/
def place (offset line : Nat) : List Piece → List Segment
  | [] => []
  | p :: cut =>
    Segment.covering p.rule offset line (encode p.text)
      :: place (offset + width p.text) (line + p.newlines) cut

theorem endLine_covering (p : Piece) (offset line : Nat) :
    (Segment.covering p.rule offset line (encode p.text)).endLine
      = line + p.newlines := by
  unfold Segment.covering Piece.newlines
  rw [count_encode (by decide)]

/-- Cutting the bytes of a text gives the pieces of its characters. The
induction is that of the pieces; of the bytes nothing is used but that the
first piece takes those of its own characters. -/
theorem ofOctets_encode (text : List Char) :
    ∀ offset line, Segment.ofOctets offset line (encode text)
      = place offset line (pieces text) := by
  induction text using pieces.induct with
  | case1 =>
      intro offset line
      rw [encode_nil, Segment.ofOctets, pieces]
      rfl
  | case2 c rest ih =>
      intro offset line
      obtain ⟨first, octets, hencode, hextent⟩ := extent_encode c rest
      -- the piece takes the bytes of its characters, and leaves the others
      have hsplit :
          first :: octets = encode (c :: rest.take (leadingRule c rest).2)
          ++ encode (rest.drop (leadingRule c rest).2) := by
        rw [← hencode, ← encode_append, List.cons_append, List.take_append_drop]
      have hpos : 0 < width (c :: rest.take (leadingRule c rest).2) :=
        width_pos (List.cons_ne_nil _ _)
      have htake : first :: octets.take (Segment.extent first octets).2
          = encode (c :: rest.take (leadingRule c rest).2) := by
        rw [← List.take_succ_cons, hsplit, hextent]
        exact List.take_left' (by rw [← width]; omega)
      have hdrop : octets.drop (Segment.extent first octets).2
          = encode (rest.drop (leadingRule c rest).2) := by
        rw [← List.drop_succ_cons (a := first), hsplit, hextent]
        exact List.drop_left' (by rw [← width]; omega)
      have hcount : (encode (c :: rest.take (leadingRule c rest).2)).count '\n'
          = (c :: rest.take (leadingRule c rest).2).count '\n' :=
        count_encode (by decide) _
      rw [hencode, Segment.ofOctets, pieces, htake, hdrop, ih, hextent, place]
      unfold Segment.covering leadingPiece
      dsimp only
      rw [hcount]
      rfl

/-- The segments of a source are the pieces of its characters, placed from
its start and the first line on. What a segment says of offsets is thereby
known from widths of texts. -/
theorem segments_eq (source : String) :
    segments source = place 0 1 (pieces source.toList) := by
  unfold segments
  rw [octets_eq_encode, ofOctets_encode]

-- ============================================== what the pieces give

section Given

variable {source : String} {p : Piece} {before after : List Char} {line : Nat}

/-- The part of the source that a placed piece covers is its text. It is there
to be cut out because the piece begins and ends between characters. -/
theorem text_covering (h : source.toList = before ++ (p.text ++ after)) :
    (Segment.covering p.rule (width before) line (encode p.text)).text source
      = String.ofList p.text := by
  show slice source (width before) (width before + width p.text) = _
  rw [slice, slice?_width h]
  rfl

/-- Between the quotes of a placed string stands its inside. A quote is one
byte, so one byte in from each end is still between characters. -/
theorem slice?_inside (h : source.toList = before ++ (p.text ++ after))
    (hfits : Fits p.rule p.text after) (hrule : p.rule = .string) :
    slice? source (width before + 1) (width before + width p.text - 1)
      = some (String.ofList p.inside) := by
  obtain ⟨rule, text⟩ := p
  dsimp only at h hfits hrule ⊢
  subst hrule
  cases hfits with
  | regular hregular =>
      cases hregular with
      | @string inside _ hin =>
          have hquote : width ['"'] = 1 := rfl
          have hsplit : source.toList
              = (before ++ ['"']) ++ (inside ++ ('"' :: after)) := by
            rw [h]
            simp only [List.cons_append, List.append_assoc, List.nil_append]
          have hslice := slice?_width hsplit
          rw [width_append, hquote] at hslice
          have hstop : width before + width ('"' :: (inside ++ ['"'])) - 1
              = width before + 1 + width inside := by
            have hsize : ('"').utf8Size = 1 := rfl
            rw [width_cons, width_append, hquote, hsize]
            omega
          have hinside :
              Piece.inside ⟨.string, '"' :: (inside ++ ['"'])⟩ = inside := by
            unfold Piece.inside
            rw [List.tail_cons, List.dropLast_concat]
          rw [hstop, hinside, hslice]

/-- A placed piece gives its token. Only a string and a number need more than
the text: the part between the quotes, and that the number can be read. -/
theorem token?_covering (h : source.toList = before ++ (p.text ++ after))
    (hfits : Fits p.rule p.text after) :
    (Segment.covering p.rule (width before) line (encode p.text)).token? source
      = p.token? line := by
  have htext :
      (Segment.covering p.rule (width before) line (encode p.text)).text source
      = String.ofList p.text := text_covering h
  unfold Segment.token? Piece.token?
  rw [htext]
  cases hrule : p.rule with
  | operator o => rfl
  | word => rfl
  | comment => rfl
  | blank => rfl
  | newline => rfl
  | openString => rfl
  | stray => rfl
  | string =>
      have hinside :
          slice source (width before + 1) (width before + width p.text - 1)
          = String.ofList p.inside := by
        rw [slice, slice?_inside h hfits hrule]
        rfl
      rw [← hinside]
      rfl
  | number =>
      rw [hrule] at htext hfits
      obtain ⟨x, hx⟩ := exists_ofText?_of_number hfits
      unfold Segment.literal?
      dsimp only [Segment.covering] at htext ⊢
      rw [htext, hx]
      rfl

/-- A placed piece gives its diagnostic. -/
theorem diagnostic?_covering (h : source.toList = before ++ (p.text ++ after))
    (hfits : Fits p.rule p.text after) :
    (Segment.covering p.rule (width before) line
      (encode p.text)).diagnostic? source
      = p.diagnostic? line := by
  have htext :
      (Segment.covering p.rule (width before) line (encode p.text)).text source
      = String.ofList p.text := text_covering h
  unfold Segment.diagnostic? Piece.diagnostic?
  rw [htext, endLine_covering]
  cases hrule : p.rule with
  | stray =>
      rw [hrule] at hfits
      obtain ⟨c, hc, -⟩ := hfits.of_stray
      rw [hc, String.toList_ofList]
      rfl
  | openString => rfl
  | operator o => rfl
  | word => rfl
  | comment => rfl
  | blank => rfl
  | newline => rfl
  | string => rfl
  | number => rfl

end Given

/-- What placed pieces give is what the pieces give. The induction carries the
part of the source that is already behind, whose width is the offset. -/
theorem filterMap_place {source : String} {cut : List Piece} {text : List Char}
    (hcut : Cut cut text) :
    ∀ (before : List Char) (line : Nat), source.toList = before ++ text →
      (place (width before) line cut).filterMap (Segment.token? source)
          = tokensFrom line cut
        ∧ (place (width before) line cut).filterMap (Segment.diagnostic? source)
          = errorsFrom line cut := by
  induction hcut with
  | done => exact fun _ _ _ => ⟨rfl, rfl⟩
  | @next p cut after hne hlong hcut ih =>
      intro before line h
      obtain ⟨htokens, herrors⟩ := ih (before ++ p.text) (line + p.newlines)
        (by rw [h, List.append_assoc])
      rw [width_append] at htokens herrors
      rw [place, tokensFrom, errorsFrom, ← htokens, ← herrors,
        List.filterMap_cons, List.filterMap_cons, token?_covering h hlong.1,
        diagnostic?_covering h hlong.1]
      constructor
      · cases p.token? line with
        | none => rfl
        | some t => rfl
      · cases p.diagnostic? line with
        | none => rfl
        | some d => rfl

/-- The last line of placed pieces is as far from the first as there are line
ends in their text. -/
theorem lastLine_place {cut : List Piece} {text : List Char}
    (hcut : Cut cut text) :
    ∀ offset line,
      (((place offset line cut).getLast?).map Segment.endLine).getD line
      = line + text.count '\n' := by
  induction hcut with
  | done => exact fun _ _ => rfl
  | @next p cut after hne hlong hcut ih =>
      intro offset line
      have hrest := ih (offset + width p.text) (line + p.newlines)
      rw [place, List.getLast?_cons, Option.map_some, Option.getD_some,
        List.count_append, ← Nat.add_assoc, ← Piece.newlines, ← hrest]
      cases (place (offset + width p.text)
        (line + p.newlines) cut).getLast? with
      | none => exact endLine_covering p offset line
      | some g => rfl

/-- The scan of a source is what its pieces give, and the end of the input
on its last line. From here on a scan is a matter of characters, and bytes
come back only where an offset is asked for. -/
theorem scan_eq (source : String) :
    scan source
      = { tokens := tokensFrom 1 (pieces source.toList)
            ++ [.eof (1 + source.toList.count '\n')]
          errors := errorsFrom 1 (pieces source.toList) } := by
  have hcut := cut_pieces source.toList
  obtain ⟨htokens, herrors⟩ := filterMap_place hcut [] 1 rfl
  rw [width_nil] at htokens herrors
  unfold scan lastLine
  dsimp only
  rw [segments_eq, htokens, herrors, lastLine_place hcut]

/-- Maximal munch: there is one way and only one to cut a source into pieces
that are each the longest beginning of what is left, and the scan is what
these pieces give, line by line, and then the end of the input. A number
among them always has a value. A word gives the token of a reserved word just
when all of it is that word, and otherwise that of an identifier. -/
theorem scan_maximal_munch (source : String) :
    ∃ cut, Cut cut source.toList
      ∧ cut.flatMap Piece.text = source.toList
      ∧ (∀ other, Cut other source.toList → other = cut)
      ∧ (∀ p ∈ cut, p.rule = .number →
          ∃ x, Binary64.ofText? (String.ofList p.text) = some x)
      ∧ (∀ p ∈ cut, p.rule = .word → ∀ line, ∃ t, p.token? line = some t
          ∧ (∀ k : Keyword, t.kind = .keyword k ↔ String.ofList p.text = k.text)
          ∧ (t.kind = .identifier
            ↔ ∀ k : Keyword, String.ofList p.text ≠ k.text))
      ∧ (scan source).tokens
          = tokensFrom 1 cut ++ [.eof (1 + source.toList.count '\n')]
      ∧ (scan source).errors = errorsFrom 1 cut := by
  have hcut := cut_pieces source.toList
  refine ⟨pieces source.toList, hcut, hcut.flatMap_text,
    fun other h => h.eq_pieces, ?_, ?_, ?_, ?_⟩
  · intro p hp hrule
    obtain ⟨after, hfits⟩ := hcut.fits p hp
    rw [hrule] at hfits
    exact exists_ofText?_of_number hfits
  · rintro ⟨rule, text⟩ - rfl line
    exact ⟨_, rfl, fun k => Kind.ofWord_eq_keyword_iff,
      Kind.ofWord_eq_identifier_iff⟩
  · rw [scan_eq]
  · rw [scan_eq]

end LoxLexer
