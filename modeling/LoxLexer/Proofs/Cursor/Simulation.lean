/-
The cursor goes from piece to piece. A turn of the loop that begins where a
piece does takes just this piece: it ends behind it, and has taken note of
the token or the diagnostic that the piece gives (`next_leadingPiece`). So all
cursors that the loop comes to stand between two pieces (`ready_of_reaches`),
and the loop ends with the scan (`run_eq_scan`).

# Where the bytes matter

The loops run over bytes and stop within a character if they may. They may
not: each runs through a class that takes all characters beyond ASCII alike,
so it stops where the run of characters does (`takeWhile_encode`), and a
string is closed by the first quote among the characters. A stray is the one
rule that reads a character of more than one byte in a single step.
-/
import LoxLexer.Proofs.Segment.Placement
import LoxLexer.Proofs.Cursor.Basic

namespace LoxLexer

namespace Cursor

-- ==================================================== which rule is taken

/-- A character of the first table is an operator alone, and no operator with
an equals sign behind it: so it is right not to look further. -/
theorem ofSpelling?_of_single? {x : Char} {o : Operator}
    (h : single? x = some o) :
    Operator.ofSpelling? [x] = some o
      ∧ Operator.ofSpelling? [x, '='] = none := by
  unfold single? at h
  split at h
  all_goals
    cases h
  all_goals decide

/-- A character of the second table is an operator alone and with an equals
sign, as the table says. -/
theorem ofSpelling?_of_pair? {x : Char} {long alone : Operator}
    (h : pair? x = some (long, alone)) :
    Operator.ofSpelling? [x] = some alone
      ∧ Operator.ofSpelling? [x, '='] = some long := by
  unfold pair? at h
  split at h
  all_goals
    cases h
  all_goals decide

/-- The two tables and the slash are all the operators there are. -/
theorem table_of_ofSpelling? {x : Char} {o : Operator}
    (h : Operator.ofSpelling? [x] = some o) :
    x = '/' ∨ single? x = some o ∨ ∃ long, pair? x = some (long, o) := by
  rw [Operator.ofSpelling?_eq_some_iff] at h
  -- the operators of two characters drop out by the length of their spelling
  cases o
  all_goals
    simp only [Operator.spelling, List.cons.injEq, and_true, reduceCtorEq,
      and_false] at h
  all_goals
    subst h
    simp [single?, pair?]

/-- What is no operator is taken by the rules behind the operators. The
cursor asks its two tables and the slash first, and a character in one of
them would be an operator. -/
private theorem dispatch_of_none {x : Char}
    (h : Operator.ofSpelling? [x] = none)
    (source : String) (c : Cursor) :
    c.dispatch source x
      = if isBlank x then some c
        else if x = '\n' then some { c with line := c.line + 1 }
        else if x = '"' then c.readString source
        else if x.isDigit then c.readNumber source
        else if isWordStart x then c.readWord source
        else c.unexpectedCharacter source := by
  have hsingle : single? x = none := by
    cases hs : single? x with
    | none => rfl
    | some o =>
        rw [(ofSpelling?_of_single? hs).1] at h
        cases h
  have hpair : pair? x = none := by
    cases hp : pair? x with
    | none => rfl
    | some q =>
        rw [(ofSpelling?_of_pair? hp).1] at h
        cases h
  have hslash : x ≠ '/' := by
    intro hx
    subst hx
    cases h
  unfold dispatch
  rw [hsingle, hpair]
  exact if_neg hslash

theorem dispatch_blank {x : Char} (h : isBlank x = true) (source : String)
    (c : Cursor) :
    c.dispatch source x = some c := by
  rcases eq_of_isBlank h with rfl | rfl | rfl
  all_goals rfl

theorem dispatch_digit {x : Char} (h : x.isDigit = true) (source : String)
    (c : Cursor) :
    c.dispatch source x = c.readNumber source := by
  obtain ⟨hblank, hline, -⟩ := not_gap_of_isDigit h
  have hquote : x ≠ '"' := by
    intro hx
    subst hx
    exact absurd h (by decide)
  have hnone : Operator.ofSpelling? [x] = none := by
    cases ho : Operator.ofSpelling? [x] with
    | none => rfl
    | some o =>
        rw [(not_gap_of_ofSpelling? ho).2.2.2.1] at h
        cases h
  rw [dispatch_of_none hnone, if_neg (by simp [hblank]), if_neg hline,
    if_neg hquote, if_pos h]

theorem dispatch_word {x : Char} (h : isWordStart x = true) (source : String)
    (c : Cursor) : c.dispatch source x = c.readWord source := by
  obtain ⟨hblank, hline⟩ := not_gap_of_isWordStart h
  have hdigit : ¬ x.isDigit = true := by
    intro hd
    rw [(not_gap_of_isDigit hd).2.2] at h
    cases h
  have hquote : x ≠ '"' := by
    intro hx
    subst hx
    exact absurd h (by decide)
  have hnone : Operator.ofSpelling? [x] = none := by
    cases ho : Operator.ofSpelling? [x] with
    | none => rfl
    | some o =>
        rw [(not_gap_of_ofSpelling? ho).2.2.1] at h
        cases h
  rw [dispatch_of_none hnone, if_neg (by simp [hblank]), if_neg hline,
    if_neg hquote, if_neg hdigit, if_pos h]

/-- What starts nothing is unexpected: it falls through to the last case. -/
theorem dispatch_stray {x : Char} (h : ¬ Starts x) (source : String)
    (c : Cursor) :
    c.dispatch source x = c.unexpectedCharacter source := by
  obtain ⟨hblank, hline, hword, hdigit, hquote, hnone⟩ := not_opening h
  rw [dispatch_of_none hnone, if_neg hblank, if_neg hline, if_neg hquote,
    if_neg hdigit, if_neg hword]

-- ======================================================== one turn

/-- The cursor behind a piece: it has taken note of what the piece gives.
Every turn of the loop is shown to come to such a cursor, so all that is to be
known of a turn is read off the piece. -/
def past (c : Cursor) (p : Piece) : Cursor where
  start := c.current
  current := c.current + width p.text
  line := c.line + p.newlines
  tokens := c.tokens ++ (p.token? c.line).toList
  errors := c.errors ++ (p.diagnostic? c.line).toList

/-- Whether a cursor stands between two parts that make up a source. The parts
are of characters and the cursor counts bytes: this is where the two meet. -/
def Stands (source : String) (c : Cursor) (before rest : List Char) : Prop :=
  source.toList = before ++ rest ∧ c.current = width before

section Turn

variable {source : String} {c : Cursor} {before rest : List Char} {x : Char}

theorem Stands.past {p : Piece} (h : c.Stands source before (p.text ++ rest)) :
    (c.past p).Stands source (before ++ p.text) rest := by
  constructor
  · rw [h.1, List.append_assoc]
  · show c.current + width p.text = width (before ++ p.text)
    rw [width_append, h.2]

theorem Stands.ahead (h : c.Stands source before rest) :
    c.ahead source = encode rest := by
  unfold Cursor.ahead
  rw [octets_eq_encode, h.1, encode_append, h.2]
  exact List.drop_left

/-- All that is left of a source can be cut out. -/
theorem Stands.slice?_left (h : c.Stands source before rest) :
    slice? source c.current source.utf8ByteSize
      = some (String.ofList rest) := by
  have hsize : source.utf8ByteSize = width before + width rest := by
    rw [← width_toList, h.1, width_append]
  have hsplit : source.toList = before ++ (rest ++ []) := by
    rw [h.1, List.append_nil]
  rw [hsize, h.2, slice?_width hsplit]

/-- The cursor behind the first byte of a turn. -/
private def opened (c : Cursor) : Cursor :=
  { c with start := c.current, current := c.current + 1 }

private theorem next_of_peek {b : Char} (h : c.peek source = some b) :
    c.next source = c.opened.dispatch source b := by
  have hpeek : peek source { c with start := c.current } = some b := h
  unfold next scanToken
  rw [hpeek]
  rfl

/-- Behind an ASCII character the turn is at the next character. -/
private theorem next_of_ascii (h : c.Stands source before (x :: rest))
    (hx : x.toNat < 128) :
    c.next source = c.opened.dispatch source x
      ∧ c.opened.ahead source = encode rest := by
  have hahead := h.ahead
  rw [encode_cons, charOctets_of_ascii hx] at hahead
  constructor
  · apply next_of_peek
    rw [peek_eq_head?, hahead]
    rfl
  · exact ahead_of_append hahead rfl

private theorem accept_of_head {a : Char} {d : Cursor}
    (hahead : d.ahead source = encode rest) (ha : a.toNat < 128)
    (h : rest.head? = some a) : d.accept source a = (true, d.skip) := by
  rw [accept, peek_eq_head?, hahead]
  exact if_pos ((head?_encode ha rest).2 h)

private theorem accept_of_not_head {a : Char} {d : Cursor}
    (hahead : d.ahead source = encode rest) (ha : a.toNat < 128)
    (h : rest.head? ≠ some a) : d.accept source a = (false, d) := by
  rw [accept, peek_eq_head?, hahead]
  exact if_neg fun hhead => h ((head?_encode ha rest).1 hhead)

/-- From the start of the turn to the end of some text that follows it, the
text is what is cut out. -/
private theorem lexeme?_eq {text after : List Char} {d : Cursor}
    (h : c.Stands source before (text ++ after)) (hstart : d.start = c.current)
    (hcurrent : d.current = c.current + width text) :
    d.lexeme? source = some (String.ofList text) := by
  show slice? source d.start d.current = _
  rw [hstart, hcurrent, h.2, slice?_width h.1]

private theorem pushToken_eq {text after : List Char} {d : Cursor}
    (h : c.Stands source before (text ++ after)) (hstart : d.start = c.current)
    (hcurrent : d.current = c.current + width text) (kind : Kind)
    (literal : Option Literal) (line : Nat) :
    d.pushToken source kind literal line
      = some { d with tokens := d.tokens
                 ++ [⟨kind, String.ofList text, literal, line⟩] } := by
  unfold pushToken
  rw [lexeme?_eq h hstart hcurrent]
  rfl

/-- A turn that comes to the end of a piece with its token in hand. The token
has the line the turn began on; the cursor may be on a later one, behind a
string with line ends. -/
private theorem pushToken_past {p : Piece} {after : List Char} {line : Nat}
    {kind : Kind} {literal : Option Literal}
    (h : c.Stands source before (p.text ++ after))
    (hline : line = c.line + p.newlines)
    (htoken : p.token? c.line
      = some ⟨kind, String.ofList p.text, literal, c.line⟩)
    (hnone : p.diagnostic? c.line = none) :
    pushToken source kind literal c.line
        { c with start := c.current
                 current := c.current + width p.text
                 line := line }
      = some (c.past p) := by
  subst hline
  rw [pushToken_eq h rfl rfl, past, htoken, hnone, Option.toList_none,
    List.append_nil]
  rfl

/-- A turn that comes to the end of a piece that gives nothing. -/
private theorem eq_past {p : Piece} (hnone : p.token? c.line = none)
    (hnone' : p.diagnostic? c.line = none) :
    { c with start := c.current
             current := c.current + width p.text
             line := c.line + p.newlines } = c.past p := by
  simp [past, hnone, hnone']

/-- A piece without a line end, from its front on. -/
private theorem newlines_leadingPiece {p : Piece} (h : leadingPiece x rest = p)
    (hline : p.rule ≠ .newline) (hstring : p.rule ≠ .string)
    (hopen : p.rule ≠ .openString) : p.newlines = 0 := by
  subst h
  exact count_newline_of_fits (fits_leadingPiece x rest) hline hstring hopen

private theorem next_blank (h : c.Stands source before (x :: rest))
    (hx : isBlank x = true) :
    c.next source = some (c.past (leadingPiece x rest)) := by
  have hpiece : leadingPiece x rest = ⟨.blank, [x]⟩ := by
    rw [leadingPiece, leadingRule_blank hx]
    rfl
  have hnew := newlines_leadingPiece hpiece (by simp) (by simp) (by simp)
  have hascii := ascii_of_starts (starts_iff.2 (.blank hx))
  rw [(next_of_ascii h hascii).1, dispatch_blank hx, hpiece, ← eq_past rfl rfl,
    hnew, width_cons, width_nil, utf8Size_of_ascii hascii]
  rfl

private theorem next_newline (h : c.Stands source before ('\n' :: rest)) :
    c.next source = some (c.past (leadingPiece '\n' rest)) := by
  have hpiece : leadingPiece '\n' rest = ⟨.newline, ['\n']⟩ := rfl
  rw [(next_of_ascii h (by decide)).1, hpiece, ← eq_past rfl rfl]
  rfl

private theorem next_word (h : c.Stands source before (x :: rest))
    (hx : isWordStart x = true) :
    c.next source = some (c.past (leadingPiece x rest)) := by
  have hpiece :
      leadingPiece x rest = ⟨.word, x :: rest.takeWhile isWordPart⟩ := by
    rw [leadingPiece, leadingRule_word hx, take_length_takeWhile]
  have hnew := newlines_leadingPiece hpiece (by simp) (by simp) (by simp)
  have hsplit := h
  rw [← leadingPiece_append, hpiece] at hsplit
  have hascii := ascii_of_starts (starts_iff.2 (.word hx))
  obtain ⟨hturn, hahead⟩ := next_of_ascii h hascii
  -- no byte of a wide character is part of a word: the bytes stop where the
  -- characters do
  have hskip : c.opened.skipWhile source isWordPart
      = { c with start := c.current
                 current :=
                   c.current + width (x :: rest.takeWhile isWordPart) } := by
    rw [skipWhile_eq, hahead, takeWhile_encode asciiClass_isWordPart,
      width_cons, utf8Size_of_ascii hascii, ← Nat.add_assoc]
    rfl
  rw [hturn, dispatch_word hx, readWord, hskip, lexeme?_eq hsplit rfl rfl,
    hpiece]
  exact pushToken_past (p := ⟨.word, x :: rest.takeWhile isWordPart⟩) hsplit
    (by rw [hnew, Nat.add_zero]) rfl rfl

private theorem next_number (h : c.Stands source before (x :: rest))
    (hx : x.isDigit = true) :
    c.next source = some (c.past (leadingPiece x rest)) := by
  have hpiece :
      leadingPiece x rest = ⟨.number, x :: rest.take (numberRest rest)⟩ := by
    rw [leadingPiece, leadingRule_number hx]
  have hnew := newlines_leadingPiece hpiece (by simp) (by simp) (by simp)
  have hsplit := h
  rw [← leadingPiece_append, hpiece] at hsplit
  have hascii := ascii_of_isDigit hx
  obtain ⟨hturn, hahead⟩ := next_of_ascii h hascii
  have hskip : c.opened.skipNumber source
      = { c with start := c.current
                 current :=
                   c.current + width (x :: rest.take (numberRest rest)) } := by
    rw [skipNumber_eq, hahead, numberRest_encode, width_cons,
      width_take_numberRest, utf8Size_of_ascii hascii, ← Nat.add_assoc]
    rfl
  -- the text is one that can be read, so the default value is never taken
  have hfits : Fits .number (x :: rest.take (numberRest rest))
      (rest.drop (numberRest rest)) := by
    have hfits := (fits_leadingRule x rest).2
    rwa [leadingRule_number hx] at hfits
  obtain ⟨value, hvalue⟩ := exists_ofText?_of_number hfits
  rw [hturn, dispatch_digit hx, readNumber, hskip, hpiece]
  dsimp only
  rw [lexeme?_eq hsplit rfl rfl]
  dsimp only [Option.bind_eq_bind, Option.bind_some]
  rw [hvalue]
  refine pushToken_past (p := ⟨.number, x :: rest.take (numberRest rest)⟩)
    hsplit (by rw [hnew, Nat.add_zero]) ?_ rfl
  unfold Piece.token?
  dsimp only
  rw [hvalue]
  rfl

private theorem next_comment (h : c.Stands source before ('/' :: '/' :: rest)) :
    c.next source = some (c.past (leadingPiece '/' ('/' :: rest))) := by
  have hpiece : leadingPiece '/' ('/' :: rest)
      = ⟨.comment, '/' :: '/' :: rest.takeWhile (· != '\n')⟩ := by
    rw [leadingPiece, leadingRule_comment, List.take_succ_cons,
      take_length_takeWhile]
  have hnew := newlines_leadingPiece hpiece (by simp) (by simp) (by simp)
  obtain ⟨hturn, hahead⟩ := next_of_ascii h (by decide)
  have haccept := accept_of_head hahead (a := '/') (by decide) rfl
  rw [encode_cons_of_ascii (by decide)] at hahead
  -- a line end is one byte, and no byte of a wide character is a line end
  have hskip : c.opened.skip.skipWhile source (· != '\n')
      = { c with start := c.current
                 current := c.current
                   + width ('/' :: '/' :: rest.takeWhile (· != '\n')) } := by
    have hslash : ('/').utf8Size = 1 := rfl
    rw [skipWhile_eq, ahead_skip hahead, takeWhile_encode (.bne (by decide)),
      width_cons, width_cons, hslash, ← Nat.add_assoc, ← Nat.add_assoc]
    rfl
  rw [hturn, hpiece, ← eq_past rfl rfl, hnew]
  show c.opened.readSlash source = _
  rw [readSlash, haccept]
  exact congrArg some hskip

/-- An operator of one character. -/
private theorem addToken_lone {o : Operator}
    (h : c.Stands source before (x :: rest)) (hx : x.toNat < 128)
    (hpiece : leadingPiece x rest = ⟨.operator o, [x]⟩) :
    c.opened.addToken source (.operator o)
      = some (c.past (leadingPiece x rest)) := by
  have hnew := newlines_leadingPiece hpiece (by simp) (by simp) (by simp)
  have hopened : c.opened
      = { c with start := c.current, current := c.current + width [x] } := by
    rw [width_cons, width_nil, utf8Size_of_ascii hx]
    rfl
  rw [hpiece, hopened]
  exact pushToken_past (p := ⟨.operator o, [x]⟩) h
    (by rw [hnew, Nat.add_zero]) rfl rfl

private theorem next_single {o : Operator}
    (h : c.Stands source before (x :: rest)) (hx : single? x = some o) :
    c.next source = some (c.past (leadingPiece x rest)) := by
  obtain ⟨halone, hpair⟩ := ofSpelling?_of_single? hx
  have hascii := ascii_of_starts (starts_iff.2 (.operator halone))
  have hslash : ¬ (x = '/' ∧ rest.head? = some '/') := by
    intro hboth
    rw [hboth.1] at hx
    cases hx
  have hleading : Operator.leading? x rest = some o := by
    rw [Operator.leading?_eq, hpair, halone]
    exact ite_self _
  have hpiece : leadingPiece x rest = ⟨.operator o, [x]⟩ := by
    rw [leadingPiece_operator halone hslash hleading,
      Operator.ofSpelling?_eq_some_iff.1 halone]
  rw [(next_of_ascii h hascii).1, ← addToken_lone h hascii hpiece, dispatch, hx]

private theorem next_slash (h : c.Stands source before ('/' :: rest))
    (hrest : rest.head? ≠ some '/') :
    c.next source = some (c.past (leadingPiece '/' rest)) := by
  have hleading : Operator.leading? '/' rest = some .slash := by
    rw [Operator.leading?_eq]
    exact ite_self _
  have hpiece : leadingPiece '/' rest = ⟨.operator .slash, ['/']⟩ := by
    have hnot : ¬ ('/' = '/' ∧ rest.head? = some '/') := fun h => hrest h.2
    exact leadingPiece_operator (o := .slash) rfl hnot hleading
  obtain ⟨hturn, hahead⟩ := next_of_ascii h (by decide)
  rw [hturn, ← addToken_lone h (by decide) hpiece]
  show c.opened.readSlash source = _
  rw [readSlash, accept_of_not_head hahead (by decide) hrest]

/-- An operator that an equals sign can follow: the sign belongs to it
whenever it is there. -/
private theorem next_pair {long alone : Operator}
    (h : c.Stands source before (x :: rest))
    (hx : pair? x = some (long, alone)) :
    c.next source = some (c.past (leadingPiece x rest)) := by
  obtain ⟨halone, hlong⟩ := ofSpelling?_of_pair? hx
  have hascii := ascii_of_starts (starts_iff.2 (.operator halone))
  have hslash : ¬ (x = '/' ∧ rest.head? = some '/') := by
    intro hboth
    rw [hboth.1] at hx
    cases hx
  have hsingle : single? x = none := by
    cases hs : single? x with
    | none => rfl
    | some o =>
        rw [(ofSpelling?_of_single? hs).2] at hlong
        cases hlong
  obtain ⟨hturn, hahead⟩ := next_of_ascii h hascii
  rw [hturn, dispatch, hsingle, hx]
  show c.opened.addPair source long alone = _
  by_cases hequal : rest.head? = some '='
  case pos =>
    -- the sign is taken: the longer operator, two bytes further on
    obtain ⟨after, hafter⟩ := List.head?_eq_some_iff.1 hequal
    subst hafter
    have hleading : Operator.leading? x ('=' :: after) = some long := by
      rw [Operator.leading?_eq, if_pos hequal, hlong]
      rfl
    have hpiece :
        leadingPiece x ('=' :: after) = ⟨.operator long, [x, '=']⟩ := by
      rw [leadingPiece_operator halone hslash hleading,
        Operator.ofSpelling?_eq_some_iff.1 hlong]
    have hnew := newlines_leadingPiece hpiece (by simp) (by simp) (by simp)
    have hskip : c.opened.skip
        = { c with start := c.current
                   current := c.current + width [x, '='] } := by
      have hwidth : width [x, '='] = 1 + 1 := by
        rw [width_cons, utf8Size_of_ascii hascii]
        rfl
      rw [hwidth]
      rfl
    rw [addPair, accept_of_head hahead (by decide) hequal, hskip, hpiece]
    exact pushToken_past (p := ⟨.operator long, [x, '=']⟩) h
      (by rw [hnew, Nat.add_zero]) rfl rfl
  case neg =>
    -- nothing more is taken: the operator of the character alone, where the
    -- turn has come to already
    have hleading : Operator.leading? x rest = some alone := by
      rw [Operator.leading?_eq, if_neg hequal, halone]
    have hpiece : leadingPiece x rest = ⟨.operator alone, [x]⟩ := by
      rw [leadingPiece_operator halone hslash hleading,
        Operator.ofSpelling?_eq_some_iff.1 halone]
    rw [addPair, accept_of_not_head hahead (by decide) hequal,
      ← addToken_lone h hascii hpiece]

/-- A string that is closed: the token has the line of its opening quote and
the text between the quotes, and the cursor the line of the closing one. -/
private theorem next_string {inside after : List Char}
    (hin : ∀ d ∈ inside, d ≠ '"')
    (h : c.Stands source before ('"' :: (inside ++ '"' :: after))) :
    c.next source
      = some (c.past (leadingPiece '"' (inside ++ '"' :: after))) := by
  have hpiece : leadingPiece '"' (inside ++ '"' :: after)
      = ⟨.string, '"' :: (inside ++ ['"'])⟩ := by
    rw [leadingPiece, leadingRule_string hin, take_closing]
  have hfits : Fits .string ('"' :: (inside ++ ['"'])) after :=
    .regular (.string after hin)
  have hsplit : c.Stands source before ('"' :: (inside ++ ['"']) ++ after) := by
    rw [List.cons_append, List.append_assoc]
    exact h
  have hquote : ('"').utf8Size = 1 := rfl
  -- the loop looks for a quote among the bytes, and the characters have none
  have hbytes : ∀ b ∈ encode inside, b ≠ '"' := by
    intro b hb heq
    subst heq
    exact hin _ ((mem_encode (by decide) inside).1 hb) rfl
  obtain ⟨hturn, hahead⟩ := next_of_ascii h (by decide)
  rw [encode_append, encode_cons_of_ascii (by decide)] at hahead
  have hclose : c.opened.closeString source
      = (true, { c with start := c.current
                        current := c.current + width ('"' :: (inside ++ ['"']))
                        line := c.line + inside.count '\n' }) := by
    have hwidth : c.current + 1 + width inside + 1
        = c.current + width ('"' :: (inside ++ ['"'])) := by
      rw [width_cons, width_append, width_cons, width_nil, hquote]
      omega
    rw [closeString_of_quote hbytes hahead, count_encode (by decide), ← hwidth]
    rfl
  have hnew : c.line + inside.count '\n'
      = c.line + Piece.newlines ⟨.string, '"' :: (inside ++ ['"'])⟩ := by
    rw [newlines_string]
  -- one byte in from each end is between the quotes
  have hslice :=
    slice?_inside (p := ⟨.string, '"' :: (inside ++ ['"'])⟩) hsplit.1 hfits rfl
  rw [← h.2] at hslice
  rw [hturn, hpiece]
  show c.opened.readString source = _
  rw [readString, hclose]
  dsimp only
  rw [hslice]
  exact pushToken_past
    (p := ⟨.string, '"' :: (inside ++ ['"'])⟩) hsplit hnew rfl rfl

/-- A string that is not closed: it takes the rest of the source, and its
error is on the line where the source ends. -/
private theorem next_openString (hin : ∀ d ∈ rest, d ≠ '"')
    (h : c.Stands source before ('"' :: rest)) :
    c.next source = some (c.past (leadingPiece '"' rest)) := by
  have hpiece : leadingPiece '"' rest = ⟨.openString, '"' :: rest⟩ := by
    rw [leadingPiece, leadingRule_openString hin, List.take_length]
  obtain ⟨hturn, hahead⟩ := next_of_ascii h (by decide)
  have hbytes : ∀ b ∈ c.opened.ahead source, b ≠ '"' := by
    intro b hb heq
    rw [hahead, heq] at hb
    exact hin _ ((mem_encode (by decide) rest).1 hb) rfl
  have hwidth : c.current + 1 + (encode rest).length
      = c.current + (('"').utf8Size + width rest) := Nat.add_assoc _ _ _
  rw [hturn, hpiece]
  show c.opened.readString source = _
  rw [readString, closeString_of_end hbytes, hahead, count_encode (by decide)]
  simp [past, opened, report, Piece.token?, Piece.diagnostic?,
    newlines_openString, hwidth]

/-- A stray is passed over whole, however many bytes it has. The turn has gone
over its first byte only, so the cursor takes the character from the source
anew, at the start of the turn. -/
private theorem next_stray (h : c.Stands source before (x :: rest))
    (hx : ¬ Starts x) :
    c.next source = some (c.past (leadingPiece x rest)) := by
  have hpiece : leadingPiece x rest = ⟨.stray, [x]⟩ := by
    rw [leadingPiece, leadingRule_stray hx]
    rfl
  have hnew := newlines_leadingPiece hpiece (by simp) (by simp) (by simp)
  -- its first byte starts nothing either, and sends the turn to the last case
  obtain ⟨lead, bytes, hlead, hnot, -⟩ := exists_lead_of_not_starts hx
  have hpeek : c.peek source = some lead := by
    rw [peek_eq_head?, h.ahead, encode_cons, hlead]
    rfl
  rw [next_of_peek hpeek, dispatch_stray hnot, hpiece]
  unfold unexpectedCharacter
  have hstart : c.opened.start = c.current := rfl
  rw [hstart, h.slice?_left]
  simp [past, opened, report, Piece.token?, Piece.diagnostic?, hnew]

/-- A turn takes the piece it begins with. The cases are those of the rules:
by what the first character starts, and where two rules share it (a slash, a
quote, an operator with an equals sign) by what follows. -/
theorem next_leadingPiece (h : c.Stands source before (x :: rest)) :
    c.next source = some (c.past (leadingPiece x rest)) := by
  by_cases hstarts : Starts x
  case neg => exact next_stray h hstarts
  case pos =>
    cases starts_iff.1 hstarts with
    | blank hx => exact next_blank h hx
    | newline hx =>
        subst hx
        exact next_newline h
    | word hx => exact next_word h hx
    | number hx => exact next_number h hx
    | quote hx =>
        subst hx
        by_cases hquote : '"' ∈ rest
        case pos =>
          obtain ⟨inside, after, hrest, hnot⟩ :=
            List.eq_append_cons_of_mem hquote
          subst hrest
          exact next_string (fun d hd heq => hnot (heq ▸ hd)) h
        case neg => exact next_openString (fun d hd heq => hquote (heq ▸ hd)) h
    | operator hx =>
        rcases table_of_ofSpelling? hx with hslash | hsingle | ⟨long, hpair⟩
        · subst hslash
          by_cases hrest : rest.head? = some '/'
          case pos =>
            obtain ⟨after, hafter⟩ := List.head?_eq_some_iff.1 hrest
            subst hafter
            exact next_comment h
          case neg => exact next_slash h hrest
        · exact next_single h hsingle
        · exact next_pair h hpair

end Turn

-- ========================================================= all of them

section Run

variable {source : String} {c : Cursor} {before after : List Char}

/-- A turn takes the longest piece that is ahead. -/
theorem next_eq {p : Piece} (h : c.Stands source before (p.text ++ after))
    (hne : p.text ≠ []) (hlong : Longest p.rule p.text after) :
    c.next source = some (c.past p) := by
  obtain ⟨rule, text⟩ := p
  cases text with
  | nil => exact absurd rfl hne
  | cons x taken =>
      have hsplit : (x :: taken) ++ after = x :: (taken ++ after) :=
        List.cons_append
      obtain ⟨hrule, htext, -⟩ := eq_leadingRule_of_longest hlong hsplit
      have hpiece : leadingPiece x (taken ++ after) = ⟨rule, x :: taken⟩ := by
        rw [leadingPiece, ← hrule, ← htext]
      rw [← hpiece]
      exact next_leadingPiece h

/-- With nothing ahead the cursor is at the end. -/
theorem Stands.current_eq (h : c.Stands source before []) :
    c.current = source.utf8ByteSize := by
  rw [h.2, ← width_toList, h.1, List.append_nil]

/-- From a cursor on, the loop takes the pieces ahead and then ends. The
induction is on the cut: each turn takes its first piece, and stands in front
of the others. That it ends is part of what is shown, since the loop as
written may give nothing. -/
theorem run_of_stands {cut : List Piece} {text : List Char}
    (hcut : Cut cut text) :
    ∀ {c : Cursor} {before : List Char}, c.Stands source before text →
      c.run source
        = some { tokens := c.tokens ++ tokensFrom c.line cut
                   ++ [.eof (c.line + text.count '\n')]
                 errors := c.errors ++ errorsFrom c.line cut } := by
  induction hcut with
  | done =>
      intro c before h
      rw [run, if_neg (by rw [h.current_eq]; exact Nat.lt_irrefl _)]
      simp [tokensFrom, errorsFrom]
  | @next p cut after hne hlong hcut ih =>
      intro c before h
      -- a piece has at least a byte, so the loop is not over in front of one
      have hmore : c.current < source.utf8ByteSize := by
        have hpos := width_pos hne
        rw [h.2, ← width_toList, h.1, width_append, width_append]
        omega
      rw [run, if_pos hmore, next_eq h hne hlong]
      show run source (c.past p) = _
      rw [ih h.past, tokensFrom, errorsFrom, List.count_append]
      simp [past, Piece.newlines, Nat.add_assoc]

/-- The loop ends, and what it gives is the scan: what is shown of the scan by
its segments holds of the loop over bytes. -/
theorem run_eq_scan (source : String) :
    initial.run source = some (scan source) := by
  have hstands : initial.Stands source [] source.toList := ⟨rfl, rfl⟩
  rw [run_of_stands (cut_pieces source.toList) hstands, scan_eq]
  rfl

-- ==================================================== the invariant

/-- Whether a turn can begin at a cursor: both its offsets are boundaries, and
its line is the one that the next byte is on. -/
structure Ready (source : String) (c : Cursor) : Prop where
  start : IsBoundary source c.start
  stands : ∃ before after, c.Stands source before after
    ∧ c.line = 1 + before.count '\n'

theorem ready_initial (source : String) : initial.Ready source where
  start := isBoundary_iff.2 ⟨[], source.toList, rfl, rfl⟩
  stands := ⟨[], source.toList, ⟨rfl, rfl⟩, rfl⟩

/-- A turn goes from a cursor where one can begin to another. This is the step
of every invariant of the loop: it gives the piece that the turn takes, and
the cursor behind it. -/
theorem Ready.next (h : c.Ready source)
    (hmore : c.current < source.utf8ByteSize) :
    ∃ before x rest, c.Stands source before (x :: rest)
      ∧ c.line = 1 + before.count '\n'
      ∧ c.next source = some (c.past (leadingPiece x rest))
      ∧ (c.past (leadingPiece x rest)).Ready source := by
  obtain ⟨before, after, hstands, hline⟩ := h.stands
  cases after with
  | nil =>
      rw [hstands.current_eq] at hmore
      exact absurd hmore (Nat.lt_irrefl _)
  | cons x rest =>
      refine ⟨before, x, rest, hstands, hline, next_leadingPiece hstands, ?_,
        ?_⟩
      · exact isBoundary_iff.2 ⟨before, x :: rest, hstands.1, hstands.2⟩
      · have hsplit := hstands
        rw [← leadingPiece_append] at hsplit
        refine ⟨_, _, hsplit.past, ?_⟩
        rw [List.count_append, ← Nat.add_assoc, ← hline]
        rfl

/-- Every cursor that the loop comes to is one where a turn can begin. -/
theorem ready_of_reaches (h : Reaches source c) : c.Ready source := by
  induction h with
  | initial => exact ready_initial source
  | next _ hmore hnext ih =>
      obtain ⟨before, x, rest, -, -, hturn, hready⟩ := ih.next hmore
      rw [hnext] at hturn
      rw [Option.some.inj hturn]
      exact hready

end Run

end Cursor

end LoxLexer
