/-
The cursor: the scan as a loop over bytes with a state. It holds the offset
where the current token starts, the offset of the next byte, the line, and
what was found so far. No segment is ever built: the cursor looks at one byte
or two, moves on, and cuts the part between its two offsets out of the source
when it needs it.

# What can go wrong

A part is only there between two boundaries in order, and a step that asks
for any other is refused: it gives no cursor at all (`none`). The loop may
also go on for ever, and then it gives no scan (`run`). The proofs about the
cursor show that neither happens, and that what the loop gives is the scan.

# The view ahead

A cursor reads nothing of the source but the bytes ahead of it. So its moves
are described by these bytes (`ahead`): passing over a class of bytes goes as
far as `takeWhile` does (`skipWhile_eq`), and closing a string goes to the
first quote (`closeString_of_quote`) or to the end (`closeString_of_end`).
-/
import LoxLexer.Scan
import LoxLexer.Proofs.Segment.Longest

namespace LoxLexer

-- ========================================================== the state

/-- A reader of a source: where the current token starts, where the next byte
is, on which line, and what was found. -/
structure Cursor where
  start : Nat
  current : Nat
  line : Nat
  tokens : List Token
  errors : List Diagnostic
deriving DecidableEq, Repr

namespace Cursor

/-- In front of the first byte. -/
def initial : Cursor where
  start := 0
  current := 0
  line := 1
  tokens := []
  errors := []

/-- Over the next byte. -/
def skip (c : Cursor) : Cursor := { c with current := c.current + 1 }

/-- Takes note of a fault on the current line. -/
def report (fault : Fault) (c : Cursor) : Cursor :=
  { c with errors := c.errors ++ [⟨fault, c.line⟩] }

section Reading

variable (source : String)

/-- The next byte, or nothing at the end. Bytes are looked at by their place in
the whole source, so looking ahead needs no boundary. -/
def peek (c : Cursor) : Option Char := (octets source)[c.current]?

/-- The byte behind the next one. It is asked for behind a point only: whether
a digit follows decides if the point is part of the number. -/
def peekNext (c : Cursor) : Option Char := (octets source)[c.current + 1]?

/-- Over the next byte, if it is the one expected, and whether it was. -/
def accept (expected : Char) (c : Cursor) : Bool × Cursor :=
  if c.peek source = some expected then (true, c.skip) else (false, c)

/-- The text of the current token, cut out of the source between the two
offsets. This is refused if one of them lies inside of a character. -/
def lexeme? (c : Cursor) : Option String := slice? source c.start c.current

/-- Takes note of a token with the current text. The line is given: that of a
string is not the one on which the cursor has come to stand. -/
def pushToken (kind : Kind) (literal : Option Literal) (line : Nat)
    (c : Cursor) :
    Option Cursor := do
  let lexeme ← c.lexeme? source
  return { c with tokens := c.tokens ++ [⟨kind, lexeme, literal, line⟩] }

/-- Takes note of a token without a value, on the current line. -/
def addToken (kind : Kind) (c : Cursor) : Option Cursor :=
  c.pushToken source kind none c.line

-- ========================================================== the loops

theorem peek_lt {c : Cursor} {b : Char} (h : c.peek source = some b) :
    c.current < (octets source).length := by
  obtain ⟨hlt, -⟩ := List.getElem?_eq_some_iff.1 h
  exact hlt

/-- Over the bytes that are in a class, up to the first that is not, or to the
end. Each turn leaves fewer bytes ahead, so this comes to a stop. -/
def skipWhile (p : Char → Bool) (c : Cursor) : Cursor :=
  match _h : c.peek source with
  | some b => if p b then skipWhile p c.skip else c
  | none => c
termination_by (octets source).length - c.current
decreasing_by
  have := peek_lt source _h
  simp only [skip]
  omega

/-- Over the next quote and all in front of it, and whether there is one. The
lines are counted on the way. -/
def closeString (c : Cursor) : Bool × Cursor :=
  match _h : c.peek source with
  | none => (false, c)
  | some b =>
    if b = '"' then (true, c.skip)
    else if b = '\n' then closeString { c.skip with line := c.line + 1 }
    else closeString c.skip
termination_by (octets source).length - c.current
decreasing_by
  all_goals
    have := peek_lt source _h
    simp only [skip]
    omega

-- ========================================================= the tokens

/-- The operators that no other begins with. -/
def single? : Char → Option Operator
  | '(' => some .leftParen
  | ')' => some .rightParen
  | '{' => some .leftBrace
  | '}' => some .rightBrace
  | ',' => some .comma
  | '.' => some .dot
  | '-' => some .minus
  | '+' => some .plus
  | ';' => some .semicolon
  | '*' => some .star
  | _ => none

/-- The operators that an equals sign can follow: with it and alone. -/
def pair? : Char → Option (Operator × Operator)
  | '!' => some (.bangEqual, .bang)
  | '=' => some (.equalEqual, .equal)
  | '<' => some (.lessEqual, .less)
  | '>' => some (.greaterEqual, .greater)
  | _ => none

/-- One of two operators, by whether an equals sign follows. If it does, it is
taken, and the longer of the two is noted. -/
def addPair (long alone : Operator) (c : Cursor) : Option Cursor :=
  match c.accept source '=' with
  | (true, c) => c.addToken source (.operator long)
  | (false, c) => c.addToken source (.operator alone)

/-- Behind a slash: a comment up to the line end, or an operator. -/
def readSlash (c : Cursor) : Option Cursor :=
  match c.accept source '/' with
  | (true, c) => some (c.skipWhile source (· != '\n'))
  | (false, c) => c.addToken source (.operator .slash)

/-- Behind a quote. A string that is closed has the line it started on, while
one that is not is reported where the source ends: the lines in it have been
counted by then. -/
def readString (c : Cursor) : Option Cursor :=
  match c.closeString source with
  | (false, d) => some (d.report .unterminatedString)
  | (true, d) => do
    let value ← slice? source (d.start + 1) (d.current - 1)
    d.pushToken source .string (some (.text value)) c.line

/-- Over the rest of a number: a point belongs to it if a digit follows. -/
def skipNumber (c : Cursor) : Cursor :=
  let d := c.skipWhile source Char.isDigit
  if d.peek source = some '.' ∧ (d.peekNext source).any Char.isDigit = true then
    d.skip.skipWhile source Char.isDigit
  else d

/-- Behind a digit. Zero stands in for the value of a text that is no number,
and no text that comes here is such (`exists_ofText?_of_number`). -/
def readNumber (c : Cursor) : Option Cursor := do
  let d := c.skipNumber source
  let text ← d.lexeme? source
  let value := (Binary64.ofText? text).getD .zero
  d.pushToken source .number (some (.number value)) d.line

/-- Behind a letter or underscore. The word is read as a whole before it is
looked up, so a longer word that begins with a reserved one is not cut. -/
def readWord (c : Cursor) : Option Cursor := do
  let d := c.skipWhile source isWordPart
  let text ← d.lexeme? source
  d.addToken source (.ofWord text)

/-- Over the whole character that starts where the token does, which can have
more bytes than the one that was read. The bytes are decoded for this, and it is
the only place where they are. -/
def unexpectedCharacter (c : Cursor) : Option Cursor := do
  let rest ← slice? source c.start source.utf8ByteSize
  let char := rest.toList.head?.getD '\uFFFD'
  return { c with current := c.start + char.utf8Size }.report
    (.unexpectedCharacter char)

-- ============================================================ the loop

/-- Behind a first byte: what the byte calls for. A byte that calls for nothing
is a stray, or the first one of a stray. -/
def dispatch (b : Char) (c : Cursor) : Option Cursor :=
  match single? b with
  | some o => c.addToken source (.operator o)
  | none =>
    match pair? b with
    | some (long, alone) => c.addPair source long alone
    | none =>
      if b = '/' then c.readSlash source
      else if isBlank b then some c
      else if b = '\n' then some { c with line := c.line + 1 }
      else if b = '"' then c.readString source
      else if b.isDigit then c.readNumber source
      else if isWordStart b then c.readWord source
      else c.unexpectedCharacter source

/-- Reads what starts at the next byte. -/
def scanToken (c : Cursor) : Option Cursor :=
  match c.peek source with
  | none => some c
  | some b => c.skip.dispatch source b

/-- One turn of the loop: the token starts where the last one ended. A turn
that finds a comment, a blank or a line end makes no token of it. -/
def next (c : Cursor) : Option Cursor :=
  scanToken source { c with start := c.current }

/-- The loop: turns while bytes are left, and then the end of the input. A
turn that is refused stops it, and so does none of them ever being the last:
then there is no scan. -/
def run (c : Cursor) : Option Scan :=
  if c.current < source.utf8ByteSize then do (← c.next source) |>.run
  else some { tokens := c.tokens ++ [.eof c.line], errors := c.errors }
partial_fixpoint

/-- The cursors that the loop comes to, from the initial one on. What is said of
every turn of a scan is said of these, and shown by induction on how they are
reached. -/
inductive Reaches : Cursor → Prop where
  | initial : Reaches initial
  | next {c d : Cursor} (h : Reaches c)
      (hmore : c.current < source.utf8ByteSize)
      (hnext : c.next source = some d) : Reaches d

end Reading

-- ====================================================== the view ahead

section Ahead

variable {source : String} {c : Cursor}

/-- The bytes ahead of a cursor. All that a turn looks at is among them, which is
why two sources with the same bytes ahead are read alike from there on. -/
def ahead (source : String) (c : Cursor) : List Char :=
  (octets source).drop c.current

theorem peek_eq_head? : c.peek source = (c.ahead source).head? := by
  rw [ahead, List.head?_drop, peek]

/-- Behind some bytes the others are still ahead. -/
theorem ahead_of_append {d : Cursor} {taken rest : List Char}
    (h : c.ahead source = taken ++ rest)
    (hd : d.current = c.current + taken.length) :
    d.ahead source = rest := by
  unfold ahead at h ⊢
  rw [hd, ← List.drop_drop, h]
  exact List.drop_left

theorem ahead_skip {b : Char} {rest : List Char}
    (h : c.ahead source = b :: rest) :
    c.skip.ahead source = rest := by
  have hone : c.ahead source = [b] ++ rest := h
  exact ahead_of_append hone rfl

theorem peekNext_eq {b : Char} {rest : List Char}
    (h : c.ahead source = b :: rest) :
    c.peekNext source = rest.head? := by
  rw [← ahead_skip h, ← peek_eq_head?]
  rfl

theorem skipWhile_of_some {b : Char} (hb : c.peek source = some b)
    (p : Char → Bool) :
    c.skipWhile source p = if p b then c.skip.skipWhile source p else c := by
  rw [skipWhile]
  split
  case h_1 d hd =>
    rw [hb] at hd
    cases hd
    rfl
  case h_2 hnone =>
    rw [hb] at hnone
    cases hnone

theorem skipWhile_of_none (hb : c.peek source = none) (p : Char → Bool) :
    c.skipWhile source p = c := by
  rw [skipWhile]
  split
  case h_1 d hd =>
    rw [hb] at hd
    cases hd
  case h_2 => rfl

/-- Passing over a class goes as far as the run of the class. All that the
loop changes is the offset of the next byte. -/
theorem skipWhile_eq (p : Char → Bool) (c : Cursor) :
    c.skipWhile source p
      = { c with
          current := c.current + ((c.ahead source).takeWhile p).length } := by
  induction c using skipWhile.induct source p with
  | case1 c b hb hp ih =>
      obtain ⟨rest, hrest⟩ :=
        List.head?_eq_some_iff.1 (peek_eq_head?.symm.trans hb)
      rw [skipWhile_of_some hb, if_pos hp, ih, ahead_skip hrest, hrest,
        List.takeWhile_cons_of_pos hp, List.length_cons]
      simp only [skip, Cursor.mk.injEq, and_self, and_true, true_and]
      omega
  | case2 c b hb hp =>
      obtain ⟨rest, hrest⟩ :=
        List.head?_eq_some_iff.1 (peek_eq_head?.symm.trans hb)
      rw [skipWhile_of_some hb, if_neg hp, hrest, List.takeWhile_cons_of_neg hp]
      rfl
  | case3 c hnone =>
      have hend := List.head?_eq_none_iff.1 (peek_eq_head?.symm.trans hnone)
      rw [skipWhile_of_none hnone, hend]
      rfl

theorem closeString_of_some {b : Char} (hb : c.peek source = some b) :
    c.closeString source
      = if b = '"' then (true, c.skip)
        else closeString source
          { c.skip with line := if b = '\n' then c.line + 1 else c.line } := by
  rw [closeString]
  split
  case h_1 hnone =>
    rw [hb] at hnone
    cases hnone
  case h_2 d hd =>
    rw [hb] at hd
    cases hd
    by_cases hline : b = '\n'
    · rw [if_pos hline, if_pos hline]
    · rw [if_neg hline, if_neg hline]
      rfl

theorem closeString_of_none (hb : c.peek source = none) :
    c.closeString source = (false, c) := by
  rw [closeString]
  split
  case h_1 => rfl
  case h_2 d hd =>
    rw [hb] at hd
    cases hd

/-- What holds no quote is passed over, and its line ends are counted. This is
the whole of the loop that closes a string; how it ends is then a matter of
the byte behind: a quote (`closeString_of_quote`) or none
(`closeString_of_end`). -/
private theorem closeString_through {inside rest : List Char}
    (hin : ∀ b ∈ inside, b ≠ '"') :
    ∀ {c : Cursor}, c.ahead source = inside ++ rest →
      c.closeString source
        = closeString source
            { c with current := c.current + inside.length
                     line := c.line + inside.count '\n' } := by
  induction inside with
  | nil => exact fun _ => rfl
  | cons b inside ih =>
      intro c h
      have hb : c.peek source = some b := by
        rw [peek_eq_head?, h]
        rfl
      have hrest := ih (fun d hd => hin d (List.mem_cons_of_mem b hd))
        (c := { c.skip with line := if b = '\n' then c.line + 1 else c.line })
        (ahead_skip h)
      -- both cursors are behind all of it; what is left is to count the byte
      rw [closeString_of_some hb, if_neg (hin b List.mem_cons_self), hrest]
      simp only [skip, List.length_cons, List.count_cons, beq_iff_eq]
      congr 2
      · omega
      · split
        case isTrue => omega
        case isFalse => omega

/-- A string that is closed ends behind its quote, and has counted the line
ends in front of it. -/
theorem closeString_of_quote {inside rest : List Char}
    (hin : ∀ b ∈ inside, b ≠ '"')
    (h : c.ahead source = inside ++ '"' :: rest) :
    c.closeString source
      = (true, { c with current := c.current + inside.length + 1
                        line := c.line + inside.count '\n' }) := by
  rw [closeString_through hin h]
  refine (closeString_of_some (b := '"') ?_).trans (if_pos rfl)
  rw [peek_eq_head?, ahead_of_append h rfl]
  rfl

/-- A string that is not closed ends with the source: there is no byte that
could stop the loop but the quote. -/
theorem closeString_of_end (h : ∀ b ∈ c.ahead source, b ≠ '"') :
    c.closeString source
      = (false, { c with current := c.current + (c.ahead source).length
                         line := c.line + (c.ahead source).count '\n' }) := by
  have hall : c.ahead source = c.ahead source ++ [] := (List.append_nil _).symm
  rw [closeString_through h hall]
  apply closeString_of_none
  rw [peek_eq_head?, ahead_of_append hall rfl]
  rfl

/-- Passing over the rest of a number goes as far as the number: through the
digits, and through a point and the digits behind it if there is one. The
cursor asks for a digit with a look two bytes ahead, and `numberRest` by the
length of the fraction; both ask the same. -/
theorem skipNumber_eq (c : Cursor) :
    c.skipNumber source
      = { c with current := c.current + numberRest (c.ahead source) } := by
  have hdigits : c.skipWhile source Char.isDigit = _ :=
    skipWhile_eq Char.isDigit c
  have hsplit := (List.takeWhile_append_dropWhile (p := Char.isDigit)
    (l := c.ahead source)).symm
  -- what is ahead behind the first digits
  have hrest : (c.skipWhile source Char.isDigit).ahead source
      = (c.ahead source).dropWhile Char.isDigit := by
    rw [hdigits]
    exact ahead_of_append hsplit rfl
  unfold skipNumber
  dsimp only
  -- a point with a digit behind, a point without one, and no point
  by_cases hpoint : ((c.ahead source).dropWhile Char.isDigit).head? = some '.'
  · obtain ⟨after, hafter⟩ := List.head?_eq_some_iff.1 hpoint
    rw [hafter] at hrest
    rw [numberRest_of_point hafter, peekNext_eq hrest, peek_eq_head?, hrest]
    by_cases hnext : after.head?.any Char.isDigit = true
    · obtain ⟨d, hd, hdigit⟩ := (Option.any_eq_true _ _).1 hnext
      obtain ⟨more, rfl⟩ := List.head?_eq_some_iff.1 hd
      rw [if_pos ⟨rfl, hnext⟩, skipWhile_eq, ahead_skip hrest, hdigits,
        List.takeWhile_cons_of_pos hdigit, List.length_cons,
        if_neg (Nat.succ_ne_zero _)]
      simp only [skip, Cursor.mk.injEq, and_self, and_true, true_and]
      omega
    · have hnone : (after.takeWhile Char.isDigit).length = 0 := by
        cases after with
        | nil => rfl
        | cons d more =>
            have hd : ¬ d.isDigit = true := hnext
            rw [List.takeWhile_cons_of_neg hd, List.length_nil]
      rw [if_neg fun h => hnext h.2, if_pos hnone, hdigits]
  · rw [numberRest_of_no_point hpoint, peek_eq_head?, hrest,
      if_neg fun h => hpoint h.1, hdigits]

end Ahead

end Cursor

end LoxLexer
