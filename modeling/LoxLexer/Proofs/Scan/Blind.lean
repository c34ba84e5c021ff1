/-
A scan does not tell apart the characters that the language does not know.
Such a character is part of a string or a comment, or it is a stray, and
which one it is makes no difference. So to put others of them in their places
changes nothing in a scan but these characters themselves, in the strings and
the reports (`scan_map`), however many bytes the one and the other have.

The proof is on the pieces: every rule allows the changed text just where it
allows the text (`Fits.map`), and what stops still stops (`Stops.map`), since
all that a rule asks of a character is whether it is one of those known.
-/
import LoxLexer.Proofs.Scan.Basic
import LoxLexer.Proofs.Diagnostics.Machine

namespace LoxLexer

-- ===================================================== known characters

/-- The characters that the language knows: what code is written with, quotes
and slashes. -/
def isKnown (c : Char) : Bool := isPlain c || c == '"' || c == '/'

/-- They are just the ones that are no strays. So the set that the language
knows is not one more table, but what the rules begin with. -/
theorem starts_iff_isKnown {c : Char} : Starts c ↔ isKnown c = true := by
  simp only [starts_iff_plain, isKnown, Bool.or_eq_true, beq_iff_eq]
  tauto

/-- Whether a function on characters keeps the known ones, and turns the others
into others. -/
structure KeepsKnown (f : Char → Char) : Prop where
  known : ∀ c, isKnown c = true → f c = c
  unknown : ∀ c, isKnown c = false → isKnown (f c) = false

namespace KeepsKnown

variable {f : Char → Char} (hf : KeepsKnown f)

include hf

/-- Only a known character is turned into it. -/
theorem eq_iff {a : Char} (ha : isKnown a = true) {c : Char} :
    f c = a ↔ c = a := by
  constructor
  · intro h
    cases hc : isKnown c with
    | true => rw [← hf.known c hc, h]
    | false =>
        have hnot := hf.unknown c hc
        rw [h, ha] at hnot
        cases hnot
  · rintro rfl
    exact hf.known c ha

/-- A class of known characters is kept. Digits and parts of words are such
classes, and so is what starts a text. -/
theorem class_eq {p : Char → Bool} (hp : ∀ c, p c = true → isKnown c = true)
    (c : Char) : p (f c) = p c := by
  cases hc : isKnown c with
  | true => rw [hf.known c hc]
  | false =>
      have hnone : ∀ d, isKnown d = false → p d = false := by
        intro d hd
        rw [Bool.eq_false_iff]
        intro hpd
        rw [hp d hpd] at hd
        cases hd
      rw [hnone c hc, hnone (f c) (hf.unknown c hc)]

theorem isDigit_eq (c : Char) : (f c).isDigit = c.isDigit :=
  hf.class_eq (fun _ h => starts_iff_isKnown.1 (starts_iff.2 (.number h))) c

theorem isWordPart_eq (c : Char) : isWordPart (f c) = isWordPart c :=
  hf.class_eq (fun _ h => starts_iff_isKnown.1
    (starts_iff_plain.2 (Or.inr (Or.inr (plain_of_isWordPart h))))) c

theorem starts_iff (c : Char) : Starts (f c) ↔ Starts c := by
  rw [starts_iff_isKnown, starts_iff_isKnown, hf.class_eq (fun _ h => h)]

/-- A text of known characters is kept. -/
theorem map_eq {text : List Char} (h : ∀ c ∈ text, isKnown c = true) :
    text.map f = text := by
  conv_rhs => rw [← List.map_id text]
  exact List.map_congr_left fun c hc => hf.known c (h c hc)

/-- A known character stands in front just where it did. -/
theorem head?_map_iff {a : Char} (ha : isKnown a = true) {text : List Char} :
    (text.map f).head? = some a ↔ text.head? = some a := by
  cases text with
  | nil => exact Iff.rfl
  | cons c text =>
      rw [List.map_cons, List.head?_cons, List.head?_cons, Option.some.injEq,
        Option.some.injEq, hf.eq_iff ha]

/-- A known character stands in the text just where it did. -/
theorem mem_map_iff {a : Char} (ha : isKnown a = true) {text : List Char} :
    a ∈ text.map f ↔ a ∈ text := by
  rw [List.mem_map]
  constructor
  · rintro ⟨c, hc, hfc⟩
    rw [← (hf.eq_iff ha).1 hfc]
    exact hc
  · exact fun h => ⟨a, h, hf.known a ha⟩

/-- A known character is there as often as before. -/
theorem count_map {a : Char} (ha : isKnown a = true) (text : List Char) :
    (text.map f).count a = text.count a := by
  induction text with
  | nil => rfl
  | cons c text ih =>
      have hc : (f c == a) = (c == a) := by
        rw [Bool.eq_iff_iff, beq_iff_eq, beq_iff_eq, hf.eq_iff ha]
      rw [List.map_cons, List.count_cons, List.count_cons, ih, hc]

end KeepsKnown

/-- What a text of a rule other than a string, a comment or a stray is written
with is known. Such a text is not changed at all, and this settles six of the
nine rules. -/
theorem isKnown_of_fits {rule : Rule} {text after : List Char}
    (h : Fits rule text after) (hcomment : rule ≠ .comment)
    (hstring : rule ≠ .string) (hopen : rule ≠ .openString)
    (hstray : rule ≠ .stray) : ∀ c ∈ text, isKnown c = true := by
  have hplain : ∀ c, isPlain c = true → isKnown c = true := by
    intro c hc
    rw [isKnown, hc, Bool.true_or, Bool.true_or]
  cases rule with
  | comment => exact absurd rfl hcomment
  | string => exact absurd rfl hstring
  | openString => exact absurd rfl hopen
  | stray => exact absurd rfl hstray
  | number =>
      intro c hc
      rcases h.isDigit_or_point c hc with hdigit | rfl
      · exact hplain c (plain_of_isDigit hdigit)
      · rfl
  | word => exact fun c hc => hplain c (plain_of_isWordPart (h.isWordPart c hc))
  | operator o =>
      cases h with
      | regular h =>
          cases h
          apply List.all_eq_true.1
          cases o
          all_goals rfl
  | blank =>
      cases h with
      | regular h =>
          cases h with
          | blank _ hc =>
              rw [List.forall_mem_singleton]
              rcases hc with rfl | rfl | rfl
              all_goals rfl
  | newline =>
      cases h with
      | regular h =>
          cases h
          exact List.forall_mem_singleton.2 rfl

-- ==================================================== the pieces changed

section Map

variable {f : Char → Char} {rule : Rule} {text after : List Char}

/-- What a rule allows, it allows with other unknown characters. In comments
and strings only a line end or a quote is excluded, and a stray only has to
stay unknown. -/
theorem Fits.map (h : Fits rule text after) (hf : KeepsKnown f) :
    Fits rule (text.map f) (after.map f) := by
  -- what does not stand in a text does not come into it
  have hnone : ∀ {a : Char}, isKnown a = true → ∀ {inside : List Char},
      (∀ c ∈ inside, c ≠ a) → ∀ c ∈ inside.map f, c ≠ a := by
    rintro a ha inside hin c hc rfl
    exact hin c ((hf.mem_map_iff ha).1 hc) rfl
  by_cases hkeep : rule ≠ .comment ∧ rule ≠ .string ∧ rule ≠ .openString
      ∧ rule ≠ .stray
  case pos =>
    rw [hf.map_eq (isKnown_of_fits h hkeep.1 hkeep.2.1 hkeep.2.2.1 hkeep.2.2.2)]
    exact h.of_after hkeep.2.2.1 _
  case neg =>
    cases h with
    | @stray c _ hstray =>
        exact .stray _ fun hstarts => hstray ((hf.starts_iff c).1 hstarts)
    | regular h =>
        apply Fits.regular
        cases h with
        | comment _ hin =>
            rw [List.map_cons, List.map_cons, hf.known '/' rfl]
            exact .comment _ (hnone rfl hin)
        | string _ hin =>
            rw [List.map_cons, List.map_append, List.map_singleton,
              hf.known '"' rfl]
            exact .string _ (hnone rfl hin)
        | openString hin =>
            rw [List.map_cons, hf.known '"' rfl]
            exact .openString (hnone rfl hin)
        | operator | blank | newline | whole | fraction | word =>
            exact absurd (by simp) hkeep

/-- A class of known characters does not stand in front where it did not. -/
private theorem class_map {p : Char → Bool} (hp : ∀ c, p (f c) = p c)
    (h : ∀ c, after.head? = some c → p c = false) :
    ∀ c, (after.map f).head? = some c → p c = false := by
  intro c hc
  rw [List.head?_map, Option.map_eq_some_iff] at hc
  obtain ⟨d, hd, rfl⟩ := hc
  rw [hp, h d hd]

/-- What stops, stops with other unknown characters: whatever is asked about is
a known character or a class of them. -/
theorem Stops.map (h : Stops rule text after) (hf : KeepsKnown f) :
    Stops rule (text.map f) (after.map f) := by
  cases rule with
  | operator o =>
      exact ⟨fun ho hc => h.1 ho ((hf.head?_map_iff rfl).1 hc),
        fun hc => h.2 ((hf.head?_map_iff rfl).1 hc)⟩
  | comment =>
      intro c hc
      rw [List.head?_map, Option.map_eq_some_iff] at hc
      obtain ⟨d, hd, rfl⟩ := hc
      rw [h d hd]
      exact hf.known '\n' rfl
  | openString =>
      obtain rfl : after = [] := h
      rfl
  | number =>
      refine ⟨class_map hf.isDigit_eq h.1, ?_⟩
      intro hwhole c rest hafter
      -- the point and what is behind it come from characters that stood there
      obtain ⟨d, behind, rfl, hd, hbehind⟩ := List.map_eq_cons_iff.1 hafter
      obtain ⟨e, more, rfl, rfl, -⟩ := List.map_eq_cons_iff.1 hbehind
      obtain rfl := (hf.eq_iff (a := '.') rfl).1 hd
      rw [hf.isDigit_eq]
      exact h.2 (fun hmem => hwhole ((hf.mem_map_iff rfl).2 hmem)) e more rfl
  | word => exact class_map hf.isWordPart_eq h
  | blank | newline | string | stray => exact trivial

end Map

-- ===================================================== the scan changed

/-- A fault with the character changed that is reported. -/
def Fault.map (f : Char → Char) : Fault → Fault
  | .unexpectedCharacter c => .unexpectedCharacter (f c)
  | .unterminatedString => .unterminatedString

def Diagnostic.map (f : Char → Char) (d : Diagnostic) : Diagnostic :=
  { d with fault := d.fault.map f }

/-- A piece with its characters changed. -/
def Piece.map (f : Char → Char) (p : Piece) : Piece where
  rule := p.rule
  text := p.text.map f

theorem map_ofList (f : Char → Char) (text : List Char) :
    String.map f (String.ofList text) = String.ofList (text.map f) := by
  rw [← String.toList_inj, String.toList_map, String.toList_ofList,
    String.toList_ofList]

section Pieces

variable {f : Char → Char} (hf : KeepsKnown f) {p : Piece} {after : List Char}

include hf

theorem Piece.newlines_map (p : Piece) : (p.map f).newlines = p.newlines :=
  hf.count_map rfl p.text

/-- The token of a changed piece is the changed token: only a string has
characters that change. -/
theorem Piece.token?_map (hfits : Fits p.rule p.text after) (line : Nat) :
    (p.map f).token? line
      = (p.token? line).map (Token.mapText (String.map f)) := by
  refine Piece.token?_mapText (map_ofList f) ?_ ?_ line
  · intro hcomment hstring hopen hstray
    exact hf.map_eq (isKnown_of_fits hfits hcomment hstring hopen hstray)
  · intro _
    rw [← List.map_tail, ← List.map_dropLast]
    rfl

/-- The diagnostic of a changed piece names the changed character. -/
theorem Piece.diagnostic?_map (p : Piece) (line : Nat) :
    (p.map f).diagnostic? line = (p.diagnostic? line).map (Diagnostic.map f) := by
  have hlines := Piece.newlines_map hf p
  obtain ⟨rule, text⟩ := p
  cases rule with
  | stray =>
      show (text.map f).head?.map _ = _
      rw [List.head?_map]
      cases text with
      | nil => rfl
      | cons c text => rfl
  | openString =>
      show some (Diagnostic.mk _ (line + Piece.newlines (Piece.map f _))) = _
      rw [hlines]
      rfl
  | operator | comment | blank | newline | string | number | word => rfl

/-- With other unknown characters, a text gives what it gave, with these in
the places of those. The induction takes the pieces of the text, and each is
the longest beginning of the changed text as well. -/
theorem scanFrom_map (text : List Char) : ∀ line,
    scanFrom line (text.map f)
      = (scanFrom line text).map (Token.mapText (String.map f))
          (Diagnostic.map f) := by
  induction text using text_induction with
  | nil =>
      intro line
      rw [List.map_nil, scanFrom_nil, Scan.map, List.map_singleton,
        Token.mapText_eof (map_ofList f [])]
      rfl
  | append p after hne hlong ih =>
      intro line
      have hlonger : Longest (p.map f).rule (p.map f).text (after.map f) :=
        (hlong.1.map hf).longest_of_stops (hlong.stops.map hf)
      have hne' : (p.map f).text ≠ [] := by simpa [Piece.map] using hne
      rw [List.map_append, scanFrom_append hne hlong]
      show scanFrom line ((p.map f).text ++ after.map f) = _
      rw [scanFrom_append hne' hlonger, Piece.newlines_map hf, ih]
      exact Piece.before_map (Piece.token?_map hf hlong.1 line)
        (Piece.diagnostic?_map hf p line) _

end Pieces

/-- A source with other characters in the places of those that the language
does not know is scanned as the source is, with these characters changed in
the tokens and in the reports, and nothing else. -/
theorem scan_map {f : Char → Char} (hf : KeepsKnown f) (source : String) :
    (scan (source.map f)).tokens
        = (scan source).tokens.map (Token.mapText (String.map f))
      ∧ (scan (source.map f)).errors
        = (scan source).errors.map (Diagnostic.map f) := by
  rw [scan_eq_scanFrom, String.toList_map, scanFrom_map hf, scan_eq_scanFrom]
  exact ⟨rfl, rfl⟩

/-- An accented letter of two bytes turned into one of four, and a mark of one
byte into the letter. -/
theorem scan_map_accent :
    (KeepsKnown fun c => if c = 'é' then '𝔢' else if c = '#' then 'é' else c)
      ∧ (scan "\"𝔢/é\" é1.𝔢//𝔢\né").tokens
        = (scan "\"é/#\" #1.é//é\n#").tokens.map (Token.mapText (String.map
            fun c => if c = 'é' then '𝔢' else if c = '#' then 'é' else c))
      ∧ (scan "\"𝔢/é\" é1.𝔢//𝔢\né").errors
        = (scan "\"é/#\" #1.é//é\n#").errors.map (Diagnostic.map
            fun c => if c = 'é' then '𝔢' else if c = '#' then 'é' else c) := by
  have hf : KeepsKnown
      fun c => if c = 'é' then '𝔢' else if c = '#' then 'é' else c := by
    constructor
    · intro c hc
      have hletter : c ≠ 'é' := by
        rintro rfl
        exact absurd hc (by decide)
      have hmark : c ≠ '#' := by
        rintro rfl
        exact absurd hc (by decide)
      rw [if_neg hletter, if_neg hmark]
    · intro c hc
      split
      · decide
      · split
        · decide
        · exact hc
  have htext : "\"𝔢/é\" é1.𝔢//𝔢\né" = String.map
      (fun c => if c = 'é' then '𝔢' else if c = '#' then 'é' else c)
        "\"é/#\" #1.é//é\n#" := by
    decide +kernel
  rw [htext]
  exact ⟨hf, scan_map hf _⟩

end LoxLexer
