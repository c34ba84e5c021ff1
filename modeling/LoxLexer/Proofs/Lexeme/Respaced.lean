/-
The tokens of a source, written down again with gaps between them, and read
once more. Whatever the source was, each of its tokens was read from a lexeme
(`fromLexeme_of_token?`), and a lexeme is read as it is written wherever a
gap or nothing follows it. So any of the tokens, in their order and with any
gaps between them, are read again with their kinds, lexemes and values, and
nothing is found wrong (`scanFrom_respaced`).

A single token needs no gap at all. So its kind and its value can be read off
its lexeme, and two tokens with the same lexeme differ only in their place,
whatever stood around them in their sources.
-/
import LoxLexer.Proofs.Lexeme.Basic

namespace LoxLexer

-- ============================================= tokens are read from lexemes

/-- The digits of a number that its rule allows. -/
private def digitsOf (first : Char) (rest : List Char)
    (hfirst : first.isDigit = true) (hrest : ∀ c ∈ rest, c.isDigit = true) :
    Digits where
  chars := first :: rest
  ne_nil := List.cons_ne_nil _ _
  digits := List.forall_mem_cons.2 ⟨hfirst, hrest⟩

/-- Whether a token is one that a lexeme stands for on some line. -/
def Token.FromLexeme (t : Token) : Prop :=
  ∃ (u : Lexeme) (line : Nat), t = u.token line

/-- A piece that gives a token is a lexeme: the conditions that its rule asks
for are those that a lexeme carries. -/
theorem fromLexeme_of_token? {p : Piece} {after : List Char} {line : Nat}
    {t : Token} (hfits : Fits p.rule p.text after)
    (h : p.token? line = some t) : t.FromLexeme := by
  -- it is enough to find the lexeme, as its token is known
  suffices hpiece : ∃ u : Lexeme, u.piece = p by
    obtain ⟨u, rfl⟩ := hpiece
    rw [Lexeme.token?_piece, Option.some.injEq] at h
    exact ⟨u, line, h.symm⟩
  obtain ⟨rule, text⟩ := p
  dsimp only at hfits
  cases hfits with
  | stray => cases h
  | regular hregular =>
      cases hregular with
      | operator o => exact ⟨.operator o, rfl⟩
      | string _ hin => exact ⟨.string _ hin, rfl⟩
      | whole _ hfirst hdigits =>
          exact ⟨.number (digitsOf _ _ hfirst hdigits) none, rfl⟩
      | fraction _ hfirst hdigits hnext hplaces =>
          exact ⟨.number (digitsOf _ _ hfirst hdigits)
            (some (digitsOf _ _ hnext hplaces)), rfl⟩
      | word _ hfirst hrest => exact ⟨.word _ _ hfirst hrest, rfl⟩
      | comment | blank | newline | openString => cases h

/-- A token of a source is the end of the input, or read from a lexeme. -/
theorem eof_or_fromLexeme {source : String} {t : Token}
    (h : t ∈ (scan source).tokens) :
    (∃ line, t = .eof line) ∨ t.FromLexeme := by
  rcases eof_or_exists_fits h with h | ⟨p, after, line, hfits, ht⟩
  · exact Or.inl h
  · exact Or.inr (fromLexeme_of_token? hfits ht)

/-- A lexeme never stands for the end of the input, which is not written. So
among the tokens of a source the end of the input can be told by its kind. -/
theorem Token.FromLexeme.ne_eof {t : Token} (h : t.FromLexeme) :
    t.kind ≠ .endOfInput ∧ t.lexeme ≠ "" := by
  obtain ⟨u, line, rfl⟩ := h
  constructor
  · cases u with
    | word first rest =>
        show Kind.ofWord _ ≠ _
        unfold Kind.ofWord
        cases Keyword.ofText? _ with
        | none => exact Kind.noConfusion
        | some k => exact Kind.noConfusion
    | operator | string | number => exact Kind.noConfusion
  · show String.ofList u.text ≠ ""
    rw [Ne, String.ofList_eq_empty_iff]
    exact u.text_ne_nil

-- ========================================================== written again

/-- Blanks and line ends, one at least. -/
structure Gap where
  text : List Char
  ne_nil : text ≠ []
  gaps : ∀ c ∈ text, isGap c = true

/-- One space. -/
def Gap.space : Gap where
  text := [' ']
  ne_nil := List.cons_ne_nil _ _
  gaps := List.forall_mem_singleton.2 rfl

/-- The lexemes of some tokens, with gaps between them. The gap that comes
with the last token is left out. -/
def respaced : List (Token × Gap) → List Char
  | [] => []
  | [(t, _)] => t.lexeme.toList
  | (t, w) :: next :: more => t.lexeme.toList ++ (w.text ++ respaced (next :: more))

/-- What a token is apart from its place. Writing the lexeme somewhere else
leaves this as it is; the line is all that can change. -/
def Token.content (t : Token) : Kind × String × Option Literal :=
  (t.kind, t.lexeme, t.literal)

/-- Tokens that are read from lexemes are read again when they are written
with gaps between them. The induction is that of the writing, which has a case
for the last token: there is no gap behind it, and none is needed. -/
theorem scanFrom_respaced {units : List (Token × Gap)}
    (h : ∀ unit ∈ units, unit.1.FromLexeme) :
    ∀ line, (scanFrom line (respaced units)).errors = []
      ∧ (scanFrom line (respaced units)).tokens.map Token.content
        = units.map (fun unit => unit.1.content) ++ [(.endOfInput, "", none)] := by
  induction units using respaced.induct with
  | case1 =>
      intro line
      rw [respaced, scanFrom_nil]
      exact ⟨rfl, rfl⟩
  | case2 t w =>
      intro line
      obtain ⟨u, _, rfl⟩ := h _ List.mem_cons_self
      have hscan := u.scanFrom_text (stops_nil u.rule u.text) line
      rw [List.append_nil, scanFrom_nil] at hscan
      rw [respaced, Lexeme.token, String.toList_ofList, hscan]
      exact ⟨rfl, rfl⟩
  | case3 t w next more ih =>
      intro line
      obtain ⟨u, _, rfl⟩ := h _ List.mem_cons_self
      have hstops : Stops u.rule u.text (w.text ++ respaced (next :: more)) := by
        apply u.stops_of_gap
        intro c hc
        rw [List.head?_append, List.head?_eq_some_head w.ne_nil] at hc
        cases hc
        exact w.gaps _ (List.head_mem w.ne_nil)
      obtain ⟨herrors, htokens⟩ := ih
        (fun unit hunit => h unit (List.mem_cons_of_mem _ hunit))
        (line + u.text.count '\n' + w.text.count '\n')
      rw [respaced, Lexeme.token, String.toList_ofList, u.scanFrom_text hstops,
        scanFrom_spacing (spacing_of_gaps w.gaps)]
      exact ⟨herrors, congrArg _ htokens⟩

/-- Two tokens that are read from lexemes, and written alike, have the same
kind and the same value: both are what is read from the lexeme by itself. -/
theorem Token.FromLexeme.content_eq {t u : Token} (ht : t.FromLexeme)
    (hu : u.FromLexeme) (h : t.lexeme = u.lexeme) : t.content = u.content := by
  have hread : ∀ v : Token, v.FromLexeme →
      (scanFrom 1 v.lexeme.toList).tokens.map Token.content
        = [v.content, (.endOfInput, "", none)] := by
    intro v hv
    have hall : ∀ unit ∈ [(v, Gap.space)], unit.1.FromLexeme :=
      List.forall_mem_singleton.2 hv
    exact (scanFrom_respaced hall 1).2
  have hsame := hread t ht
  rw [h, hread u hu] at hsame
  exact (List.cons.inj hsame).1.symm

/-- Any tokens of a source but the end of the input, in their order and with
any gaps between them, are read again as they were: with their kinds, lexemes
and values, with no token between them, and with nothing wrong. The kind and
the value of a token depend on its lexeme alone. -/
theorem scan_respaced (source : String) :
    (∀ units : List (Token × Gap),
      (units.map Prod.fst).Sublist
          ((scan source).tokens.filter (·.kind ≠ .endOfInput)) →
        (scan (String.ofList (respaced units))).errors = []
          ∧ (scan (String.ofList (respaced units))).tokens.map Token.content
            = units.map (fun unit => unit.1.content)
              ++ [(.endOfInput, "", none)])
      ∧ ∀ (other : String) (t u : Token), t ∈ (scan source).tokens →
          u ∈ (scan other).tokens → t.lexeme = u.lexeme →
            t.kind = u.kind ∧ t.literal = u.literal := by
  refine ⟨fun units hunits => ?_, fun other t u ht hu hlexeme => ?_⟩
  · rw [scan_eq_scanFrom, String.toList_ofList]
    apply scanFrom_respaced
    intro unit hunit
    obtain ⟨hmem, hkind⟩ := List.mem_filter.1
      (hunits.subset (List.mem_map_of_mem hunit))
    -- the end of the input was left out, and the others are lexemes
    rcases eof_or_fromLexeme hmem with ⟨line, heof⟩ | hread
    · rw [heof] at hkind
      cases hkind
    · exact hread
  · rcases eof_or_fromLexeme ht with ⟨line, rfl⟩ | ht
    · rcases eof_or_fromLexeme hu with ⟨line', rfl⟩ | hu
      · exact ⟨rfl, rfl⟩
      · exact absurd hlexeme.symm hu.ne_eof.2
    · rcases eof_or_fromLexeme hu with ⟨line, rfl⟩ | hu
      · exact absurd hlexeme ht.ne_eof.2
      · have hcontent := ht.content_eq hu hlexeme
        exact ⟨congrArg Prod.fst hcontent,
          congrArg (fun content => content.2.2) hcontent⟩

/-- Three of nine tokens, found between a stray and an open string. -/
theorem scan_respaced_three :
    ([⟨.number, "12", some (.number (.ofDecimal ⟨12, 0⟩)), 1⟩,
        ⟨.string, "\"a\n\"", some (.text "a\n"), 1⟩,
        ⟨.operator .dot, ".", none, 2⟩] : List Token).Sublist
      ((scan "12.abs #===\"a\n\"1.2.3 \"open").tokens.filter
        (·.kind ≠ .endOfInput))
      ∧ (scan "12\n\t\"a\n\" .").errors = []
      ∧ (scan "12\n\t\"a\n\" .").tokens.map Token.content
        = [(.number, "12", some (.number (.ofDecimal ⟨12, 0⟩))),
            (.string, "\"a\n\"", some (.text "a\n")),
            (.operator .dot, ".", none), (.endOfInput, "", none)] := by
  have htext : "12\n\t\"a\n\" ." = String.ofList (respaced
      [(⟨.number, "12", some (.number (.ofDecimal ⟨12, 0⟩)), 1⟩,
          ⟨['\n', '\t'], List.cons_ne_nil _ _, List.all_eq_true.1 rfl⟩),
        (⟨.string, "\"a\n\"", some (.text "a\n"), 1⟩, .space),
        (⟨.operator .dot, ".", none, 2⟩, .space)]) := by
    decide +kernel
  refine ⟨by decide +kernel, ?_⟩
  rw [htext]
  exact (scan_respaced "12.abs #===\"a\n\"1.2.3 \"open").1 _
    (by decide +kernel)

end LoxLexer
