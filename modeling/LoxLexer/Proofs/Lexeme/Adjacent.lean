/-
Lexemes with nothing between them. Some neighbours are not read as they were
written, because the first goes on into the second; `Clash` lists them all.

# Where a lexeme goes on

A lexeme is read as it is written just when it stops in front of the next
(`Apart`). One character of the next lexeme decides that, but for a number
without a point: in front of a point it is the lexeme behind the point that
decides. So the clashes are pairs, and one group of three (`stops_iff`).

# Both directions

Lexemes that stand apart are read one by one (`scanFrom_of_apart`). Turned
round: when the tokens of a text are written as the lexemes are, they leave
none of its characters over, so every piece of the text gives a token and is
one of the lexemes; and as a piece it is the longest beginning, so it stops
(`apart_of_tokens`).
-/
import LoxLexer.Proofs.Lexeme.Basic

namespace LoxLexer

open Lexeme (operator number)

/-- The neighbours that are read as something else. The list is complete: what
is read as written has none of these groups in it, and the other way round
(`scan_adjacent_iff`). -/
inductive Clash : List Lexeme → Prop where
  /-- A word goes on with letters and with digits. -/
  | word {u v : Lexeme} (hu : u.rule = .word)
      (hv : v.rule = .word ∨ v.rule = .number) : Clash [u, v]
  /-- A number goes on with digits. -/
  | number {u v : Lexeme} (hu : u.rule = .number) (hv : v.rule = .number) :
      Clash [u, v]
  /-- Four operators take an equals sign. -/
  | equal {o p : Operator}
      (ho : o = .bang ∨ o = .equal ∨ o = .less ∨ o = .greater)
      (hp : p = .equal ∨ p = .equalEqual) : Clash [operator o, operator p]
  /-- Two slashes are a comment. -/
  | slash : Clash [operator .slash, operator .slash]
  /-- A number without a point takes a point with digits behind it. -/
  | point {whole : Digits} {v : Lexeme} (hv : v.rule = .number) :
      Clash [number whole none, operator .dot, v]

/-- Whether each lexeme stops in front of those behind it. -/
def Apart : List Lexeme → Prop
  | [] => True
  | u :: rest => Stops u.rule u.text (rest.flatMap Lexeme.text) ∧ Apart rest

-- ============================================== what a lexeme begins with

namespace Lexeme

/-- What begins as an operator does is one, and of two characters only if the
second is an equals sign. So from a slash, a point or an equals sign behind a
lexeme the next lexeme is known. -/
theorem operator_of_begins {u : Lexeme} {c : Char} {p : Operator}
    (hp : Operator.ofSpelling? [c] = some p) (h : Begins c u) :
    ∃ o, u = operator o ∧ (Operator.ofSpelling? [c] = some o
      ∨ Operator.ofSpelling? [c, '='] = some o) := by
  obtain ⟨-, -, hword, hdigit, hquote⟩ := not_gap_of_ofSpelling? hp
  cases h with
  | @operator o hhead =>
      refine ⟨o, rfl, ?_⟩
      rw [Operator.ofSpelling?_eq_some_iff, Operator.ofSpelling?_eq_some_iff]
      rcases o.spelling_eq with ⟨e, he⟩ | ⟨e, he⟩
      · rw [he] at hhead ⊢
        cases hhead
        exact Or.inl rfl
      · rw [he] at hhead ⊢
        cases hhead
        exact Or.inr rfl
  | string hc => exact absurd hc hquote
  | number hc =>
      rw [hdigit] at hc
      cases hc
  | word hc =>
      rw [hword] at hc
      cases hc

/-- Four operators take an equals sign, and no other does. -/
theorem ofSpelling?_equal_iff (o : Operator) :
    Operator.ofSpelling? (o.spelling ++ ['=']) ≠ none
      ↔ o = .bang ∨ o = .equal ∨ o = .less ∨ o = .greater := by
  cases o
  all_goals decide

/-- A text of lexemes begins as the first of them does. -/
theorem exists_begins_flatMap (u : Lexeme) (more : List Lexeme) :
    ∃ c behind, (u :: more).flatMap text = c :: behind ∧ Begins c u := by
  obtain ⟨c, behind, hc, hbegins⟩ := u.exists_begins
  refine ⟨c, behind ++ more.flatMap text, ?_, hbegins⟩
  rw [List.flatMap_cons, hc, List.cons_append]

/-- What lexemes begin with, the first of them begins with. -/
theorem begins_of_flatMap {units : List Lexeme} {c : Char} {rest : List Char}
    (h : units.flatMap text = c :: rest) :
    ∃ u more behind, units = u :: more ∧ Begins c u ∧ u.text = c :: behind
      ∧ behind ++ more.flatMap text = rest := by
  cases units with
  | nil => cases h
  | cons u more =>
      obtain ⟨d, behind, hd, hbegins⟩ := u.exists_begins
      rw [List.flatMap_cons, hd, List.cons_append] at h
      obtain ⟨rfl, hrest⟩ := List.cons.inj h
      exact ⟨u, more, behind, rfl, hbegins, hd, hrest⟩

end Lexeme

-- ========================================================= no clash, apart

open Lexeme (Begins)

/-- A number without a point has only digits. -/
private theorem not_mem_point {whole : Digits} : '.' ∉ whole.chars := by
  intro h
  exact absurd (whole.digits '.' h) (by decide)

/-- A lexeme that begins no clash stops. The cases are those of what it could
go on with; in each the character behind it tells which lexeme comes next, and
the two, or the three, are a clash. -/
private theorem stops_of_no_clash {u : Lexeme} {rest : List Lexeme}
    (h : ∀ group, Clash group → ¬ group <+: u :: rest) :
    Stops u.rule u.text (rest.flatMap Lexeme.text) := by
  -- what stands behind, by the first character of it
  have hpair : ∀ c, (rest.flatMap Lexeme.text).head? = some c →
      ∃ v more, rest = v :: more ∧ Begins c v ∧ ¬ Clash [u, v] := by
    intro c hc
    obtain ⟨tail, htail⟩ := List.head?_eq_some_iff.1 hc
    obtain ⟨v, more, _, rfl, hbegins, -, -⟩ := Lexeme.begins_of_flatMap htail
    exact ⟨v, more, rfl, hbegins, fun hclash => h _ hclash ⟨more, rfl⟩⟩
  cases u with
  | string => exact trivial
  | word =>
      intro c hc
      obtain ⟨v, more, -, hbegins, hclash⟩ := hpair c hc
      rw [Bool.eq_false_iff, Ne, hbegins.isWordPart_iff]
      exact fun hv => hclash (.word rfl hv)
  | number whole places =>
      refine ⟨?_, ?_⟩
      · intro c hc
        obtain ⟨v, more, -, hbegins, hclash⟩ := hpair c hc
        rw [Bool.eq_false_iff, Ne, hbegins.isDigit_iff]
        exact fun hv => hclash (.number rfl hv)
      · intro hpoint c behind hafter
        cases places with
        | some places => exact absurd (by simp [Lexeme.text]) hpoint
        | none =>
            -- the point is a lexeme by itself, for no longer operator begins
            -- with one, and the digit begins the lexeme behind it
            obtain ⟨v, more, inner, rfl, hdot, hv, hmore⟩ :=
              Lexeme.begins_of_flatMap hafter
            obtain ⟨o, rfl, ho | ho⟩ :=
              Lexeme.operator_of_begins (p := .dot) rfl hdot
            all_goals cases ho
            cases hv
            obtain ⟨w, more, _, rfl, hbegins, -, -⟩ :=
              Lexeme.begins_of_flatMap hmore
            rw [Bool.eq_false_iff, Ne, hbegins.isDigit_iff]
            exact fun hw => h _ (.point hw) ⟨more, rfl⟩
  | operator o =>
      refine ⟨?_, ?_⟩
      · rintro rfl hc
        obtain ⟨v, more, -, hbegins, hclash⟩ := hpair '/' hc
        obtain ⟨o, rfl, ho | ho⟩ :=
          Lexeme.operator_of_begins (p := .slash) rfl hbegins
        all_goals cases ho
        exact hclash .slash
      · intro hc
        obtain ⟨v, more, -, hbegins, hclash⟩ := hpair '=' hc
        refine Decidable.byContradiction fun hsome => ?_
        have ho := (Lexeme.ofSpelling?_equal_iff o).1 hsome
        obtain ⟨p, rfl, hp | hp⟩ :=
          Lexeme.operator_of_begins (p := .equal) rfl hbegins
        · cases hp
          exact hclash (.equal ho (Or.inl rfl))
        · cases hp
          exact hclash (.equal ho (Or.inr rfl))

/-- A lexeme that begins a clash goes on. One case for each clash: the first
character of the next lexeme is one that must not follow. -/
private theorem not_stops_of_clash {group : List Lexeme} (h : Clash group)
    {u : Lexeme} {rest : List Lexeme} (hgroup : group <+: u :: rest) :
    ¬ Stops u.rule u.text (rest.flatMap Lexeme.text) := by
  obtain ⟨more, hmore⟩ := hgroup
  intro hstops
  cases h with
  | @word _ v hu hv =>
      rw [List.cons_append, List.singleton_append] at hmore
      obtain ⟨rfl, rfl⟩ := List.cons.inj hmore
      obtain ⟨c, behind, hc, hbegins⟩ := v.exists_begins_flatMap more
      rw [hu, hc] at hstops
      have hnot := hstops c rfl
      rw [hbegins.isWordPart_iff.2 hv] at hnot
      cases hnot
  | @number _ v hu hv =>
      rw [List.cons_append, List.singleton_append] at hmore
      obtain ⟨rfl, rfl⟩ := List.cons.inj hmore
      obtain ⟨c, behind, hc, hbegins⟩ := v.exists_begins_flatMap more
      rw [hu, hc] at hstops
      have hnot := hstops.1 c rfl
      rw [hbegins.isDigit_iff.2 hv] at hnot
      cases hnot
  | @equal o p ho hp =>
      obtain ⟨rfl, rfl⟩ := List.cons.inj hmore
      refine (Lexeme.ofSpelling?_equal_iff o).2 ho (hstops.2 ?_)
      rcases hp with rfl | rfl
      all_goals rfl
  | slash =>
      obtain ⟨rfl, rfl⟩ := List.cons.inj hmore
      exact hstops.1 rfl rfl
  | @point whole v hv =>
      rw [List.cons_append, List.cons_append, List.singleton_append] at hmore
      obtain ⟨rfl, rfl⟩ := List.cons.inj hmore
      obtain ⟨c, behind, hc, hbegins⟩ := v.exists_begins_flatMap more
      have hafter : (operator .dot :: v :: more).flatMap Lexeme.text
          = '.' :: c :: behind := congrArg ('.' :: ·) hc
      have hnot := hstops.2 not_mem_point _ _ hafter
      rw [hbegins.isDigit_iff.2 hv] at hnot
      cases hnot

/-- A lexeme stops in front of others just when it begins no clash with
them. -/
theorem stops_iff (u : Lexeme) (rest : List Lexeme) :
    Stops u.rule u.text (rest.flatMap Lexeme.text)
      ↔ ∀ group, Clash group → ¬ group <+: u :: rest :=
  ⟨fun h _ hclash hgroup => not_stops_of_clash hclash hgroup h,
    stops_of_no_clash⟩

/-- Lexemes stand apart just when no clash occurs among them. A group among them
begins at one of them, and there it is in front of all that follow. -/
theorem apart_iff (units : List Lexeme) :
    Apart units ↔ ∀ group, Clash group → ¬ group <:+: units := by
  induction units with
  | nil =>
      refine ⟨fun _ group hclash hgroup => ?_, fun _ => trivial⟩
      rw [List.infix_nil] at hgroup
      subst hgroup
      cases hclash
  | cons u rest ih =>
      rw [Apart, stops_iff, ih]
      constructor
      · rintro ⟨hfront, hrest⟩ group hclash hgroup
        rcases List.infix_cons_iff.1 hgroup with hgroup | hgroup
        · exact hfront group hclash hgroup
        · exact hrest group hclash hgroup
      · intro h
        exact ⟨fun group hclash hgroup => h group hclash hgroup.isInfix,
          fun group hclash hgroup =>
            h group hclash (List.infix_cons_iff.2 (Or.inr hgroup))⟩

-- ======================================================= apart, so as written

/-- Lexemes that stand apart are read as they are written, one after the other
from the front. -/
theorem scanFrom_of_apart {units : List Lexeme} (h : Apart units) : ∀ line,
    (scanFrom line (units.flatMap Lexeme.text)).errors = []
      ∧ (scanFrom line (units.flatMap Lexeme.text)).tokens.map
            (fun t => (t.kind, t.lexeme))
          = units.map (fun u => (u.kind, String.ofList u.text))
            ++ [(.endOfInput, "")] := by
  induction units with
  | nil =>
      intro line
      rw [List.flatMap_nil, scanFrom_nil]
      exact ⟨rfl, rfl⟩
  | cons u rest ih =>
      intro line
      obtain ⟨herrors, htokens⟩ := ih h.2 (line + u.text.count '\n')
      rw [List.flatMap_cons, u.scanFrom_text h.1]
      exact ⟨herrors, congrArg _ htokens⟩

-- ======================================================= as written, so apart

/-- The tokens of a text are written with no more characters than it has: each
with those of its piece. -/
private theorem sum_length_tokensFrom_le {cut : List Piece} {text : List Char}
    (h : Cut cut text) : ∀ line,
    ((tokensFrom line cut).map fun t => t.lexeme.length).sum ≤ text.length := by
  induction h with
  | done => exact fun _ => Nat.le_refl 0
  | @next p cut after _ _ _ ih =>
      intro line
      have hrest := ih (line + p.newlines)
      rw [tokensFrom, List.map_append, List.sum_append, List.length_append]
      cases hp : p.token? line with
      | none =>
          rw [Option.toList_none, List.map_nil, List.sum_nil]
          omega
      | some t =>
          rw [Option.toList_some, List.map_singleton, List.sum_singleton,
            (Piece.eq_of_token? hp).1, String.length_ofList]
          omega

/-- Where the tokens of a text are written as the lexemes are, each of the
lexemes is a piece of the text, so they stand apart. The induction is on the
cut, and the lexemes are taken off with the pieces: there is no piece between
them, as the tokens already have all characters of the text. -/
theorem apart_of_tokens {cut : List Piece} {text : List Char}
    (h : Cut cut text) : ∀ {units : List Lexeme} {line : Nat},
    units.flatMap Lexeme.text = text →
      (tokensFrom line cut).map Token.lexeme
          = units.map (fun u => String.ofList u.text) →
        Apart units := by
  induction h with
  | done =>
      intro units line _ htokens
      cases units with
      | nil => exact trivial
      | cons u rest => cases htokens
  | @next p cut after hne hlong hcut ih =>
      intro units line htext htokens
      rw [tokensFrom, List.map_append] at htokens
      cases hp : p.token? line with
      | none =>
          -- this piece leaves the others too few characters for the lexemes
          rw [hp, Option.toList_none, List.map_nil, List.nil_append] at htokens
          have hle := sum_length_tokensFrom_le hcut (line + p.newlines)
          have hsum := congrArg (fun l => (l.map String.length).sum) htokens
          have hlen := congrArg List.length htext
          have hpos := List.length_pos_iff.2 hne
          simp only [List.map_map, Function.comp_def, String.length_ofList]
            at hsum
          rw [List.length_flatMap, List.length_append] at hlen
          omega
      | some t =>
          rw [hp, Option.toList_some, List.map_singleton,
            (Piece.eq_of_token? hp).1] at htokens
          cases units with
          | nil => cases htokens
          | cons u rest =>
              obtain ⟨hfirst, hrest⟩ := List.cons.inj htokens
              have hpiece : p.text = u.text := by
                rw [← String.toList_ofList (l := p.text), hfirst,
                  String.toList_ofList]
              rw [List.flatMap_cons, hpiece] at htext
              have hafter := List.append_cancel_left htext
              -- as a piece the lexeme is the longest that any rule allows
              have hlongest : Longest u.rule u.text after :=
                ⟨u.fits after, hpiece ▸ hlong.2⟩
              refine ⟨?_, ih hafter hrest⟩
              rw [hafter]
              exact hlongest.stops

/-- Lexemes written one after the other with nothing between them are read as
they are written, and nothing is found wrong, just when no clash occurs among
them. The kind of a lexeme is that of a reserved word just when it is written
as that word. -/
theorem scan_adjacent_iff (units : List Lexeme) :
    (((scan (String.ofList (units.flatMap Lexeme.text))).errors = []
      ∧ (scan (String.ofList (units.flatMap Lexeme.text))).tokens.map
            (fun t => (t.kind, t.lexeme))
          = units.map (fun u => (u.kind, String.ofList u.text))
            ++ [(.endOfInput, "")])
      ↔ ¬ ∃ group, Clash group ∧ group <:+: units)
      ∧ (∀ (u : Lexeme) (k : Keyword),
          u.kind = .keyword k ↔ String.ofList u.text = k.text) := by
  have hapart : (¬ ∃ group, Clash group ∧ group <:+: units) ↔ Apart units := by
    rw [apart_iff]
    simp only [not_exists, not_and]
  refine ⟨?_, Lexeme.kind_eq_keyword_iff⟩
  rw [hapart, scan_eq_scanFrom, String.toList_ofList]
  refine ⟨fun h => ?_, fun h => scanFrom_of_apart h 1⟩
  have htokens := congrArg (List.map Prod.snd) h.2
  simp only [scanFrom, List.map_append, List.map_map, List.map_singleton]
    at htokens
  exact apart_of_tokens (cut_pieces _) rfl (List.append_cancel_right htokens)

end LoxLexer
