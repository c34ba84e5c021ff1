/-
Sources that differ in how their lines end. Some end a line with a carriage
return and a line end, and some with the line end alone. To a scan this makes
no difference but in strings over several lines, which have the line ends in
their text (`scan_unixLineEnds`): the same is wrong, on the same lines, and
the tokens are the same, with their texts rewritten as the source is.

# Carriage returns between two pieces

A rewritten pair may have its line end in one piece and its carriage return in
the piece before. Then that piece is a blank, which is silent and vanishes, or
it is a comment, which is silent too and ends one character earlier
(`scanFrom_unixLines_silent`). No other piece ends with a carriage return, so
the text of any other and what follows it are rewritten one by one, and what
follows begins as it did, or with a line end (`Longest.rewritten`).
-/
import LoxLexer.Proofs.Scan.Basic

namespace LoxLexer

-- ========================================================= the rewriting

/-- A text with the line end alone in the place of each carriage return and
line end. -/
def unixLines : List Char → List Char
  | '\r' :: '\n' :: rest => '\n' :: unixLines rest
  | c :: rest => c :: unixLines rest
  | [] => []

/-- A source with the line end alone in the place of each carriage return and
line end. -/
def unixLineEnds (source : String) : String :=
  String.ofList (unixLines source.toList)

theorem unixLineEnds_ofList (text : List Char) :
    unixLineEnds (String.ofList text) = String.ofList (unixLines text) := by
  rw [unixLineEnds, String.toList_ofList]

/-- A character that is not the carriage return of a pair is kept, and the rest
is rewritten behind it. -/
theorem unixLines_cons {c : Char} {rest : List Char}
    (h : c = '\r' → rest.head? ≠ some '\n') :
    unixLines (c :: rest) = c :: unixLines rest := by
  rw [unixLines]
  intro more hc hrest
  exact h hc (by rw [hrest]; rfl)

/-- The carriage return of a pair is not kept. Its line end may then stand in
front of more: it is not part of another pair. -/
theorem unixLines_pair (rest : List Char) :
    unixLines ('\r' :: '\n' :: rest) = unixLines ('\n' :: rest) := by
  rw [unixLines, unixLines_cons fun h => absurd h (by decide)]

/-- The rewritten text is made of characters of the text. -/
theorem unixLines_sublist (text : List Char) :
    (unixLines text).Sublist text := by
  fun_induction unixLines text with
  | case1 rest ih => exact (ih.cons_cons '\n').cons '\r'
  | case2 c rest _ ih => exact ih.cons_cons c
  | case3 => exact .slnil

/-- It has as many line ends, so all that is placed on a line stays there. -/
theorem count_unixLines (text : List Char) :
    (unixLines text).count '\n' = text.count '\n' := by
  fun_induction unixLines text with
  | case1 rest ih =>
      rw [List.count_cons_self, List.count_cons_of_ne (by decide),
        List.count_cons_self, ih]
  | case2 c rest _ ih => rw [List.count_cons, List.count_cons, ih]
  | case3 => rfl

/-- It begins as the text does, or with a line end: it is quieter than the
text. -/
theorem head?_unixLines (text : List Char) :
    (unixLines text).head? = text.head?
      ∨ (unixLines text).head? = some '\n' := by
  fun_cases unixLines text with
  | case1 rest => exact Or.inr rfl
  | case2 c rest => exact Or.inl rfl
  | case3 => exact Or.inl rfl

theorem quieter_unixLines (text : List Char) :
    Quieter text (unixLines text) := by
  rcases head?_unixLines text with h | h
  · exact .of_head? h
  · apply Quieter.of_gap
    intro c hc
    rw [h] at hc
    cases hc
    rfl

/-- Nothing is left only of nothing, so a rewritten piece is still one. -/
theorem unixLines_ne_nil {text : List Char} (h : text ≠ []) :
    unixLines text ≠ [] := by
  fun_cases unixLines text with
  | case1 rest => exact List.cons_ne_nil _ _
  | case2 c rest => exact List.cons_ne_nil _ _
  | case3 => exact h

/-- There is nothing to rewrite in a text without line ends. -/
theorem unixLines_eq_self {text : List Char} (h : '\n' ∉ text) :
    unixLines text = text := by
  induction text with
  | nil => rfl
  | cons c rest ih =>
      have hrest : '\n' ∉ rest := fun hmem => h (List.mem_cons_of_mem c hmem)
      rw [unixLines_cons fun _ hhead => hrest (List.mem_of_head? hhead), ih hrest]

/-- Two texts are rewritten one by one, if no pair has one half in each. The
induction is that of the rewriting, since a pair takes two characters at
once. -/
theorem unixLines_append {first second : List Char}
    (h : first.getLast? = some '\r' → second.head? ≠ some '\n') :
    unixLines (first ++ second) = unixLines first ++ unixLines second := by
  fun_induction unixLines first with
  | case1 rest ih =>
      have hrest := ih fun hlast => h (by
        rw [List.getLast?_cons, List.getLast?_cons, hlast]
        rfl)
      rw [List.cons_append, List.cons_append, unixLines, hrest, List.cons_append]
  | case2 c rest hpair ih =>
      have hrest := ih fun hlast => h (by
        rw [List.getLast?_cons, hlast]
        rfl)
      have hkeep : c = '\r' → (rest ++ second).head? ≠ some '\n' := by
        intro hc
        cases rest with
        | nil => exact h (by rw [hc]; rfl)
        | cons d rest =>
            intro hd
            cases hd
            exact hpair rest hc rfl
      rw [List.cons_append, unixLines_cons hkeep, hrest, List.cons_append]
  | case3 => rfl

-- ================================================== what is silent

/-- A gap gives nothing, and the carriage return of a pair is not missed: it is
a gap itself, and gives nothing where it stands. -/
theorem scanFrom_unixLines_gap {c : Char} (hc : isGap c = true) (line : Nat)
    (after : List Char) :
    scanFrom line (unixLines (c :: after))
      = scanFrom (line + [c].count '\n') (unixLines after) := by
  by_cases hpair : c = '\r' ∧ after.head? = some '\n'
  · obtain ⟨rfl, hhead⟩ := hpair
    obtain ⟨rest, rfl⟩ := List.head?_eq_some_iff.1 hhead
    rw [unixLines_pair]
    rfl
  · rw [unixLines_cons fun hreturn hhead => hpair ⟨hreturn, hhead⟩,
      scanFrom_gap hc]

/-- In front of a line end, or of the end of the text, a line loses its last
carriage return at most. -/
theorem exists_unixLines_append {inside after : List Char}
    (hin : ∀ c ∈ inside, c ≠ '\n')
    (hend : ∀ c, after.head? = some c → c = '\n') :
    ∃ kept, (∀ c ∈ kept, c ≠ '\n')
      ∧ unixLines (inside ++ after) = kept ++ unixLines after := by
  induction inside with
  | nil => exact ⟨[], hin, rfl⟩
  | cons c inside ih =>
      by_cases hpair : c = '\r' ∧ (inside ++ after).head? = some '\n'
      · -- then the line ends here, for there is no line end in it
        obtain ⟨rfl, hhead⟩ := hpair
        cases inside with
        | nil =>
            obtain ⟨rest, rfl⟩ := List.head?_eq_some_iff.1 hhead
            exact ⟨[], by simp, unixLines_pair rest⟩
        | cons d inside =>
            cases hhead
            exact absurd rfl (hin '\n' (by simp))
      · obtain ⟨kept, hkept, heq⟩ := ih fun d hd => hin d (by simp [hd])
        refine ⟨c :: kept, List.forall_mem_cons.2 ⟨hin c (by simp), hkept⟩, ?_⟩
        rw [List.cons_append,
          unixLines_cons fun hreturn hhead => hpair ⟨hreturn, hhead⟩, heq,
          List.cons_append]

/-- Comments, blanks and line ends give nothing in a rewritten text. They are
treated apart from the other rules because a pair may be split behind them: a
comment may lose its last character, and a blank may vanish. -/
theorem scanFrom_unixLines_silent {p : Piece} {after : List Char}
    (hlong : Longest p.rule p.text after)
    (h : p.rule = .comment ∨ p.rule = .blank ∨ p.rule = .newline) (line : Nat) :
    scanFrom line (unixLines (p.text ++ after))
      = scanFrom (line + p.newlines) (unixLines after) := by
  obtain ⟨rule, text⟩ := p
  obtain ⟨hfits, -⟩ := id hlong
  have hstops := hlong.stops
  dsimp only at h hfits hstops ⊢
  cases hfits with
  | stray => simp at h
  | regular hregular =>
      cases hregular with
      | @comment inside _ hin =>
          have hcount : Piece.newlines ⟨.comment, '/' :: '/' :: inside⟩ = 0 :=
            count_newline_of_fits hlong.1 (by simp) (by simp) (by simp)
          obtain ⟨kept, hkept, heq⟩ := exists_unixLines_append hin hstops
          -- what follows still begins with a line end, or is nothing
          have hend : ∀ c, (unixLines after).head? = some c → c = '\n' := by
            intro c hc
            rcases head?_unixLines after with hhead | hhead
            · exact hstops c (by rw [← hhead, hc])
            · rw [hhead] at hc
              cases hc
              rfl
          rw [hcount, List.cons_append, List.cons_append,
            unixLines_cons fun hreturn => absurd hreturn (by decide),
            unixLines_cons fun hreturn => absurd hreturn (by decide), heq,
            scanFrom_comment hkept hend]
          rfl
      | @blank c _ hc =>
          have hgap : isGap c = true := by
            rcases hc with rfl | rfl | rfl
            all_goals rfl
          exact scanFrom_unixLines_gap hgap line after
      | newline => exact scanFrom_unixLines_gap rfl line after
      | operator | string | openString | whole | fraction | word =>
          simp at h

-- ==================================================== what is read

/-- A piece with its text rewritten. -/
def Piece.rewritten (p : Piece) : Piece where
  rule := p.rule
  text := unixLines p.text

/-- Only in strings there is something to rewrite: a pair has a line end, and
no other rule but that of line ends allows one. -/
theorem unixLines_of_fits {rule : Rule} {text after : List Char}
    (h : Fits rule text after) (hstring : rule ≠ .string)
    (hopen : rule ≠ .openString) : unixLines text = text := by
  by_cases hline : rule = .newline
  · subst hline
    cases h with
    | regular h =>
        cases h with
        | newline => rfl
  · apply unixLines_eq_self
    rw [← List.count_eq_zero]
    exact count_newline_of_fits h hline hstring hopen

/-- A string is rewritten between its quotes. -/
theorem unixLines_string (inside : List Char) :
    unixLines ('"' :: (inside ++ ['"'])) = '"' :: (unixLines inside ++ ['"']) := by
  rw [unixLines_cons fun h => absurd h (by decide),
    unixLines_append fun _ h => absurd h (by decide)]
  rfl

/-- The longest beginning of a text, if it is no comment, is rewritten to the
longest beginning of the rewritten text. A string is ended by its quotes, and
any other text is kept and has something quieter behind it. -/
theorem Longest.rewritten {rule : Rule} {text after : List Char}
    (h : Longest rule text after) (hcomment : rule ≠ .comment) :
    Longest rule (unixLines text) (unixLines after) := by
  have hnone : ∀ {inside : List Char}, (∀ c ∈ inside, c ≠ '"') →
      ∀ c ∈ unixLines inside, c ≠ '"' :=
    fun hin c hc => hin c ((unixLines_sublist _).subset hc)
  cases rule with
  | comment => exact absurd rfl hcomment
  | string =>
      obtain ⟨hfits, -⟩ := h
      cases hfits with
      | regular hregular =>
          cases hregular with
          | string _ hin =>
              rw [unixLines_string]
              exact (Fits.regular (.string _ (hnone hin))).longest_of_stops trivial
  | openString =>
      obtain ⟨hfits, -⟩ := h
      cases hfits with
      | regular hregular =>
          cases hregular with
          | openString hin =>
              rw [unixLines_cons fun h => absurd h (by decide)]
              exact (Fits.regular (.openString (hnone hin))).longest_of_stops rfl
  | operator | blank | newline | number | word | stray =>
      rw [unixLines_of_fits h.1 (by simp) (by simp)]
      refine h.of_quieter hcomment (by simp) (quieter_unixLines after) ?_
      intro rest rest' hafter hrest
      rw [hafter, unixLines_cons fun h => absurd h (by decide)] at hrest
      obtain ⟨-, rfl⟩ := List.cons.inj hrest
      exact quieter_unixLines rest

/-- No piece but a blank and a comment ends with a carriage return, or else
nothing follows. So no pair is split behind it, and it is rewritten apart from
what follows. -/
theorem unixLines_append_of_fits {rule : Rule} {text after : List Char}
    (h : Fits rule text after) (hcomment : rule ≠ .comment)
    (hblank : rule ≠ .blank) :
    unixLines (text ++ after) = unixLines text ++ unixLines after := by
  apply unixLines_append
  intro hlast
  cases rule with
  | comment => exact absurd rfl hcomment
  | blank => exact absurd rfl hblank
  | openString =>
      rw [h.of_openString]
      simp
  | newline =>
      cases h with
      | regular h =>
          cases h
          cases hlast
  | string =>
      cases h with
      | regular h =>
          cases h with
          | string =>
              rw [← List.cons_append, List.getLast?_concat] at hlast
              cases hlast
  | operator | number | word | stray =>
      have hgap := not_isGap_of_fits h (by simp) (by simp) (by simp) (by simp)
        (by simp) '\r' (List.mem_of_getLast? hlast)
      cases hgap

section Pieces

variable {p : Piece} {after : List Char}

/-- A rewritten piece ends on the line where it did. -/
theorem Piece.newlines_rewritten (p : Piece) :
    p.rewritten.newlines = p.newlines := count_unixLines p.text

/-- The token of a rewritten piece is the rewritten token. -/
theorem Piece.token?_rewritten (hfits : Fits p.rule p.text after)
    (line : Nat) :
    p.rewritten.token? line
      = (p.token? line).map (Token.mapText unixLineEnds) := by
  refine Piece.token?_mapText unixLineEnds_ofList ?_ ?_ line
  · intro _ hstring hopen _
    exact unixLines_of_fits hfits hstring hopen
  · intro hrule
    obtain ⟨rule, text⟩ := p
    subst hrule
    cases hfits with
    | regular h =>
        cases h with
        | string _ hin =>
            rw [unixLines_string]
            simp [Piece.inside]

/-- A stray is kept, and an open string ends on the line where it did. -/
theorem Piece.diagnostic?_rewritten (hfits : Fits p.rule p.text after)
    (line : Nat) : p.rewritten.diagnostic? line = p.diagnostic? line := by
  have hlines := Piece.newlines_rewritten p
  obtain ⟨rule, text⟩ := p
  cases rule with
  | stray =>
      have hkeep := unixLines_of_fits hfits (by simp) (by simp)
      unfold Piece.diagnostic? Piece.rewritten
      dsimp only
      rw [hkeep]
  | openString =>
      show some (Diagnostic.mk _ (line + Piece.newlines (Piece.rewritten _))) = _
      rw [hlines]
      rfl
  | operator | comment | blank | newline | string | number | word => rfl

end Pieces

/-- A rewritten text gives what the text gave, with the texts rewritten. Silent
pieces are passed over in both, and any other is found in both. -/
theorem scanFrom_unixLines (text : List Char) : ∀ line,
    scanFrom line (unixLines text)
      = (scanFrom line text).map (Token.mapText unixLineEnds) id := by
  induction text using text_induction with
  | nil =>
      intro line
      rw [unixLines, scanFrom_nil, Scan.map, List.map_singleton,
        Token.mapText_eof (unixLineEnds_ofList [])]
      rfl
  | append p after hne hlong ih =>
      intro line
      by_cases hsilent : p.rule = .comment ∨ p.rule = .blank ∨ p.rule = .newline
      · rw [scanFrom_unixLines_silent hlong hsilent, ih,
          scanFrom_append hne hlong, Piece.before_of_silent hsilent]
      · simp only [not_or] at hsilent
        obtain ⟨hcomment, hblank, -⟩ := hsilent
        have hlonger : Longest p.rewritten.rule p.rewritten.text
            (unixLines after) := hlong.rewritten hcomment
        have hne' : p.rewritten.text ≠ [] := unixLines_ne_nil hne
        rw [unixLines_append_of_fits hlong.1 hcomment hblank,
          scanFrom_append hne hlong]
        show scanFrom line (p.rewritten.text ++ unixLines after) = _
        rw [scanFrom_append hne' hlonger, Piece.newlines_rewritten, ih]
        refine Piece.before_map (Piece.token?_rewritten hlong.1 line) ?_ _
        rw [Piece.diagnostic?_rewritten hlong.1, Option.map_id_fun, id]

-- ============================================================== the sources

/-- Only a string over several lines has a text to rewrite: a text without a
line end is kept, and no other token has one in its text. -/
theorem mapText_eq_or_string {p : Piece} {after : List Char} {line : Nat}
    {t : Token} (hfits : Fits p.rule p.text after)
    (h : p.token? line = some t) :
    t.mapText unixLineEnds = t ∨ t.kind = .string ∧ '\n' ∈ t.lexeme.toList := by
  by_cases hmem : '\n' ∈ p.text
  · right
    have hrule : p.rule = .string := by
      by_contra hstring
      have hcount := count_newline_of_fits hfits
        (fun hline => by simp [Piece.token?, hline] at h) hstring
        (fun hopen => by simp [Piece.token?, hopen] at h)
      exact absurd hmem (List.count_eq_zero.1 hcount)
    obtain ⟨hlexeme, -⟩ := Piece.eq_of_token? h
    rw [hlexeme, String.toList_ofList]
    rw [Piece.token?, hrule] at h
    cases h
    exact ⟨rfl, hmem⟩
  · left
    have hkeep : p.rewritten = p := by
      rw [Piece.rewritten, unixLines_eq_self hmem]
    have htoken := Piece.token?_rewritten hfits line
    rw [hkeep, h, Option.map_some, Option.some.injEq] at htoken
    exact htoken.symm

/-- However the lines of a source end, the same is wrong with it, on the same
lines, and it has the same tokens, but for the text of strings over several
lines, which is rewritten as the source is. -/
theorem scan_unixLineEnds (source : String) :
    (scan (unixLineEnds source)).errors = (scan source).errors
      ∧ (scan (unixLineEnds source)).tokens
        = (scan source).tokens.map (Token.mapText unixLineEnds)
      ∧ ∀ t ∈ (scan source).tokens, t.mapText unixLineEnds ≠ t →
        t.kind = .string ∧ '\n' ∈ t.lexeme.toList := by
  have hscan : scan (unixLineEnds source)
      = (scan source).map (Token.mapText unixLineEnds) id := by
    rw [scan_eq_scanFrom, scan_eq_scanFrom source, unixLineEnds,
      String.toList_ofList, scanFrom_unixLines]
  rw [hscan]
  refine ⟨List.map_id _, rfl, ?_⟩
  intro t ht hne
  rcases eof_or_exists_fits ht with ⟨line, rfl⟩ | ⟨p, after, line, hfits, htoken⟩
  · exact absurd (Token.mapText_eof (unixLineEnds_ofList []) line) hne
  · exact (mapText_eq_or_string hfits htoken).resolve_left hne

/-- Behind a blank that vanishes and a comment, a string over two lines, which
is the only token that is rewritten. -/
theorem scan_unixLineEnds_string :
    unixLineEnds "1.\r\r\n//\r\n\"a\r\nb\"\r#" = "1.\r\n//\n\"a\nb\"\r#"
      ∧ (scan "1.\r\n//\n\"a\nb\"\r#").errors
        = (scan "1.\r\r\n//\r\n\"a\r\nb\"\r#").errors
      ∧ (scan "1.\r\n//\n\"a\nb\"\r#").tokens
        = (scan "1.\r\r\n//\r\n\"a\r\nb\"\r#").tokens.map
            (Token.mapText unixLineEnds)
      ∧ ∃ t ∈ (scan "1.\r\r\n//\r\n\"a\r\nb\"\r#").tokens,
          t.mapText unixLineEnds ≠ t ∧ t.kind = .string
            ∧ '\n' ∈ t.lexeme.toList := by
  have htext : unixLineEnds "1.\r\r\n//\r\n\"a\r\nb\"\r#"
      = "1.\r\n//\n\"a\nb\"\r#" := by
    decide +kernel
  have hmem : ⟨.string, "\"a\r\nb\"", some (.text "a\r\nb"), 3⟩
      ∈ (scan "1.\r\r\n//\r\n\"a\r\nb\"\r#").tokens := by
    decide +kernel
  obtain ⟨herrors, htokens, hstrings⟩ :=
    scan_unixLineEnds "1.\r\r\n//\r\n\"a\r\nb\"\r#"
  rw [htext] at herrors htokens
  have hne : Token.mapText unixLineEnds
      ⟨.string, "\"a\r\nb\"", some (.text "a\r\nb"), 3⟩
        ≠ ⟨.string, "\"a\r\nb\"", some (.text "a\r\nb"), 3⟩ := by
    decide +kernel
  exact ⟨htext, herrors, htokens, _, hmem, hne, hstrings _ hmem hne⟩

end LoxLexer
