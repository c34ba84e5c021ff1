/-
Edits have local effect: what a scan can keep when its source is edited.

# In front of an edit

A turn of the loop looks at two bytes behind what it takes, and no further:
behind the digits of a number it has to see a point and a digit, and nothing
else needs more than one byte. So what stops in front of some bytes stops in
front of others that begin with the same two (`Stops.of_agree`). Where two
sources begin with the same bytes, they have the same segments up to two bytes
in front of where they may differ (`mem_place_of_agree`), and their loops come
to the same cursors, with the same tokens and diagnostics in hand
(`reaches_of_agree`).

# Behind an edit

A cursor has no memory but its offset and its line. What is still to come at a
cursor is the scan of the rest of the source from this line on
(`scan_eq_andThen`), so two sources with the same rest have the same to come,
apart from the lines.
-/
import LoxLexer.Proofs.Cursor.Simulation
import LoxLexer.Proofs.Scan.Basic

namespace LoxLexer

-- ===================================================== bytes that agree

section Agree

variable {after other : List Char} {k : Nat}

/-- An ASCII character that one text begins with, the other begins with too. -/
private theorem head?_of_agree
    (h : (encode after).take (k + 1) = (encode other).take (k + 1)) {a : Char}
    (ha : a.toNat < 128) (hhead : other.head? = some a) :
    after.head? = some a := by
  have hbyte := congrArg List.head? h
  rw [List.head?_take, List.head?_take, if_neg (Nat.succ_ne_zero k),
    if_neg (Nat.succ_ne_zero k), (head?_encode ha other).2 hhead] at hbyte
  exact (head?_encode ha after).1 hbyte

/-- A class of ASCII characters that the one does not begin with, the other
does not begin with either. One byte is enough, as a character of the class is
one. -/
private theorem class_of_agree
    (h : (encode after).take (k + 1) = (encode other).take (k + 1))
    {p : Char → Bool} (hp : ∀ c, p c = true → c.toNat < 128)
    (hstop : ∀ c, after.head? = some c → p c = false) :
    ∀ c, other.head? = some c → p c = false := by
  intro c hc
  rw [Bool.eq_false_iff]
  intro hpc
  have hnot := hstop c (head?_of_agree h (hp c hpc) hc)
  rw [hpc] at hnot
  cases hnot

/-- If the one is empty, so is the other. -/
private theorem eq_nil_of_agree
    (h : (encode []).take (k + 1) = (encode other).take (k + 1)) :
    other = [] := by
  cases other with
  | nil => rfl
  | cons c other =>
      obtain ⟨lead, bytes, hlead, -⟩ := charOctets_eq_cons c
      rw [encode_cons, hlead] at h
      cases h

/-- Two bytes decide whether a text of a rule stops. They are of what follows,
and may be only a part of a character there: then this character is in no class
that matters, and neither is one that begins with the same byte. -/
theorem Stops.of_agree {rule : Rule} {text : List Char}
    (hstops : Stops rule text after)
    (h : (encode after).take (k + 2) = (encode other).take (k + 2)) :
    Stops rule text other := by
  cases rule with
  | operator o =>
      exact ⟨fun ho hc => hstops.1 ho (head?_of_agree h (by decide) hc),
        fun hc => hstops.2 (head?_of_agree h (by decide) hc)⟩
  | comment =>
      intro c hc
      cases after with
      | nil =>
          rw [eq_nil_of_agree h] at hc
          cases hc
      | cons d after =>
          obtain rfl := hstops d rfl
          have hline := head?_of_agree h.symm (by decide) rfl
          exact Option.some.inj (hc.symm.trans hline)
  | openString =>
      obtain rfl : after = [] := hstops
      exact eq_nil_of_agree h
  | number =>
      refine ⟨class_of_agree h (fun _ => ascii_of_isDigit) hstops.1, ?_⟩
      intro hwhole c rest hother
      subst hother
      -- the point is the first of the two bytes, the digit would be the second
      obtain ⟨behind, rfl⟩ := List.head?_eq_some_iff.1
        (head?_of_agree h (a := '.') (by decide) rfl)
      rw [encode_cons_of_ascii (by decide), encode_cons_of_ascii (by decide),
        List.take_succ_cons, List.take_succ_cons] at h
      refine class_of_agree (List.cons.inj h).2 (fun _ => ascii_of_isDigit) ?_ c
        rfl
      intro d hd
      obtain ⟨more, rfl⟩ := List.head?_eq_some_iff.1 hd
      exact hstops.2 hwhole d more rfl
  | word => exact class_of_agree h (fun _ => ascii_of_isWordPart) hstops
  | blank | newline | string | stray => exact trivial

/-- So two bytes decide whether it is the longest beginning. -/
theorem Longest.of_agree {rule : Rule} {text : List Char}
    (hlong : Longest rule text after)
    (h : (encode after).take (k + 2) = (encode other).take (k + 2)) :
    Longest rule text other := by
  by_cases hopen : rule = .openString
  · subst hopen
    have hnil := hlong.1.of_openString
    subst hnil
    rw [eq_nil_of_agree h]
    exact hlong
  · exact (hlong.1.of_after hopen other).longest_of_stops
      (hlong.stops.of_agree h)

/-- A text that begins with the bytes of a piece begins with the piece, and
what is left of it agrees with what is left behind the piece. The bytes need
not end between characters of the other text; those of the piece do. -/
theorem exists_append_of_agree {text : List Char} {n : Nat}
    (h : (encode (text ++ after)).take n = (encode other).take n)
    (hn : width text ≤ n) :
    ∃ rest, other = text ++ rest
      ∧ (encode after).take (n - width text)
        = (encode rest).take (n - width text) := by
  have hprefix : encode text <+: encode other := by
    rw [List.prefix_iff_eq_take]
    have htake := congrArg (List.take (width text)) h
    rw [List.take_take, List.take_take, Nat.min_eq_left hn, encode_append,
      width, List.take_left] at htake
    exact htake
  obtain ⟨rest, rfl⟩ := isPrefix_of_encode hprefix
  refine ⟨rest, rfl, ?_⟩
  have hdrop := congrArg (List.drop (width text)) h
  rw [List.drop_take, List.drop_take, encode_append, encode_append, width,
    List.drop_left, List.drop_left] at hdrop
  exact hdrop

/-- The longest beginning of a text is that of every other with the same bytes
up to two behind it. What is left agrees as far as the bytes did, so the next
piece can be compared in turn. -/
theorem Longest.exists_of_agree {p : Piece} {n : Nat}
    (hlong : Longest p.rule p.text after)
    (h : (encode (p.text ++ after)).take n = (encode other).take n)
    (hn : width p.text + 2 ≤ n) :
    ∃ rest, other = p.text ++ rest ∧ Longest p.rule p.text rest
      ∧ (encode after).take (n - width p.text)
        = (encode rest).take (n - width p.text) := by
  obtain ⟨rest, hother, hrest⟩ := exists_append_of_agree h (by omega)
  refine ⟨rest, hother, ?_, hrest⟩
  obtain ⟨k, hk⟩ := Nat.exists_eq_add_of_le' (show 2 ≤ n - width p.text by omega)
  rw [hk] at hrest
  exact hlong.of_agree hrest

end Agree

-- ================================================= the segments in front

/-- Pieces are placed from their offset on. -/
theorem le_stop_of_mem_place {cut : List Piece} {g : Segment} :
    ∀ {offset line : Nat}, g ∈ place offset line cut → offset ≤ g.stop := by
  induction cut with
  | nil => exact fun h => absurd h List.not_mem_nil
  | cons p cut ih =>
      intro offset line h
      rcases List.mem_cons.1 h with rfl | h
      · exact Nat.le_add_right _ _
      · exact Nat.le_trans (Nat.le_add_right _ _) (ih h)

/-- A segment that ends two bytes in front of a difference is a segment of
both sources, and gives the same. The induction is on the cut of the one; its
pieces are found in the other one by one, up to the segment that is looked
for. -/
theorem mem_place_of_agree {s t : String} {cut : List Piece} {text : List Char}
    (hcut : Cut cut text) :
    ∀ {before other : List Char} {line n : Nat},
      s.toList = before ++ text → t.toList = before ++ other →
      (encode text).take n = (encode other).take n →
      ∀ g ∈ place (width before) line cut, g.stop + 2 ≤ width before + n →
        g ∈ place (width before) line (pieces other)
          ∧ g.token? t = g.token? s ∧ g.diagnostic? t = g.diagnostic? s := by
  induction hcut with
  | done => exact fun _ _ _ g hg => absurd hg List.not_mem_nil
  | @next p cut after hne hlong _ ih =>
      intro before other line n hs ht hagree g hg hstop
      -- the first piece ends before the segment does, so it agrees as well
      have hfirst : width before + width p.text ≤ g.stop := by
        rcases List.mem_cons.1 hg with rfl | hg
        · exact Nat.le_refl _
        · exact le_stop_of_mem_place hg
      obtain ⟨rest, rfl, hlonger, hrest⟩ :=
        hlong.exists_of_agree hagree (by omega)
      rw [pieces_append hne hlonger, place]
      rcases List.mem_cons.1 hg with rfl | hg
      · refine ⟨List.mem_cons_self, ?_, ?_⟩
        · rw [token?_covering ht hlonger.1, token?_covering hs hlong.1]
        · rw [diagnostic?_covering ht hlonger.1,
            diagnostic?_covering hs hlong.1]
      · rw [← width_append] at hg ⊢
        obtain ⟨hmem, hgives⟩ := ih (by rw [hs, List.append_assoc])
          (by rw [ht, List.append_assoc]) hrest g hg
          (by rw [width_append]; omega)
        exact ⟨List.mem_cons_of_mem _ hmem, hgives⟩

-- ================================================== the turns in front

namespace Cursor

section Turns

variable {s t : String} {n : Nat} {c d : Cursor}

/-- Whether a cursor stands at the same place of two sources. -/
def Meets (s t : String) (c : Cursor) : Prop :=
  ∃ before after other, c.Stands s before after ∧ c.Stands t before other

/-- A turn that ends two bytes in front of a difference is the same in both
sources. It takes a piece of the one, this is the longest of the other too, and
so it is taken there. -/
private theorem next_of_agree (hagree : (octets s).take n = (octets t).take n)
    (hmeets : Meets s t c) (hmore : c.current < s.utf8ByteSize)
    (hnext : c.next s = some d) (hd : d.current + 2 ≤ n) :
    c.current < t.utf8ByteSize ∧ c.next t = some d ∧ Meets s t d := by
  obtain ⟨before, after, other, hs, ht⟩ := hmeets
  cases after with
  | nil =>
      rw [hs.current_eq] at hmore
      exact absurd hmore (Nat.lt_irrefl _)
  | cons x rest =>
      obtain rfl : d = c.past (leadingPiece x rest) :=
        Option.some.inj (hnext.symm.trans (next_leadingPiece hs))
      have hlong : Longest (leadingPiece x rest).rule (leadingPiece x rest).text
          (rest.drop (leadingRule x rest).2) := longest_leadingRule x rest
      have hne : (leadingPiece x rest).text ≠ [] := List.cons_ne_nil _ _
      rw [← leadingPiece_append] at hs
      -- what is ahead of the cursor agrees too
      have hahead := congrArg (List.drop c.current) hagree
      rw [List.drop_take, List.drop_take] at hahead
      change (c.ahead s).take _ = (c.ahead t).take _ at hahead
      rw [hs.ahead, ht.ahead] at hahead
      change c.current + width _ + 2 ≤ n at hd
      obtain ⟨behind, rfl, hlonger, -⟩ :=
        hlong.exists_of_agree hahead (by omega)
      refine ⟨?_, next_eq ht hne hlonger, _, _, _, hs.past, ht.past⟩
      have hpos := width_pos hne
      rw [ht.2, ← width_toList, ht.1, width_append, width_append]
      omega

/-- A turn does not go back. -/
private theorem current_le_of_next (h : Reaches s c)
    (hmore : c.current < s.utf8ByteSize) (hnext : c.next s = some d) :
    c.current ≤ d.current := by
  obtain ⟨_, x, rest, -, -, hturn, -⟩ := (ready_of_reaches h).next hmore
  obtain rfl := Option.some.inj (hnext.symm.trans hturn)
  exact Nat.le_add_right _ _

/-- Up to two bytes in front of a difference, the loops come to the same
cursors. They have found the same so far, for that is part of a cursor. -/
theorem reaches_of_agree (hagree : (octets s).take n = (octets t).take n)
    (h : Reaches s c) : c.current + 2 ≤ n → Reaches t c ∧ Meets s t c := by
  induction h with
  | initial =>
      exact fun _ => ⟨.initial, [], s.toList, t.toList, ⟨rfl, rfl⟩, ⟨rfl, rfl⟩⟩
  | @next c d hc hmore hnext ih =>
      intro hd
      have hle := current_le_of_next hc hmore hnext
      obtain ⟨hreach, hmeets⟩ := ih (by omega)
      obtain ⟨hless, hturn, hmeets⟩ :=
        next_of_agree hagree hmeets hmore hnext hd
      exact ⟨.next hreach hless hturn, hmeets⟩

/-- And up to there they take the same turns. -/
theorem turn_of_agree (hagree : (octets s).take n = (octets t).take n)
    (h : Reaches s c) (hmore : c.current < s.utf8ByteSize)
    (hnext : c.next s = some d) (hd : d.current + 2 ≤ n) :
    Reaches t c ∧ c.current < t.utf8ByteSize ∧ c.next t = some d := by
  have hle := current_le_of_next h hmore hnext
  obtain ⟨hreach, hmeets⟩ := reaches_of_agree hagree h (by omega)
  obtain ⟨hless, hturn, -⟩ := next_of_agree hagree hmeets hmore hnext hd
  exact ⟨hreach, hless, hturn⟩

end Turns

-- ==================================================== what is to come

/-- What was found so far, and behind it what is to come. -/
def andThen (c : Cursor) (s : Scan) : Scan where
  tokens := c.tokens ++ s.tokens
  errors := c.errors ++ s.errors

/-- What a piece gives is to come until the cursor is past it, and is then
among what was found. -/
private theorem andThen_before (c : Cursor) (p : Piece) (s : Scan) :
    c.andThen (p.before c.line s) = (c.past p).andThen s := by
  simp [andThen, past, Piece.before]

/-- What is to come at a cursor is the scan of what is ahead of it, from its
line on. This is the invariant of the loop that says it has no memory: the scan
of the source is what was found and what is to come. -/
theorem scan_eq_andThen {source : String} {c : Cursor} (h : Reaches source c) :
    ∃ before after, c.Stands source before after
      ∧ c.line = 1 + before.count '\n'
      ∧ scan source = c.andThen (scanFrom c.line after) := by
  induction h with
  | initial => exact ⟨[], source.toList, ⟨rfl, rfl⟩, rfl, scan_eq_scanFrom source⟩
  | @next c d _ hmore hnext ih =>
      obtain ⟨before, after, hstands, hline, hscan⟩ := ih
      cases after with
      | nil =>
          rw [hstands.current_eq] at hmore
          exact absurd hmore (Nat.lt_irrefl _)
      | cons x rest =>
          obtain rfl : d = c.past (leadingPiece x rest) :=
            Option.some.inj (hnext.symm.trans (next_leadingPiece hstands))
          rw [← leadingPiece_append] at hstands hscan
          rw [scanFrom_append (List.cons_ne_nil _ _) (longest_leadingRule x rest),
            andThen_before] at hscan
          refine ⟨_, _, hstands.past, ?_, hscan⟩
          rw [List.count_append, ← Nat.add_assoc, ← hline]
          rfl

end Cursor

-- ======================================================== after an edit

/-- Of two beginnings of a text the wider goes on where the other ends. Offsets
are compared in bytes and texts are split in characters, and this leads from
the one to the other. -/
theorem exists_append_of_width_le {first rest second more : List Char}
    (h : first ++ rest = second ++ more) (hle : width first ≤ width second) :
    ∃ between, second = first ++ between ∧ rest = between ++ more := by
  rcases List.append_eq_append_iff.1 h with ⟨between, hsecond, hrest⟩ |
    ⟨between, hfirst, hmore⟩
  · exact ⟨between, hsecond, hrest⟩
  · have hnil : between = [] := by
      by_contra hne
      have hpos := width_pos hne
      rw [hfirst, width_append] at hle
      omega
    subst hnil
    rw [List.append_nil] at hfirst
    exact ⟨[], by rw [hfirst, List.append_nil], hmore.symm⟩

/-- Two beginnings of a text with the same width are the same. -/
theorem append_inj_of_width {first rest second more : List Char}
    (h : first ++ rest = second ++ more) (hwidth : width first = width second) :
    first = second ∧ rest = more := by
  obtain ⟨between, hsecond, hrest⟩ := exists_append_of_width_le h hwidth.le
  have hnil : between = [] := by
    by_contra hne
    have hpos := width_pos hne
    rw [hsecond, width_append] at hwidth
    omega
  subst hnil
  rw [hsecond, List.append_nil]
  exact ⟨rfl, hrest⟩

/-- What is to come at a place of the second of two texts. -/
private theorem exists_scanFrom_of_reaches {front q : String} {c : Cursor}
    {k : Nat} (h : Cursor.Reaches (front ++ q) c)
    (hat : c.current = front.utf8ByteSize + k) :
    ∃ passed left, q.toList = passed ++ left ∧ width passed = k
      ∧ scan (front ++ q) = c.andThen
          (scanFrom (1 + front.toList.count '\n' + passed.count '\n') left) := by
  obtain ⟨before, left, hstands, hline, hscan⟩ := Cursor.scan_eq_andThen h
  obtain ⟨hsplit, hwidth⟩ := hstands
  rw [String.toList_append] at hsplit
  rw [hat, ← width_toList] at hwidth
  obtain ⟨passed, rfl, hq⟩ := exists_append_of_width_le hsplit (by omega)
  rw [width_append] at hwidth
  refine ⟨passed, left, hq, by omega, ?_⟩
  rw [hscan, hline, List.count_append, Nat.add_assoc]

/-- Two sources that begin with the same bytes have the same segments up to
two bytes in front of where they may differ, which give the same and on the
same lines; and their loops come to the same cursors there. Two sources that
end with the same text have the same to come from any place in it that both
loops come to, on lines that differ by the line ends in front. -/
theorem edits_local :
    (∀ (s t : String) (n : Nat), (octets s).take n = (octets t).take n →
      (∀ g ∈ segments s, g.stop + 2 ≤ n →
        g ∈ segments t ∧ g.token? t = g.token? s
          ∧ g.diagnostic? t = g.diagnostic? s)
      ∧ ∀ c d, Cursor.Reaches s c → c.current < s.utf8ByteSize →
          c.next s = some d → d.current + 2 ≤ n →
          Cursor.Reaches t c ∧ c.current < t.utf8ByteSize
            ∧ c.next t = some d)
      ∧ ∀ (p x y q : String) (k : Nat) (c d : Cursor),
          Cursor.Reaches (p ++ x ++ q) c →
          c.current = (p ++ x).utf8ByteSize + k →
          Cursor.Reaches (p ++ y ++ q) d →
          d.current = (p ++ y).utf8ByteSize + k →
          ∃ found found', scan (p ++ x ++ q) = c.andThen found
            ∧ scan (p ++ y ++ q) = d.andThen found'
            ∧ found'.later (x.toList.count '\n')
              = found.later (y.toList.count '\n') := by
  refine ⟨fun s t n hagree => ⟨?_, ?_⟩, ?_⟩
  · intro g hg hstop
    have hbytes := hagree
    rw [octets_eq_encode, octets_eq_encode] at hbytes
    have hs : s.toList = [] ++ s.toList := rfl
    rw [segments_eq] at hg ⊢
    exact mem_place_of_agree (cut_pieces s.toList) hs rfl hbytes g hg
      (by rw [width_nil]; omega)
  · intro c d hreach hmore hnext hd
    exact Cursor.turn_of_agree hagree hreach hmore hnext hd
  · intro p x y q k c d hc hcat hd hdat
    obtain ⟨passed, left, hq, hk, hscan⟩ := exists_scanFrom_of_reaches hc hcat
    obtain ⟨passed', left', hq', hk', hscan'⟩ :=
      exists_scanFrom_of_reaches hd hdat
    obtain ⟨rfl, rfl⟩ :=
      append_inj_of_width (hq.symm.trans hq') (hk.trans hk'.symm)
    refine ⟨_, _, hscan, hscan', ?_⟩
    rw [← scanFrom_later, ← scanFrom_later, String.toList_append,
      String.toList_append, List.count_append, List.count_append]
    congr 1
    omega

/-- A number, a comment and an open string that the edit closes; and a stray
in the place of a string over three lines. -/
theorem edits_local_string :
    (octets "1.x//é\n\"a").take 10 = (octets "1.x//é\n\"a\n\" 2").take 10
      ∧ ⟨.comment, 3, 7, 1, 1⟩ ∈ segments "1.x//é\n\"a\n\" 2"
      ∧ Cursor.Reaches "1.x//é\n\"a\n\" 2" .initial
      ∧ ∃ c d found found', Cursor.Reaches ("" ++ "#" ++ "\nb") c
        ∧ Cursor.Reaches ("" ++ "\"\n\n\"" ++ "\nb") d
        ∧ scan ("" ++ "#" ++ "\nb") = c.andThen found
        ∧ scan ("" ++ "\"\n\n\"" ++ "\nb") = d.andThen found'
        ∧ found'.later 0 = found.later 2 := by
  have hagree : (octets "1.x//é\n\"a").take 10
      = (octets "1.x//é\n\"a\n\" 2").take 10 := by decide +kernel
  have hcomment : ⟨.comment, 3, 7, 1, 1⟩ ∈ segments "1.x//é\n\"a" := by
    decide +kernel
  have hnumber : Cursor.initial.next "1.x//é\n\"a"
      = some ⟨0, 1, 1, [⟨.number, "1",
          some (.number (.ofDecimal ⟨1, 0⟩)), 1⟩], []⟩ := by decide +kernel
  have hstray : Cursor.Reaches ("" ++ "#" ++ "\nb")
      ⟨0, 1, 1, [], [⟨.unexpectedCharacter '#', 1⟩]⟩ :=
    .next .initial (by decide +kernel) (by decide +kernel)
  have hstring : Cursor.Reaches ("" ++ "\"\n\n\"" ++ "\nb")
      ⟨0, 4, 3, [⟨.string, "\"\n\n\"", some (.text "\n\n"), 1⟩], []⟩ :=
    .next .initial (by decide +kernel) (by decide +kernel)
  have hlocal := edits_local
  obtain ⟨hsegments, hturns⟩ := hlocal.1 _ _ 10 hagree
  obtain ⟨found, found', hfound, hfound', hlater⟩ :=
    hlocal.2 "" "#" "\"\n\n\"" "\nb" 0 _ _ hstray rfl hstring rfl
  exact ⟨hagree, (hsegments _ hcomment (by decide)).1,
    (hturns _ _ .initial (by decide +kernel) hnumber (by decide)).1,
    _, _, found, found', hstray, hstring, hfound, hfound', hlater⟩

/-- One byte behind a segment is not enough: here the sources agree on it. -/
example : (octets "1.").take 2 = (octets "1.5").take 2
    ∧ ⟨.number, 0, 1, 1, 1⟩ ∈ segments "1."
    ∧ ⟨.number, 0, 1, 1, 1⟩ ∉ segments "1.5" := by
  decide +kernel

end LoxLexer
