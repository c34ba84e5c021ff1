/-
The built-in reader of arguments does as such readers are documented to do.
Reading goes word by word and ends at the first word that is wrong, so a
successful reading says something about each of the words.

# One word

An option that is accepted gives one flag, which was not given on that side
before (`grant_eq_ok`). There is one long name for each flag, and one letter
for one of them, so the word is one of three (`isSpelled_of_long`,
`isSpelled_of_letters`).

# All words

What the next word can be is said once (`readBehind_cons_eq_ok`,
`readBefore_cons_eq_ok`), and the rest is induction. The flags that a reading
notes are those whose words stand in front of the first double dash, on either
side of the subcommand (`readBehind_eq_ok`, `readBefore_eq_ok`). With the
variables this gives the flags of a request (`builtinArguments_flags`).

# Where there is no request

What is written instead has its escape sequences taken out, and words from
outside could begin one. But the words that tell a page or a complaint come
before those from outside, and stay (`builtinArguments_stops`).
-/
import Mathlib
import LoxLexer.Command.Run
import LoxLexer.Proofs.Text.OsString

namespace LoxLexer.Command

-- ======================================================== what is given

theorem isGiven_doubleDash (words : List OsString) (flag : Flag) :
    isGiven (.ofString "--" :: words) flag = false := by
  rw [isGiven, List.takeWhile_cons_of_neg (by simp), List.any_nil]

theorem isGiven_cons {word : OsString} (h : word ≠ .ofString "--") (words : List OsString)
    (flag : Flag) :
    isGiven (word :: words) flag = (flag.isSpelled word || isGiven words flag) := by
  rw [isGiven, List.takeWhile_cons_of_pos (by simpa using h), List.any_cons]
  rfl

/-- The words of a flag are texts: its name, or the letter that one of the
flags has. -/
theorem Flag.isSpelled_iff {flag : Flag} {word : OsString} :
    flag.isSpelled word = true
      ↔ word = .ofString flag.name ∨ flag = .verbose ∧ word = .ofString "-v" := by
  simp only [isSpelled, Bool.or_eq_true, beq_iff_eq, Bool.and_eq_true]

/-- No word gives two flags. So the flag that a word gives can be told from the
word, and a word that gives one does not count for another. -/
theorem Flag.eq_of_isSpelled {flag other : Flag} {word : OsString}
    (h : flag.isSpelled word = true) (hother : other.isSpelled word = true) :
    flag = other := by
  rw [isSpelled_iff] at h hother
  cases flag with
  | verbose =>
      cases other with
      | verbose => rfl
      | noColor =>
          -- the name of the second flag is neither word of the first
          rcases h with rfl | ⟨-, rfl⟩
          all_goals exact absurd hother (by decide +kernel)
  | noColor =>
      cases other with
      | noColor => rfl
      | verbose =>
          rcases h with rfl | ⟨h, -⟩
          · exact absurd hother (by decide +kernel)
          · cases h

/-- A double dash gives none. -/
theorem Flag.ne_doubleDash_of_isSpelled {flag : Flag} {word : OsString}
    (h : flag.isSpelled word = true) : word ≠ .ofString "--" := by
  rintro rfl
  cases flag
  all_goals exact absurd h (by decide +kernel)

-- ======================================================= shapes of words

namespace Shape

/-- The shape of a text as a word is that of the text. -/
theorem ofWord_ofString (text : String) : ofWord (.ofString text) = ofText text.toList := by
  rw [ofWord, OsString.text?_ofString]

variable {word : OsString}

/-- A word with a shape that only texts have is a text. Bytes that are no text
are plain or garbled, so whatever is read as an option was a text. -/
theorem exists_of_ofWord {shape : Shape} (h : ofWord word = shape) (hplain : shape ≠ .plain)
    (hgarbled : shape ≠ .garbled) :
    ∃ text : String, word = .ofString text ∧ ofText text.toList = shape := by
  unfold ofWord at h
  split at h
  case h_1 text htext => exact ⟨text, OsString.text?_eq_some_iff.1 htext, h⟩
  case h_2 =>
    split at h
    case isTrue => exact absurd h.symm hgarbled
    case isFalse => exact absurd h.symm hplain

theorem eq_of_doubleDash (h : ofWord word = .doubleDash) : word = .ofString "--" := by
  obtain ⟨text, rfl, hshape⟩ := exists_of_ofWord h (by simp) (by simp)
  unfold ofText at hshape
  split at hshape
  case h_1 hword => rw [String.toList_inj.1 (hword.trans (by rfl : _ = "--".toList))]
  all_goals cases hshape

theorem eq_of_long {name : String} (h : ofWord word = .long name none) :
    word = .ofString ("--" ++ name) := by
  obtain ⟨text, rfl, hshape⟩ := exists_of_ofWord h (by simp) (by simp)
  unfold ofText at hshape
  split at hshape
  case h_2 body _ hword =>
    rw [long.injEq] at hshape
    obtain ⟨rfl, hvalue⟩ := hshape
    -- without an equals sign the name is all of the body
    have hdrop : body.dropWhile (· != '=') = [] := by
      split at hvalue
      case h_1 hdrop => exact hdrop
      case h_2 => cases hvalue
    have htake := List.takeWhile_append_dropWhile (p := (· != '=')) (l := body)
    rw [hdrop, List.append_nil] at htake
    rw [htake, OsString.ofString_inj, ← String.toList_inj, hword]
    simp only [String.toList_append, String.toList_ofList]
    rfl
  all_goals cases hshape

theorem eq_of_letters {letters : List Char} (h : ofWord word = .letters letters) :
    word = .ofString (String.ofList ('-' :: letters)) ∧ letters ≠ [] := by
  obtain ⟨text, rfl, hshape⟩ := exists_of_ofWord h (by simp) (by simp)
  unfold ofText at hshape
  split at hshape
  case h_3 first more _ hword =>
    cases hshape
    rw [OsString.ofString_inj, ← String.toList_inj, hword, String.toList_ofList]
    exact ⟨rfl, List.cons_ne_nil _ _⟩
  all_goals cases hshape

/-- A plain word gives no flag. -/
theorem isSpelled_of_plain (h : ofWord word = .plain) (flag : Flag) :
    flag.isSpelled word = false := by
  rw [← Bool.not_eq_true, Flag.isSpelled_iff]
  rintro (rfl | ⟨-, rfl⟩)
  · rw [ofWord_ofString] at h
    cases flag
    all_goals exact absurd h (by decide +kernel)
  · rw [ofWord_ofString] at h
    exact absurd h (by decide +kernel)

end Shape

-- ========================================================== one option

/-- A step that follows another succeeds only if both do. All readings are taken
apart by this. -/
theorem bind_eq_ok {α β : Type} {x : Except Halt α} {f : α → Except Halt β} {b : β} :
    (x >>= f) = .ok b ↔ ∃ a, x = .ok a ∧ f a = .ok b := by
  cases x with
  | error halt => simp [bind, Except.bind]
  | ok a => simp [bind, Except.bind]

namespace Given

variable {side : Side} {given result : Given}

/-- What is noted when a flag is given that was not given before. -/
def noting (given : Given) (flag : Flag) : Given :=
  { given with flags := given.flags ++ [flag] }

/-- Only flags are granted, each of them once. Help and the version end the
reading, and so does a flag that was given before. -/
theorem grant_eq_ok {wish : Wish} (h : given.grant side wish = .ok result) :
    ∃ flag, wish = .flag flag ∧ flag ∉ given.flags ∧ result = given.noting flag := by
  unfold grant at h
  split at h
  case isTrue => cases h
  case isFalse =>
    cases wish with
    | help | version => cases h
    | flag flag =>
        dsimp only at h
        split at h
        case isTrue => cases h
        case isFalse hnew =>
          cases h
          exact ⟨flag, rfl, hnew, rfl⟩

/-- A long option that is granted is the name of a flag, and has no value behind
an equals sign. -/
theorem grantLong_eq_ok {name : String} {value : Option String}
    (h : given.grantLong side name value = .ok result) :
    value = none ∧ ∃ flag : Flag, "--" ++ name = flag.name ∧ flag ∉ given.flags
      ∧ result = given.noting flag := by
  unfold grantLong at h
  split at h
  case h_1 | h_2 => cases h
  case h_3 wish hwish =>
    obtain ⟨flag, rfl, hnew, hresult⟩ := grant_eq_ok h
    refine ⟨rfl, flag, ?_, hnew, hresult⟩
    -- of the four names that are known, two are of flags
    unfold Wish.ofName? at hwish
    split at hwish
    case isTrue hname =>
      cases hwish
      rw [hname]
      rfl
    case isFalse =>
      split at hwish
      case isTrue hname =>
        cases hwish
        rw [hname]
        rfl
      case isFalse =>
        split at hwish
        case isTrue => cases hwish
        case isFalse =>
          split at hwish
          all_goals cases hwish

/-- A letter that is granted is the one of the verbose flag. -/
theorem grantLetter_eq_ok {letter : Char}
    (h : given.grantLetter side letter = .ok result) :
    letter = 'v' ∧ Flag.verbose ∉ given.flags ∧ result = given.noting .verbose := by
  unfold grantLetter at h
  split at h
  case h_1 => cases h
  case h_2 wish hwish =>
    obtain ⟨flag, rfl, hnew, hresult⟩ := grant_eq_ok h
    unfold Wish.ofLetter? at hwish
    split at hwish
    case isTrue hletter =>
      cases hwish
      exact ⟨hletter, hnew, hresult⟩
    case isFalse =>
      split at hwish
      case isTrue => cases hwish
      case isFalse =>
        split at hwish
        all_goals cases hwish

/-- Letters that are granted are that one letter once. A second one could only
be the same, and the flag would be given twice. -/
theorem foldlM_grantLetter_eq_ok {letters : List Char} (hne : letters ≠ [])
    (h : letters.foldlM (grantLetter side) given = .ok result) :
    letters = ['v'] ∧ Flag.verbose ∉ given.flags ∧ result = given.noting .verbose := by
  obtain ⟨first, more, rfl⟩ := List.exists_cons_of_ne_nil hne
  rw [List.foldlM_cons, bind_eq_ok] at h
  obtain ⟨noted, hfirst, hmore⟩ := h
  obtain ⟨rfl, hnew, rfl⟩ := grantLetter_eq_ok hfirst
  cases more with
  | nil =>
      cases hmore
      exact ⟨rfl, hnew, rfl⟩
  | cons second more =>
      rw [List.foldlM_cons, bind_eq_ok] at hmore
      obtain ⟨_, hsecond, -⟩ := hmore
      exact absurd (List.mem_append_right _ List.mem_cons_self)
        (grantLetter_eq_ok hsecond).2.1

end Given

/-- A long option that is accepted is the word of a flag. -/
theorem isSpelled_of_long {side : Side} {given result : Given} {word : OsString}
    {name : String} {value : Option String} (hword : Shape.ofWord word = .long name value)
    (h : given.grantLong side name value = .ok result) :
    ∃ flag : Flag, flag.isSpelled word = true ∧ result = given.noting flag := by
  obtain ⟨rfl, flag, hname, -, hresult⟩ := Given.grantLong_eq_ok h
  refine ⟨flag, Flag.isSpelled_iff.2 (.inl ?_), hresult⟩
  rw [Shape.eq_of_long hword, hname]

/-- And so are letters that are accepted. -/
theorem isSpelled_of_letters {side : Side} {given result : Given} {word : OsString}
    {letters : List Char} (hword : Shape.ofWord word = .letters letters)
    (h : letters.foldlM (Given.grantLetter side) given = .ok result) :
    ∃ flag : Flag, flag.isSpelled word = true ∧ result = given.noting flag := by
  obtain ⟨rfl, hne⟩ := Shape.eq_of_letters hword
  obtain ⟨rfl, -, hresult⟩ := Given.foldlM_grantLetter_eq_ok hne h
  exact ⟨.verbose, Flag.isSpelled_iff.2 (.inr ⟨rfl, rfl⟩), hresult⟩

/-- To note the flag of a word and read on gives the flags of all the words. This
is the step of both inductions below: what is noted, and what is still to be
given, are together the same in front of the word and behind it. -/
theorem Given.mem_noting_or_isGiven_iff {given : Given} {flag : Flag} {word : OsString}
    (h : flag.isSpelled word = true) (words : List OsString) (other : Flag) :
    other ∈ (given.noting flag).flags ∨ isGiven words other = true
      ↔ other ∈ given.flags ∨ isGiven (word :: words) other = true := by
  have hword : other = flag ↔ other.isSpelled word = true := by
    constructor
    · rintro rfl
      exact h
    · exact fun hother => Flag.eq_of_isSpelled hother h
  rw [isGiven_cons (Flag.ne_doubleDash_of_isSpelled h), noting, List.mem_append,
    List.mem_singleton, Bool.or_eq_true, hword, or_assoc]

-- =================================================== behind the subcommand

/-- A file name leaves the flags as they are. -/
theorem Given.flags_of_addFile {given result : Given} {word : OsString}
    (h : given.addFile word = .ok result) : result.flags = given.flags := by
  unfold addFile at h
  split at h
  case h_1 =>
    cases h
    rfl
  case h_2 => cases h

/-- Words behind a double dash leave the flags as they are too, for all of them
are file names there, also those that look like options. -/
theorem Given.flags_of_foldlM_addFile {words : List OsString} :
    ∀ {given result : Given}, words.foldlM addFile given = .ok result →
      result.flags = given.flags := by
  induction words with
  | nil =>
      intro given result h
      cases h
      rfl
  | cons word words ih =>
      intro given result h
      rw [List.foldlM_cons, bind_eq_ok] at h
      obtain ⟨next, hnext, hrest⟩ := h
      rw [ih hrest, flags_of_addFile hnext]

theorem Given.close_eq_ok {given result : Given} (h : given.close = .ok result) :
    result = given := by
  unfold close at h
  split at h
  case isTrue => cases h
  case isFalse =>
    cases h
    rfl

/-- A word behind the subcommand is the file, or the double dash in front of
it, or it gives a flag, and then reading goes on with the rest. Nothing else is
accepted, and a reading that succeeds has accepted every word. -/
theorem readBehind_cons_eq_ok {given result : Given} {word : OsString}
    {words : List OsString} (h : readBehind given (word :: words) = .ok result) :
    (∃ next, Shape.ofWord word = .plain ∧ given.addFile word = .ok next
        ∧ readBehind next words = .ok result)
      ∨ (word = .ofString "--" ∧ words.foldlM Given.addFile given = .ok result)
      ∨ ∃ flag : Flag, flag.isSpelled word = true
        ∧ readBehind (given.noting flag) words = .ok result := by
  rw [readBehind] at h
  -- by the shape of the word; one that is garbled is refused
  split at h
  case h_5 => cases h
  all_goals
    rw [bind_eq_ok] at h
    obtain ⟨next, hnext, hrest⟩ := h
  case h_1 hword => exact .inl ⟨next, hword, hnext, hrest⟩
  case h_2 hword =>
    cases Given.close_eq_ok hrest
    exact .inr (.inl ⟨Shape.eq_of_doubleDash hword, hnext⟩)
  case h_3 name value hword =>
    obtain ⟨flag, hflag, rfl⟩ := isSpelled_of_long hword hnext
    exact .inr (.inr ⟨flag, hflag, hrest⟩)
  case h_4 letters hword =>
    obtain ⟨flag, hflag, rfl⟩ := isSpelled_of_letters hword hnext
    exact .inr (.inr ⟨flag, hflag, hrest⟩)

/-- Reading behind the subcommand notes the flags that the words give. -/
theorem readBehind_eq_ok {words : List OsString} :
    ∀ {given result : Given}, readBehind given words = .ok result →
      ∀ flag, flag ∈ result.flags ↔ flag ∈ given.flags ∨ isGiven words flag = true := by
  induction words with
  | nil =>
      intro given result h flag
      rw [readBehind] at h
      cases Given.close_eq_ok h
      exact ⟨Or.inl, fun hflag => hflag.resolve_right nofun⟩
  | cons word words ih =>
      intro given result h flag
      rcases readBehind_cons_eq_ok h with
        ⟨next, hword, hnext, hrest⟩ | ⟨rfl, hrest⟩ | ⟨noted, hword, hrest⟩
      · have hdash : word ≠ .ofString "--" := by
          rintro rfl
          rw [Shape.ofWord_ofString] at hword
          exact absurd hword (by decide)
        rw [ih hrest, Given.flags_of_addFile hnext, isGiven_cons hdash,
          Shape.isSpelled_of_plain hword, Bool.false_or]
      · -- behind the double dash there are file names only
        rw [Given.flags_of_foldlM_addFile hrest, isGiven_doubleDash]
        exact ⟨Or.inl, fun hflag => hflag.resolve_right nofun⟩
      · rw [ih hrest, Given.mem_noting_or_isGiven_iff hword]

-- =================================================== before the subcommand

/-- A word before the subcommand gives a flag, and then reading goes on with
the rest, or it is the subcommand itself. There is no file name in front of it,
and no double dash. -/
theorem readBefore_cons_eq_ok {given behind : Given} {before : List Flag}
    {word : OsString} {words : List OsString}
    (h : readBefore given (word :: words) = .ok ⟨before, some behind⟩) :
    (word = .ofString "tokenize" ∧ before = given.flags
        ∧ readBehind .nothing words = .ok behind)
      ∨ ∃ flag : Flag, flag.isSpelled word = true
        ∧ readBefore (given.noting flag) words = .ok ⟨before, some behind⟩ := by
  unfold readBefore at h
  split at h
  case isTrue hname =>
    rw [bind_eq_ok] at h
    obtain ⟨got, hgot, hpure⟩ := h
    cases hpure
    exact .inl ⟨hname, rfl, hgot⟩
  case isFalse =>
    split at h
    case isTrue => cases h
    case isFalse =>
      split at h
      case h_1 | h_5 => cases h
      case h_2 =>
        split at h
        all_goals cases h
      case h_3 name value hword =>
        rw [bind_eq_ok] at h
        obtain ⟨next, hnext, hrest⟩ := h
        obtain ⟨flag, hflag, rfl⟩ := isSpelled_of_long hword hnext
        exact .inr ⟨flag, hflag, hrest⟩
      case h_4 letters hword =>
        rw [bind_eq_ok] at h
        obtain ⟨next, hnext, hrest⟩ := h
        obtain ⟨flag, hflag, rfl⟩ := isSpelled_of_letters hword hnext
        exact .inr ⟨flag, hflag, hrest⟩

/-- Reading that comes to the subcommand notes the flags that the words on
both sides give. The two sides are noted apart, since a flag may stand once on
either, and are put together only here. -/
theorem readBefore_eq_ok {words : List OsString} {before : List Flag} {behind : Given} :
    ∀ {given : Given}, readBefore given words = .ok ⟨before, some behind⟩ →
      ∀ flag, flag ∈ before ++ behind.flags
        ↔ flag ∈ given.flags ∨ isGiven words flag = true := by
  induction words with
  | nil =>
      intro given h
      rw [readBefore] at h
      cases h
  | cons word words ih =>
      intro given h flag
      rcases readBefore_cons_eq_ok h with ⟨rfl, rfl, hbehind⟩ | ⟨noted, hword, hrest⟩
      · -- the name of the subcommand is a plain word
        have hplain : flag.isSpelled (.ofString "tokenize") = false :=
          Shape.isSpelled_of_plain (by rw [Shape.ofWord_ofString]; decide) flag
        have hdash : OsString.ofString "tokenize" ≠ .ofString "--" := by
          rw [Ne, OsString.ofString_inj]
          decide
        rw [List.mem_append, readBehind_eq_ok hbehind, isGiven_cons hdash, hplain,
          Bool.false_or]
        simp [Given.nothing]
      · rw [ih hrest, Given.mem_noting_or_isGiven_iff hword]

-- ============================================================ the flags

/-- Where there is a request, the arguments name the subcommand, and the flags
are on that stand on either side of it or have their variable say so. -/
theorem readArguments_eq_ok {env : Environment} {arguments : List OsString} {r : Request}
    (h : readArguments env arguments = .ok r) (flag : Flag) :
    r.isOn flag = isOn env arguments flag := by
  rw [readArguments, bind_eq_ok] at h
  obtain ⟨⟨before, tokenize⟩, hread, hrequest⟩ := h
  unfold Invocation.request at hrequest
  cases tokenize with
  | none =>
      rw [bind_eq_ok] at hrequest
      obtain ⟨_, -, hrequest⟩ := hrequest
      split at hrequest
      all_goals cases hrequest
  | some behind =>
      -- two checks of the variables, and the file between them
      rw [bind_eq_ok] at hrequest
      obtain ⟨_, -, hrequest⟩ := hrequest
      split at hrequest
      case h_1 => cases hrequest
      case h_2 file _ =>
        rw [bind_eq_ok] at hrequest
        obtain ⟨_, -, hrequest⟩ := hrequest
        cases hrequest
        have hon : ∀ flag : Flag,
            env.turnsOn (before ++ behind.flags) flag = isOn env arguments flag := by
          intro flag
          have hgiven : decide (flag ∈ before ++ behind.flags) = isGiven arguments flag := by
            rw [Bool.eq_iff_iff, decide_eq_true_eq, readBefore_eq_ok hread]
            simp [Given.nothing]
          rw [Environment.turnsOn, isOn, hgiven]
        cases flag with
        | verbose => exact hon .verbose
        | noColor => exact hon .noColor

/-- A request is handed on as it is. -/
theorem builtinArguments_parse_eq_ok {env : Environment} {arguments : List OsString}
    {r : Request} :
    builtinArguments.parse env arguments = .ok r ↔ readArguments env arguments = .ok r := by
  show (readArguments env arguments).mapError _ = _ ↔ _
  cases readArguments env arguments with
  | error halt => exact ⟨nofun, nofun⟩
  | ok request => simp only [Except.mapError, Except.ok.injEq]

/-- And so is the reason why there is none, with the variables. -/
theorem builtinArguments_parse_eq_error {env : Environment} {arguments : List OsString}
    {halt : Halt} :
    builtinArguments.parse env arguments = .error ⟨env, halt⟩
      ↔ readArguments env arguments = .error halt := by
  show (readArguments env arguments).mapError _ = _ ↔ _
  cases readArguments env arguments with
  | error other => simp [Except.mapError]
  | ok request => exact ⟨nofun, nofun⟩

/-- The built-in reader tells of the flags what is documented. -/
theorem builtinArguments_flags : builtinArguments.FlagsAsDocumented :=
  fun h flag => readArguments_eq_ok (builtinArguments_parse_eq_ok.1 h) flag

-- ============================================================ the texts

/-- What is no part of a sequence is shown as it is, up to the first that
is. So a text whose front holds no escape keeps this front, whatever is behind
it. -/
theorem isPrefix_plain {front : List Char} {text : String} (h : front <+: text.toList)
    (hfront : front.all (SequenceState.read .outside · == (.outside, true)) = true) :
    front <+: (plain text).toList := by
  obtain ⟨rest, hrest⟩ := h
  rw [plain, String.toList_ofList, ← hrest]
  refine ⟨SequenceState.shown .outside rest, ?_⟩
  clear hrest
  induction front with
  | nil => rfl
  | cons c front ih =>
      rw [List.all_cons, Bool.and_eq_true, beq_iff_eq] at hfront
      rw [List.cons_append, List.cons_append, SequenceState.shown, hfront.1]
      exact congrArg (c :: ·) (ih hfront.2)

theorem isPrefix_append {front : List Char} {s : String} (h : front <+: s.toList)
    (t : String) : front <+: (s ++ t).toList := by
  rw [String.toList_append]
  exact h.trans (List.prefix_append _ _)

/-- Each complaint begins by saying that it is one. -/
theorem isPrefix_message (complaint : Complaint) :
    "error:".toList <+: complaint.message.toList := by
  cases complaint with
  | missingFile | emptyFile | missingSubcommand => decide
  | unrecognizedSubcommand word => exact isPrefix_append (by decide) _
  | unexpectedArgument word | repeatedFlag flag | emptyVariable flag =>
      exact isPrefix_append (isPrefix_append (by decide) _) _
  | invalidVariable value flag | unneededValue value option =>
      exact isPrefix_append (isPrefix_append (isPrefix_append (isPrefix_append
        (by decide) _) _) _) _

/-- The first lines of a page, which hold nothing from outside. -/
def Page.opening (page : Page) : List String := (page.lines ⟨none, none, none⟩).take 5

/-- Each page begins with its first lines, whatever the variables are. -/
theorem Page.isPrefix_opening (page : Page) (env : Environment) :
    (unlines page.opening).toList <+: (plain (unlines (page.lines env))).toList := by
  refine isPrefix_plain ?_ ?_
  · have htake : page.opening = (page.lines env).take 5 := by
      cases page with
      | tokenize full => cases full <;> simp [opening, lines]
      | overview | help | version => simp [opening, lines]
    rw [toList_unlines, toList_unlines, htake]
    refine ⟨((page.lines env).drop 5).flatMap fun line => line.toList ++ ['\n'], ?_⟩
    rw [← List.flatMap_append, List.take_append_drop]
  · cases page with
    | tokenize full => cases full <;> decide +kernel
    | overview | help | version => decide +kernel

/-- The built-in reader gives the texts that are documented, where they are
documented to be. The word that tells a text is among its first lines, which hold
nothing from outside and so are never taken for an escape. -/
theorem builtinArguments_stops : builtinArguments.StopsAsDocumented where
  usesStderr := by
    rintro ⟨env, halt⟩
    cases halt with
    | page page =>
        cases page
        all_goals exact ⟨nofun, fun h => by simp [builtinArguments, BuiltinStop.kind] at h⟩
    | reject complaint => exact ⟨fun _ => ⟨nofun, nofun⟩, fun _ => rfl⟩
    | nothingGiven => exact ⟨fun _ => ⟨nofun, nofun⟩, fun _ => rfl⟩
  stream := fun _ => rfl
  usage := by
    rintro ⟨env, halt⟩ h
    have husage : ∀ page : Page, page ≠ .version →
        "Usage:".toList <:+: (unlines page.opening).toList := by
      intro page hpage
      cases page with
      | tokenize full => cases full <;> decide +kernel
      | overview | help => decide +kernel
      | version => exact absurd rfl hpage
    cases halt with
    | reject complaint => rcases h with h | h <;> cases h
    | nothingGiven =>
        exact (husage .overview nofun).trans (Page.isPrefix_opening .overview env).isInfix
    | page page =>
        refine (husage page ?_).trans (page.isPrefix_opening env).isInfix
        rintro rfl
        rcases h with h | h <;> cases h
  version := by
    rintro ⟨env, halt⟩ h
    cases halt with
    | reject | nothingGiven => cases h
    | page page =>
        cases page with
        | overview | tokenize | help => cases h
        | version =>
            have hname : "lox".toList <:+: (unlines Page.version.opening).toList := by
              decide +kernel
            exact hname.trans (Page.version.isPrefix_opening env).isInfix
  complaint := by
    rintro ⟨env, halt⟩ h
    cases halt with
    | page page => cases page <;> cases h
    | nothingGiven => cases h
    | reject complaint =>
        have hplain := isPrefix_plain (isPrefix_message complaint) (by decide +kernel)
        exact (isPrefix_append hplain "\n").isInfix

end LoxLexer.Command
