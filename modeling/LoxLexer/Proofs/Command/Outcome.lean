/-
How a run ends. There are three ways, and each run takes exactly one of them
(`run_outcome`): a page is shown, or the run fails, or the tokens of a file
are printed. Which of them it is, is decided by the reader of the arguments
and by the file: what was asked for is what happens.

# What the reader is trusted with

It makes a request of the arguments or gives a reason why not, and either is
taken as it comes. What is needed of its documentation is which reasons are
printed where, and that their texts are not empty (`StopsAsDocumented`). The
program asks the reader itself which stream it used, and makes the exit code
of that.

# What tells the ways apart

A failure has the exit code 1, and no other run has it. A page comes with the
exit code 0, and so do the tokens of a file without faults; but a page is
shown without any file being read, while tokens come from a file.
-/
import LoxLexer.Command.Run
import LoxLexer.Proofs.Builtin.Arguments
import LoxLexer.Proofs.Command.Program
import LoxLexer.Proofs.Scan.Basic

namespace LoxLexer.Command

-- ==================================================== the error output

/-- The text of a message that is no record of the log. -/
def Message.text? : Message → Option String
  | .text shown => some shown
  | .record _ => none

/-- What is written to the error output besides the log, text by text. Records
carry a time, and whether they are there depends on settings; these do not. -/
def Outcome.texts (o : Outcome) : List String := o.stderr.filterMap Message.text?

section

variable {Filter : Type} (lg : Logging Filter)

theorem filterMap_text?_messages (events : List Log.Event) :
    (lg.messages events).filterMap Message.text? = [] := by
  rw [Logging.messages, List.filterMap_map]
  exact List.filterMap_eq_nil_iff.2 fun _ _ => rfl

theorem filterMap_text?_errors (errors : List Diagnostic) :
    (errors.map fun d => Message.text (d.render ++ "\n")).filterMap Message.text?
      = errors.map fun d => d.render ++ "\n" := by
  rw [List.filterMap_map]
  exact congrFun List.filterMap_eq_map errors

/-- Besides the log there are the diagnostics of a text, each as its own
line. -/
theorem texts_success (file : OsString) (source : String) :
    (lg.success file source).texts = (scan source).errors.map fun d => d.render ++ "\n" := by
  rw [Logging.success, Outcome.texts]
  dsimp only
  rw [List.filterMap_append, List.filterMap_append, List.filterMap_append,
    filterMap_text?_messages, filterMap_text?_messages, filterMap_text?_messages,
    filterMap_text?_errors, List.nil_append, List.nil_append, List.append_nil]

/-- Besides the log there is one line about a file that cannot be read. -/
theorem texts_failure (file : OsString) (why : ReadFailure) :
    (lg.failure file why).texts
      = ["Error: failed to read " ++ file.display ++ ": " ++ why.message ++ "\n"] := by
  rw [Logging.failure, Outcome.texts]
  dsimp only
  rw [List.filterMap_append, filterMap_text?_messages, ← String.append_assoc,
    ← String.append_assoc, ← String.append_assoc]
  rfl

end

-- ============================================================= the ways

section

variable {Stop Filter : Type} (p : Libraries Stop Filter) (env : Environment)
  (arguments : List OsString) (read : OsString → Content)

/-- Whether the arguments ask for a page, of help or of the version. The reader
of the arguments says so, by the kind of its reason for giving no request. -/
def AsksForPage : Prop :=
  ∃ stop, p.arguments.parse env arguments = .error stop
    ∧ (p.arguments.kind stop = .help ∨ p.arguments.kind stop = .version)

/-- A page is shown: it is written to the standard output, and nothing to the
other. No file is read. -/
structure ShowsPage : Prop where
  page : ∃ stop, p.arguments.parse env arguments = .error stop
    ∧ (p.arguments.kind stop = .help ∨ p.arguments.kind stop = .version)
    ∧ (p.run env arguments read).stdout = p.arguments.text stop
  shown : (p.run env arguments read).stdout ≠ ""
  stderr : (p.run env arguments read).stderr = []
  exitCode : (p.run env arguments read).exitCode = 0
  unread : (p.run env arguments read).reads = []

/-- What keeps a run from printing tokens: the arguments or the variables of
the flags are rejected, nothing is given, or the file cannot be read, or it is
not the UTF-8 form of any text. -/
inductive Obstacle : Prop where
  | rejected {stop : Stop} (h : p.arguments.parse env arguments = .error stop)
      (hkind : p.arguments.kind stop = .complaint)
  | nothingGiven {stop : Stop} (h : p.arguments.parse env arguments = .error stop)
      (hkind : p.arguments.kind stop = .nothingGiven)
  | unreadable {r : Request} {why : ReadFailure}
      (h : p.arguments.parse env arguments = .ok r) (hread : read r.file = .error why)
  | noText {r : Request} {bytes : ByteArray}
      (h : p.arguments.parse env arguments = .ok r) (hread : read r.file = .ok bytes)
      (hbytes : ∀ text : String, text.toUTF8 ≠ bytes)

/-- A run fails: it says so on the error output, and prints nothing. -/
structure Fails : Prop where
  obstacle : Obstacle p env arguments read
  exitCode : (p.run env arguments read).exitCode = 1
  stdout : (p.run env arguments read).stdout = ""
  stderr : ∃ text ∈ (p.run env arguments read).texts, text ≠ ""

/-- The tokens of a source are printed, which stands in UTF-8 in the file that
the request is for; this is the one that is read. Its diagnostics are on the
error output, each on a line of its own, and the exit code tells whether there
are any. -/
structure PrintsTokens (source : String) : Prop where
  request : ∃ r, p.arguments.parse env arguments = .ok r
    ∧ read r.file = .ok source.toUTF8
    ∧ (p.run env arguments read).reads = [r.file]
  stdout : (p.run env arguments read).stdout
    = unlines ((scan source).tokens.map Token.render)
  ending : ∃ before, (p.run env arguments read).stdout = before ++ "EOF  null\n"
  stderr : (p.run env arguments read).texts
    = (scan source).errors.map fun d => d.render ++ "\n"
  exitCode : (p.run env arguments read).exitCode
    = if (scan source).errors = [] then 0 else 65

/-- The ways in which a run can end. -/
inductive Ending where
  | page
  | failure
  | tokens

/-- Whether a run ends in a way. -/
def EndsIn : Ending → Prop
  | .page => ShowsPage p env arguments read
  | .failure => Fails p env arguments read
  | .tokens => ∃ source, PrintsTokens p env arguments read source

end

-- ============================================== what is asked for happens

variable {Stop Filter : Type} {p : Libraries Stop Filter} {env : Environment}
  {arguments : List OsString} {read : OsString → Content}

/-- A text with a word in it is not empty. -/
theorem ne_empty_of_isInfix {word text : String} (h : word.toList <:+: text.toList)
    (hword : word ≠ "") : text ≠ "" := by
  rintro rfl
  exact hword (String.toList_eq_nil_iff.1 (List.infix_nil.1 h))

/-- No text of the reader is empty, whichever kind it is of. -/
theorem text_ne_empty (ha : p.arguments.StopsAsDocumented) (stop : Stop) :
    p.arguments.text stop ≠ "" := by
  cases hkind : p.arguments.kind stop with
  | help => exact ne_empty_of_isInfix (ha.usage stop (.inl hkind)) (by decide)
  | version => exact ne_empty_of_isInfix (ha.version stop hkind) (by decide)
  | nothingGiven => exact ne_empty_of_isInfix (ha.usage stop (.inr hkind)) (by decide)
  | complaint => exact ne_empty_of_isInfix (ha.complaint stop hkind) (by decide)

/-- Where help or the version is asked for, it is shown. The reader does not use
the error output then, so the program takes this for a success. -/
theorem showsPage (ha : p.arguments.StopsAsDocumented) (h : AsksForPage p env arguments) :
    ShowsPage p env arguments read := by
  obtain ⟨stop, hstop, hkind⟩ := h
  have huses : p.arguments.usesStderr stop = false := by
    rw [← Bool.not_eq_true, ha.usesStderr]
    rintro ⟨hhelp, hversion⟩
    exact hkind.elim hhelp hversion
  -- so the text goes to the standard output, and the exit code is 0
  have hrun : p.run env arguments read
      = ⟨⟨p.arguments.text stop, [], []⟩, 0⟩ := by
    rw [run_of_error hstop, ha.stream, huses]
    show Outcome.mk ⟨"" ++ p.arguments.text stop, [], []⟩ 0 = _
    rw [String.empty_append]
  exact
    { page := ⟨stop, hstop, hkind, by rw [hrun]⟩
      shown := by
        rw [hrun]
        exact text_ne_empty ha stop
      stderr := by rw [hrun]
      exitCode := by rw [hrun]
      unread := by rw [hrun] }

/-- Without a request, and with no page asked for, the run fails. What it writes
is the text of the reader and nothing else. -/
theorem fails_of_stop (ha : p.arguments.StopsAsDocumented) {stop : Stop}
    (h : p.arguments.parse env arguments = .error stop)
    (hkind : p.arguments.kind stop ≠ .help ∧ p.arguments.kind stop ≠ .version)
    (hobstacle : Obstacle p env arguments read) : Fails p env arguments read := by
  have huses : p.arguments.usesStderr stop = true := (ha.usesStderr stop).2 hkind
  have hrun : p.run env arguments read
      = ⟨⟨"", [.text (p.arguments.text stop)], []⟩, 1⟩ := by
    rw [run_of_error h, ha.stream, huses]
    rfl
  exact
    { obstacle := hobstacle
      exitCode := by rw [hrun]
      stdout := by rw [hrun]
      stderr := by
        rw [hrun]
        exact ⟨_, List.mem_singleton_self _, text_ne_empty ha stop⟩ }

/-- A file that cannot be read makes the run fail. The message ends with a line
end, so it is not empty whatever the name of the file is. -/
theorem fails_of_error {r : Request} {why : ReadFailure}
    (h : p.arguments.parse env arguments = .ok r) (hread : (read r.file).text = .error why)
    (hobstacle : Obstacle p env arguments read) : Fails p env arguments read := by
  have hrun : p.run env arguments read
      = (Logging.ofRequest p.log env r).failure r.file why := by
    rw [run_of_ok h, Logging.outcome, hread]
  refine ⟨hobstacle, by rw [hrun]; rfl, by rw [hrun]; rfl, ?_⟩
  rw [hrun, texts_failure]
  refine ⟨_, List.mem_singleton_self _, fun hempty => ?_⟩
  have hlast := congrArg (fun s : String => s.toList.getLast?) hempty
  simp at hlast

/-- Each obstacle makes the run fail: two of them are met before a file is
read, and two in reading it. -/
theorem fails (ha : p.arguments.StopsAsDocumented) (h : Obstacle p env arguments read) :
    Fails p env arguments read := by
  cases h with
  | rejected hstop hkind =>
      exact fails_of_stop ha hstop (by rw [hkind]; exact ⟨nofun, nofun⟩)
        (.rejected hstop hkind)
  | nothingGiven hstop hkind =>
      exact fails_of_stop ha hstop (by rw [hkind]; exact ⟨nofun, nofun⟩)
        (.nothingGiven hstop hkind)
  | unreadable hr hread =>
      exact fails_of_error hr (by rw [hread]; rfl) (.unreadable hr hread)
  | noText hr hread hbytes =>
      have htext : Content.text (.ok _) = .error .invalidText :=
        Content.text_of_forall_toUTF8_ne hbytes
      exact fails_of_error hr (hread ▸ htext) (.noText hr hread hbytes)

/-- The last printed line is that of the end of the input. Its name is printed
with the spaces of a lexeme that is empty and a value that is not there. -/
theorem exists_unlines_eq (source : String) :
    ∃ before, unlines ((scan source).tokens.map Token.render) = before ++ "EOF  null\n" := by
  have hend : ∀ line, unlines [(Token.eof line).render] = "EOF  null\n" := by
    intro line
    show unlines ["EOF" ++ " " ++ "" ++ " " ++ "null"] = _
    decide +kernel
  refine ⟨unlines (((segments source).filterMap (Segment.token? source)).map Token.render),
    ?_⟩
  rw [← hend (lastLine (segments source)), unlines, unlines, unlines,
    ← String.join_append, ← List.map_append, ← List.map_singleton, ← List.map_append]
  rfl

/-- The exit code says whether there are diagnostics. -/
theorem exitCode_eq (s : Scan) : s.exitCode = if s.errors = [] then 0 else 65 := by
  unfold Scan.exitCode Scan.hadError
  cases s.errors with
  | nil => rfl
  | cons => rfl

/-- Where the file holds a source, its tokens are printed, also where it has
faults. -/
theorem printsTokens {r : Request} {source : String}
    (h : p.arguments.parse env arguments = .ok r) (hread : read r.file = .ok source.toUTF8) :
    PrintsTokens p env arguments read source := by
  have hrun : p.run env arguments read
      = (Logging.ofRequest p.log env r).success r.file source := by
    rw [run_of_ok h, Logging.outcome, Content.text_eq_ok_iff.2 hread]
  refine ⟨⟨r, h, hread, by rw [hrun]; rfl⟩, by rw [hrun]; rfl, ?_, ?_, ?_⟩
  · rw [hrun]
    exact exists_unlines_eq source
  · rw [hrun, texts_success]
  · rw [hrun, ← exitCode_eq]
    rfl

-- ======================================================== each run has one way

/-- Each run ends in one of the ways. The cases are those of the program: what
the reader of the arguments gives, and with a request what the file holds. -/
theorem exists_endsIn (ha : p.arguments.StopsAsDocumented) (env : Environment)
    (arguments : List OsString) (read : OsString → Content) :
    ∃ ending, EndsIn p env arguments read ending := by
  cases hparse : p.arguments.parse env arguments with
  | error stop =>
      cases hkind : p.arguments.kind stop with
      | help => exact ⟨.page, showsPage ha ⟨stop, hparse, .inl hkind⟩⟩
      | version => exact ⟨.page, showsPage ha ⟨stop, hparse, .inr hkind⟩⟩
      | nothingGiven => exact ⟨.failure, fails ha (.nothingGiven hparse hkind)⟩
      | complaint => exact ⟨.failure, fails ha (.rejected hparse hkind)⟩
  | ok r =>
      cases hread : read r.file with
      | error why => exact ⟨.failure, fails ha (.unreadable hparse hread)⟩
      | ok bytes =>
          by_cases hbytes : ∃ text : String, text.toUTF8 = bytes
          · obtain ⟨source, rfl⟩ := hbytes
            exact ⟨.tokens, source, printsTokens hparse hread⟩
          · exact ⟨.failure, fails ha
              (.noText hparse hread fun text htext => hbytes ⟨text, htext⟩)⟩

/-- What prints tokens has read a file, and what shows a page has not. The two
cannot be told apart by their exit codes. -/
theorem not_printsTokens_of_showsPage (h : ShowsPage p env arguments read)
    (source : String) : ¬ PrintsTokens p env arguments read source := by
  intro htokens
  obtain ⟨r, -, -, hreads⟩ := htokens.request
  rw [h.unread] at hreads
  cases hreads

theorem not_fails_of_showsPage (h : ShowsPage p env arguments read) :
    ¬ Fails p env arguments read := by
  intro hfails
  have hcode := hfails.exitCode
  rw [h.exitCode] at hcode
  cases hcode

theorem not_fails_of_printsTokens {source : String}
    (h : PrintsTokens p env arguments read source) : ¬ Fails p env arguments read := by
  intro hfails
  have hcode := hfails.exitCode
  rw [h.exitCode] at hcode
  split at hcode
  all_goals cases hcode

/-- No run ends in two ways. With the lemma before, what is asked for and what
happens are the same: each of the ways has one cause. -/
theorem endsIn_unique {ending other : Ending} (h : EndsIn p env arguments read ending)
    (hother : EndsIn p env arguments read other) : ending = other := by
  cases ending with
  | page =>
      cases other with
      | page => rfl
      | failure => exact absurd hother (not_fails_of_showsPage h)
      | tokens =>
          obtain ⟨source, htokens⟩ := hother
          exact absurd htokens (not_printsTokens_of_showsPage h source)
  | failure =>
      cases other with
      | page => exact absurd h (not_fails_of_showsPage hother)
      | failure => rfl
      | tokens =>
          obtain ⟨source, htokens⟩ := hother
          exact absurd h (not_fails_of_printsTokens htokens)
  | tokens =>
      obtain ⟨source, htokens⟩ := h
      cases other with
      | page => exact absurd htokens (not_printsTokens_of_showsPage hother source)
      | failure => exact absurd hother (not_fails_of_printsTokens htokens)
      | tokens => rfl

/-- With any reader of arguments that keeps to its documentation, and any log,
a run ends in exactly one way: with a page, with a failure, or with the tokens
of a file. It ends with a page just when one is asked for, with a failure just
when there is an obstacle, and with the tokens of a source just when the
request is for a file that holds it. With the exit code 65 it has printed
tokens, and at least one diagnostic; with the exit code 1 it has failed, and
printed nothing. -/
theorem run_outcome (ha : p.arguments.StopsAsDocumented) (env : Environment)
    (arguments : List OsString) (read : OsString → Content) :
    (∃! ending, EndsIn p env arguments read ending)
      ∧ (AsksForPage p env arguments ↔ ShowsPage p env arguments read)
      ∧ (Obstacle p env arguments read ↔ Fails p env arguments read)
      ∧ (∀ source, (∃ r, p.arguments.parse env arguments = .ok r
            ∧ read r.file = .ok source.toUTF8)
          ↔ PrintsTokens p env arguments read source)
      ∧ ((p.run env arguments read).exitCode = 65
        ↔ ∃ source, PrintsTokens p env arguments read source ∧ (scan source).errors ≠ [])
      ∧ ((p.run env arguments read).exitCode = 1 ↔ Fails p env arguments read) := by
  obtain ⟨ending, hends⟩ := exists_endsIn ha env arguments read
  refine ⟨⟨ending, hends, fun other hother => endsIn_unique hother hends⟩,
    ⟨showsPage ha, ?_⟩, ⟨fails ha, Fails.obstacle⟩, fun source => ⟨?_, ?_⟩, ⟨?_, ?_⟩, ?_⟩
  · intro hshows
    obtain ⟨stop, hstop, hkind, -⟩ := hshows.page
    exact ⟨stop, hstop, hkind⟩
  · rintro ⟨r, hr, hread⟩
    exact printsTokens hr hread
  · intro hprints
    obtain ⟨r, hr, hread, -⟩ := hprints.request
    exact ⟨r, hr, hread⟩
  · -- neither a page nor a failure has this code
    intro h65
    cases ending with
    | page => exact absurd (h65.symm.trans (ShowsPage.exitCode hends)) (by decide)
    | failure => exact absurd (h65.symm.trans (Fails.exitCode hends)) (by decide)
    | tokens =>
        obtain ⟨source, htokens⟩ := hends
        refine ⟨source, htokens, fun hnone => ?_⟩
        rw [htokens.exitCode, if_pos hnone] at h65
        cases h65
  · rintro ⟨source, htokens, hsome⟩
    rw [htokens.exitCode, if_neg hsome]
  · refine ⟨fun h1 => ?_, Fails.exitCode⟩
    cases ending with
    | page => exact absurd (h1.symm.trans (ShowsPage.exitCode hends)) (by decide)
    | failure => exact hends
    | tokens =>
        obtain ⟨source, htokens⟩ := hends
        rw [htokens.exitCode] at h1
        split at h1
        all_goals cases h1

theorem atTexts_ofString (read : String → Content) (name : String) :
    atTexts read (.ofString name) = read name := by
  rw [atTexts, OsString.text?_ofString]
  rfl

/-- Three runs of the executable: one that asks for the version, behind a flag
and with a variable that is not looked at, one with a variable that is no word
for a flag, and one on a file with a fault. -/
theorem run_outcome_fault :
    let read : String → Content := fun _ => .ok "#".toUTF8
    let names (arguments : List String) : List OsString := arguments.map .ofString
    ShowsPage builtin (Variables.environment ⟨none, some "1", none⟩) (names ["-v", "--version"])
        (atTexts read)
      ∧ Fails builtin (Variables.environment ⟨none, some "1", none⟩)
        (names ["tokenize", "a.lox"]) (atTexts read)
      ∧ PrintsTokens builtin (Variables.environment ⟨none, none, none⟩)
        (names ["tokenize", "a.lox"]) (atTexts read) "#"
      ∧ (run ⟨none, none, none⟩ ["tokenize", "a.lox"] read).exitCode = 65 := by
  intro read names
  obtain ⟨-, hpage, -⟩ := run_outcome (p := builtin) builtinArguments_stops
    (Variables.environment ⟨none, some "1", none⟩) (names ["-v", "--version"]) (atTexts read)
  obtain ⟨-, -, hfails, -⟩ := run_outcome (p := builtin) builtinArguments_stops
    (Variables.environment ⟨none, some "1", none⟩) (names ["tokenize", "a.lox"]) (atTexts read)
  obtain ⟨-, -, -, htokens, hcode, -⟩ := run_outcome (p := builtin) builtinArguments_stops
    (Variables.environment ⟨none, none, none⟩) (names ["tokenize", "a.lox"]) (atTexts read)
  have hversion : builtin.arguments.parse (Variables.environment ⟨none, some "1", none⟩)
      (names ["-v", "--version"]) = .error ⟨_, .page .version⟩ :=
    builtinArguments_parse_eq_error.2 (by decide +kernel)
  have hinvalid : builtin.arguments.parse (Variables.environment ⟨none, some "1", none⟩)
      (names ["tokenize", "a.lox"]) = .error ⟨_, .reject (.invalidVariable "1" .noColor)⟩ :=
    builtinArguments_parse_eq_error.2 (by decide +kernel)
  have hprints := (htokens "#").1 ⟨⟨false, false, .ofString "a.lox"⟩,
    builtinArguments_parse_eq_ok.2 (by decide +kernel), atTexts_ofString read "a.lox"⟩
  exact ⟨hpage.1 ⟨_, hversion, .inr rfl⟩, hfails.1 (.rejected hinvalid rfl), hprints,
    hcode.2 ⟨"#", hprints, by decide +kernel⟩⟩

end LoxLexer.Command
