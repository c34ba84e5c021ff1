/-
What the settings of the log can change. They make the filter and the colour
of a log, and nothing of a run but its records looks at these
(`outcome_congr`). So two runs on one file print the same tokens, the same
diagnostics and the same complaint, and exit with the same code, however they
log; and where settings lead to the same log it does not matter how they were
made.

# More is logged

A filter made from a list of levels and targets looks at nothing else of an
event. The scan that an event happens in has the target and the level of the
event, so where the event is admitted the scan is shown, and two such filters
that admit an event write the same record of it (`record?_eq`). Hence, where
one filter enables more than another, the messages of the other run are among
those of the one, in their order (`sublist_stderr`).
-/
import LoxLexer.Proofs.Builtin.Log
import LoxLexer.Proofs.Command.Outcome

namespace LoxLexer.Command

variable {Stop Filter : Type}

-- ============================================================ the result

/-- What is written besides the log when a content is read: the diagnostics of
its text, or why there is none. -/
def textsOf (file : OsString) (content : Content) : List String :=
  match content.text with
  | .ok source => (scan source).errors.map fun d => d.render ++ "\n"
  | .error why =>
    ["Error: failed to read " ++ file.display ++ ": " ++ why.message ++ "\n"]

/-- They are the same with every log. -/
theorem texts_outcome (lg : Logging Filter) (file : OsString) (content : Content) :
    (lg.outcome file content).texts = textsOf file content := by
  unfold Logging.outcome textsOf
  cases content.text with
  | error why => exact texts_failure lg file why
  | ok source => exact texts_success lg file source

/-- The code and the tokens are the same with any other log. -/
theorem outcome_congr (lg other : Logging Filter) (file : OsString) (content : Content) :
    (lg.outcome file content).exitCode = (other.outcome file content).exitCode
      ∧ (lg.outcome file content).stdout = (other.outcome file content).stdout := by
  unfold Logging.outcome
  cases content.text with
  | error why => exact ⟨rfl, rfl⟩
  | ok source => exact ⟨rfl, rfl⟩

-- ========================================================== more is logged

/-- Events of the scan have the target and the level of its span. -/
theorem site_of_scanned {e : Log.Event} {bytes : Nat} (h : e.scanned? = some bytes) :
    e.target = Log.scanSite.target ∧ e.level = Log.scanSite.level := by
  cases e with
  | tokenizing | done => cases h
  | lexicalError | scanFinished => exact ⟨rfl, rfl⟩

namespace Logging

variable {lg : Logging Filter}

/-- What an event is admitted by, where the filter looks at nothing else: its
target and its level, as the library is documented to say. -/
theorem admits_event (h : lg.library.LooksAtTargets lg.filter) (e : Log.Event) :
    lg.library.admits lg.filter e.scanned? e.site
      = lg.library.enables lg.filter e.target e.level :=
  h e.scanned? e.site

/-- The record of an event that is enabled shows the scan it happens in: the
filter enables that too. Were it otherwise, two filters could both write a record
of the event and show the scan in one of them only. -/
theorem record?_eq (h : lg.library.LooksAtTargets lg.filter) (e : Log.Event) :
    lg.record? e = if lg.library.enables lg.filter e.target e.level = true
      then some (lg.library.render lg.coloured e.scanned? e) else none := by
  rw [record?, admits_event h]
  split
  case isFalse => rfl
  case isTrue hadmits =>
    cases hscanned : e.scanned? with
    | none => rfl
    | some bytes =>
        obtain ⟨htarget, hlevel⟩ := site_of_scanned hscanned
        rw [htarget, hlevel, ← h none] at hadmits
        rw [Option.filter_some, hadmits, if_pos rfl]

end Logging

section

variable {l : LogLibrary Filter} {f g : Filter}

/-- Where one filter enables what another does, its log holds that of the
other. The induction is on the events, and goes by which of the two logs has a
record of the next. -/
theorem sublist_messages (hf : l.LooksAtTargets f) (hg : l.LooksAtTargets g)
    (h : ∀ e : Log.Event, l.enables f e.target e.level = true →
      l.enables g e.target e.level = true) (coloured : Bool) (events : List Log.Event) :
    ((Logging.mk l f coloured).messages events).Sublist
      ((Logging.mk l g coloured).messages events) := by
  unfold Logging.messages
  refine List.Sublist.map _ ?_
  induction events with
  | nil => exact List.Sublist.refl _
  | cons e events ih =>
      rw [List.filterMap_cons, List.filterMap_cons, Logging.record?_eq hf,
        Logging.record?_eq hg]
      dsimp only
      by_cases hone : l.enables f e.target e.level = true
      · rw [if_pos hone, if_pos (h e hone)]
        exact ih.cons_cons _
      · rw [if_neg hone]
        -- the other log may have the record or not
        by_cases hother : l.enables g e.target e.level = true
        · rw [if_pos hother]
          exact ih.cons _
        · rw [if_neg hother]
          exact ih

/-- And so does all that is written to the error output: what is not of the log
is the same in both, and stands in the same places. -/
theorem sublist_stderr (hf : l.LooksAtTargets f) (hg : l.LooksAtTargets g)
    (h : ∀ e : Log.Event, l.enables f e.target e.level = true →
      l.enables g e.target e.level = true) (coloured : Bool) (file : OsString)
    (content : Content) :
    ((Logging.mk l f coloured).outcome file content).stderr.Sublist
      ((Logging.mk l g coloured).outcome file content).stderr := by
  have hlog := sublist_messages hf hg h coloured
  unfold Logging.outcome
  cases content.text with
  | error why => exact (hlog _).append (List.Sublist.refl _)
  | ok source =>
      exact (((hlog _).append (hlog _)).append (List.Sublist.refl _)).append (hlog _)

end

/-- A variable for the log without brackets makes a filter that looks at
targets and levels alone, and so does one that is unset or cannot be read. -/
theorem looksAtTargets_ofRequest {l : LogLibrary Filter} (hl : l.ListsAsDocumented)
    {env : Environment}
    (h : ∀ value f, env.log = some value → l.ofVariable? value = some f →
      '['.toUInt8 ∉ value.bytes) (r : Request) :
    l.LooksAtTargets (Logging.ofRequest l env r).filter := by
  have hdefault : l.LooksAtTargets (l.ofText (if r.verbose then "debug" else "warn")) :=
    hl.ofText (by split <;> decide)
  unfold Logging.ofRequest
  dsimp only
  cases hlog : env.log with
  | none => exact hdefault
  | some value =>
      rw [Option.bind_some]
      cases hread : l.ofVariable? value with
      | none => exact hdefault
      | some f => exact hl.ofVariable hread (h value f hlog hread)

-- ============================================================== two runs

/-- With any libraries that keep to their documentation, two runs on one file
have the same exit code, print the same tokens, and write the same to the
error output besides the log, however they log. With the same readable
variable for the log, and the same colours, they are the same in all but their
time stamps, whether verbose or not. Without such a variable they are the same
where the same flags are on, wherever that comes from. And where the filter of
the one enables no more than that of the other, and neither asks for a span or
a field, which takes a bracket, the messages of the one are among those of the
other, in their order. -/
theorem run_log_settings {p : Libraries Stop Filter} (hflags : p.arguments.FlagsAsDocumented)
    (hlists : p.log.ListsAsDocumented) (read : OsString → Content)
    {env env' : Environment} {arguments others : List OsString} {r q : Request}
    (hr : p.arguments.parse env arguments = .ok r)
    (hq : p.arguments.parse env' others = .ok q) (hfile : r.file = q.file) :
    ((p.run env arguments read).exitCode = (p.run env' others read).exitCode
        ∧ (p.run env arguments read).stdout = (p.run env' others read).stdout
        ∧ (p.run env arguments read).texts = textsOf q.file (read q.file)
        ∧ (p.run env' others read).texts = textsOf q.file (read q.file))
      ∧ (∀ value f, env.log = some value → env'.log = some value →
          p.log.ofVariable? value = some f →
          isOn env arguments .noColor = isOn env' others .noColor →
            p.run env arguments read = p.run env' others read)
      ∧ (env.log.bind p.log.ofVariable? = none → env'.log.bind p.log.ofVariable? = none →
          (∀ flag, isOn env arguments flag = isOn env' others flag) →
            p.run env arguments read = p.run env' others read)
      ∧ ((∀ value f, env.log = some value → p.log.ofVariable? value = some f →
            '['.toUInt8 ∉ value.bytes) →
          (∀ value f, env'.log = some value → p.log.ofVariable? value = some f →
            '['.toUInt8 ∉ value.bytes) →
          isOn env arguments .noColor = isOn env' others .noColor →
          (∀ e : Log.Event,
            p.log.enables (Logging.ofRequest p.log env r).filter e.target e.level = true →
              p.log.enables (Logging.ofRequest p.log env' q).filter e.target e.level
                = true) →
            (p.run env arguments read).stderr.Sublist (p.run env' others read).stderr) := by
  have hverbose : r.verbose = isOn env arguments .verbose := hflags hr .verbose
  have hverbose' : q.verbose = isOn env' others .verbose := hflags hq .verbose
  have hcolour : r.noColor = isOn env arguments .noColor := hflags hr .noColor
  have hcolour' : q.noColor = isOn env' others .noColor := hflags hq .noColor
  rw [run_of_ok hr, run_of_ok hq, hfile]
  -- for one file, the filter and the colours are all that a run has of its own
  have hsame : (Logging.ofRequest p.log env r).filter = (Logging.ofRequest p.log env' q).filter →
      isOn env arguments .noColor = isOn env' others .noColor →
        Logging.ofRequest p.log env r = Logging.ofRequest p.log env' q := by
    intro hfilter heq
    unfold Logging.ofRequest at hfilter ⊢
    dsimp only at hfilter
    rw [hfilter, hcolour, hcolour', heq]
  obtain ⟨hcode, hstdout⟩ := outcome_congr (Logging.ofRequest p.log env r)
    (Logging.ofRequest p.log env' q) q.file (read q.file)
  refine ⟨⟨hcode, hstdout, texts_outcome _ _ _, texts_outcome _ _ _⟩, ?_, ?_, ?_⟩
  · intro value f hv hw hread heq
    refine congrArg (Logging.outcome · q.file (read q.file)) (hsame ?_ heq)
    unfold Logging.ofRequest
    dsimp only
    rw [hv, hw, Option.bind_some, hread]
    rfl
  · intro hv hw heq
    refine congrArg (Logging.outcome · q.file (read q.file)) (hsame ?_ (heq .noColor))
    unfold Logging.ofRequest
    dsimp only
    rw [hv, hw, hverbose, hverbose', heq]
  · intro hv hw heq hmore
    have hsub := sublist_stderr (looksAtTargets_ofRequest hlists hv r)
      (looksAtTargets_ofRequest hlists hw q) hmore (!r.noColor) q.file (read q.file)
    have hlogging : Logging.mk p.log (Logging.ofRequest p.log env' q).filter (!r.noColor)
        = Logging.ofRequest p.log env' q := by
      rw [hcolour, heq, ← hcolour']
      rfl
    rw [hlogging] at hsub
    exact hsub

/-- Runs on a file with a fault: quiet and with all of the program's own
records, verbose or not with a variable for the log, and verbose by a flag or
by its variable where the one for the log cannot be read. -/
theorem run_log_settings_fault :
    let read : String → Content := fun _ => .ok "#".toUTF8
    let quiet := run ⟨none, some "true", none⟩ ["tokenize", "a.lox"] read
    let full := run ⟨none, none, some "lox=debug"⟩ ["--no-color", "tokenize", "-v", "a.lox"] read
    (quiet.exitCode = full.exitCode ∧ quiet.stdout = full.stdout
        ∧ quiet.texts = ["[line 1] Error: Unexpected character: #\n"]
        ∧ full.texts = ["[line 1] Error: Unexpected character: #\n"])
      ∧ quiet.stderr.Sublist full.stderr
      ∧ run ⟨none, none, some "lox=info"⟩ ["tokenize", "a.lox"] read
        = run ⟨some "false", none, some "lox=info"⟩ ["-v", "tokenize", "a.lox", "--verbose"] read
      ∧ run ⟨none, none, some "lox=loud"⟩ ["tokenize", "a.lox", "-v"] read
        = run ⟨some "true", none, none⟩ ["tokenize", "a.lox"] read := by
  intro read quiet full
  have htexts : textsOf (.ofString "a.lox") (atTexts read (.ofString "a.lox"))
      = ["[line 1] Error: Unexpected character: #\n"] := by
    rw [atTexts_ofString]
    decide +kernel
  have hparse (v : Variables) (arguments : List String) (r : Request)
      (h : readArguments v.environment (arguments.map .ofString) = .ok r) :
      builtin.arguments.parse v.environment (arguments.map .ofString) = .ok r :=
    builtinArguments_parse_eq_ok.2 h
  obtain ⟨hresult, -, -, hmore⟩ := run_log_settings (p := builtin) builtinArguments_flags
    builtinLog_lists (atTexts read)
    (hparse ⟨none, some "true", none⟩ ["tokenize", "a.lox"]
      ⟨false, true, .ofString "a.lox"⟩ (by decide +kernel))
    (hparse ⟨none, none, some "lox=debug"⟩ ["--no-color", "tokenize", "-v", "a.lox"]
      ⟨true, true, .ofString "a.lox"⟩ (by decide +kernel)) rfl
  obtain ⟨-, hsame, -⟩ := run_log_settings (p := builtin) builtinArguments_flags
    builtinLog_lists (atTexts read)
    (hparse ⟨none, none, some "lox=info"⟩ ["tokenize", "a.lox"]
      ⟨false, false, .ofString "a.lox"⟩ (by decide +kernel))
    (hparse ⟨some "false", none, some "lox=info"⟩ ["-v", "tokenize", "a.lox", "--verbose"]
      ⟨true, false, .ofString "a.lox"⟩ (by decide +kernel)) rfl
  obtain ⟨-, -, hunset, -⟩ := run_log_settings (p := builtin) builtinArguments_flags
    builtinLog_lists (atTexts read)
    (hparse ⟨none, none, some "lox=loud"⟩ ["tokenize", "a.lox", "-v"]
      ⟨true, false, .ofString "a.lox"⟩ (by decide +kernel))
    (hparse ⟨some "true", none, none⟩ ["tokenize", "a.lox"]
      ⟨true, false, .ofString "a.lox"⟩ (by decide +kernel)) rfl
  refine ⟨?_, hmore ?_ ?_ (by decide +kernel) ?_, ?_, ?_⟩
  · rw [htexts] at hresult
    exact hresult
  · intro value f h
    cases h
  · intro value f h _
    cases h
    decide +kernel
  · -- no event is as grave as a warning
    have hfilter : (Logging.ofRequest builtin.log (Variables.environment ⟨none, some "true", none⟩)
        ⟨false, true, .ofString "a.lox"⟩).filter = Log.Filter.upTo .warn := by
      decide +kernel
    intro e h
    rw [hfilter] at h
    cases e
    all_goals cases h
  · exact hsame (.ofString "lox=info") [.forTarget "lox" (.upTo .info)] rfl rfl
      (by decide +kernel) (by decide +kernel)
  · exact hunset (by decide +kernel) rfl (fun flag => by cases flag <;> decide +kernel)

end LoxLexer.Command
