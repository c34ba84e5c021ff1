/-
What a run does, step by step. In memory each action of the program adds to
what is done already (`run_log`, `run_forM_write`), so the actions of a run
can be put together to its outcome: without a request it is what the reader
of the arguments has to say (`run_of_error`), and with one it is that of the
request on the content of its file (`run_of_ok`). Behind these two, nothing
speaks of actions any more.
-/
import Mathlib
import LoxLexer.Command.Program

namespace LoxLexer.Command

variable {Stop Filter : Type}

-- ============================================================== the outcome

namespace Logging

/-- The records of some events, as far as they are admitted. An event that is
not leaves nothing behind, and the others keep their order. -/
def messages (lg : Logging Filter) (events : List Log.Event) : List Message :=
  (events.filterMap lg.record?).map .record

/-- The outcome of a run on a file that cannot be read: that it is opened may
be on record, and then there is the reason. -/
def failure (lg : Logging Filter) (file : OsString) (why : ReadFailure) : Outcome where
  exitCode := usageErrorCode
  stdout := ""
  stderr := lg.messages [.tokenizing file.display]
    ++ [.text ("Error: " ++ ("failed to read " ++ file.display ++ ": " ++ why.message)
      ++ "\n")]
  reads := [file]

/-- The outcome of a run on a file with a source text. The records stand around
the diagnostics on the error output, in the order in which the program writes
them. -/
def success (lg : Logging Filter) (file : OsString) (source : String) : Outcome where
  exitCode := (scan source).exitCode
  stdout := unlines ((scan source).tokens.map Token.render)
  stderr := lg.messages [.tokenizing file.display]
    ++ lg.messages (scanEvents source.utf8ByteSize (scan source))
    ++ ((scan source).errors.map fun d => .text (d.render ++ "\n"))
    ++ lg.messages [.done (scan source).tokens.length (scan source).errors.length]
  reads := [file]

/-- The outcome of a run on a file, where its content is known. It is said here
without a program, so that a run can be shown to be this and nothing else
(`run_of_ok`). -/
def outcome (lg : Logging Filter) (file : OsString) (content : Content) : Outcome :=
  match content.text with
  | .error why => lg.failure file why
  | .ok source => lg.success file source

variable {lg : Logging Filter}

theorem messages_cons (e : Log.Event) (events : List Log.Event) :
    lg.messages (e :: events) = lg.messages [e] ++ lg.messages events := by
  rw [messages, messages, messages, ← List.map_append, ← List.filterMap_append,
    List.singleton_append]

end Logging

-- ============================================================== the actions

section

variable {read : OsString → Content} {lg : Logging Filter}

theorem Trace.report_nil (t : Trace) : t.report [] = t := by
  rw [report, List.append_nil]

theorem Trace.report_report (t : Trace) (messages more : List Message) :
    (t.report messages).report more = t.report (messages ++ more) := by
  rw [report, report, report, List.append_assoc]

/-- An event adds its record to the error output, if it has one, and changes
nothing else. -/
theorem run_log (e : Log.Event) (t : Trace) :
    (lg.log (.inMemory read) e).run t = ((), t.report (lg.messages [e])) := by
  unfold Logging.log Logging.messages
  rw [List.filterMap_cons, List.filterMap_nil]
  cases lg.record? e with
  | none => exact congrArg ((), ·) t.report_nil.symm
  | some record => rfl

/-- Events one by one add their records. -/
theorem run_forM_log (events : List Log.Event) (t : Trace) :
    (forM events (lg.log (.inMemory read))).run t = ((), t.report (lg.messages events)) := by
  induction events generalizing t with
  | nil => exact congrArg ((), ·) t.report_nil.symm
  | cons e events ih =>
      rw [List.forM_cons, StateT.run_bind, run_log, Logging.messages_cons e events,
        ← Trace.report_report]
      exact ih _

/-- Diagnostics one by one add a line each. -/
theorem run_forM_write (errors : List Diagnostic) (t : Trace) :
    (forM errors fun d => (System.inMemory read).write .error (d.render ++ "\n")).run t
      = ((), t.report (errors.map fun d => .text (d.render ++ "\n"))) := by
  induction errors generalizing t with
  | nil => exact congrArg ((), ·) t.report_nil.symm
  | cons d errors ih =>
      rw [List.forM_cons, StateT.run_bind, List.map_cons, ← List.singleton_append,
        ← Trace.report_report]
      exact ih _

variable {file : OsString}

/-- A file that cannot be read is opened, and the reason is handed on. -/
theorem run_tokenize_of_error {why : ReadFailure} (h : (read file).text = .error why) :
    (tokenize (.inMemory read) (lg.log (.inMemory read)) file).run .empty
      = (.error ("failed to read " ++ file.display ++ ": " ++ why.message),
          ⟨"", lg.messages [.tokenizing file.display], [file]⟩) := by
  rw [tokenize, StateT.run_bind, run_log]
  -- opening the file is the second action, and what it gives is known
  show StateT.run (match (read file).text with
    | .error why => _
    | .ok source => _) _ = _
  rw [h]
  rfl

/-- A source text gives its diagnostics and tokens, and the exit code. Before it
there is the record of its file, and behind it those of the scan. -/
theorem run_tokenize_of_ok {source : String} (h : (read file).text = .ok source) :
    (tokenize (.inMemory read) (lg.log (.inMemory read)) file).run .empty
      = (.ok (scan source).exitCode, (lg.success file source).toTrace) := by
  rw [tokenize, StateT.run_bind, run_log]
  show StateT.run (match (read file).text with
    | .error why => _
    | .ok source => _) _ = _
  rw [h]
  simp only [StateT.run_bind, run_log, run_forM_log, run_forM_write]
  show (_, Trace.mk ("" ++ _) _ _) = _
  rw [String.empty_append]
  rfl

end

-- ==================================================================== a run

section

variable {p : Libraries Stop Filter} {env : Environment} {arguments : List OsString}

/-- Without a request nothing is read, and the reader's text is all that is
written. Where it goes is the reader's choice, and the exit code is made of
what the reader says of that. -/
theorem run_of_error {stop : Stop} (h : p.arguments.parse env arguments = .error stop)
    (read : OsString → Content) :
    p.run env arguments read
      = { Trace.empty.write (p.arguments.text stop) (p.arguments.stream stop) with
          exitCode := if p.arguments.usesStderr stop then usageErrorCode else 0 } := by
  rw [Libraries.run, program, h]
  rfl

/-- With one the file is read, once, and the outcome depends on its content
and on the log that the request and the variables make. -/
theorem run_of_ok {r : Request} (h : p.arguments.parse env arguments = .ok r)
    (read : OsString → Content) :
    p.run env arguments read
      = (Logging.ofRequest p.log env r).outcome r.file (read r.file) := by
  rw [Libraries.run, program, h, Logging.outcome]
  dsimp only
  rw [StateT.run_bind]
  cases htext : (read r.file).text with
  | error why =>
      rw [run_tokenize_of_error htext]
      rfl
  | ok source =>
      rw [run_tokenize_of_ok htext]
      rfl

end

end LoxLexer.Command
