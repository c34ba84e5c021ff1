/-
Reading a file exactly, or not at all. A file that holds the UTF-8 form of a
text is read as this text, a byte-order mark included: it is the first
character, and a stray (`scan_byteOrderMark`). In all other files there is a
fault behind the form of some text, and they give neither tokens nor
diagnostics, whatever that text is (`scanFile_exact`). That it ends in a
comment or in an open string, say, makes no difference.
-/
import LoxLexer.Command.Run
import LoxLexer.Directory
import LoxLexer.Proofs.Command.Outcome
import LoxLexer.Proofs.Scan.Blind
import LoxLexer.Proofs.Text.WellFormed

namespace LoxLexer

-- ====================================================== the mark in front

/-- A stray gives its diagnostic, and the rest is read behind it, on the same
line: a line end is no stray. -/
theorem scanFrom_stray {c : Char} (hc : ¬ Starts c) (line : Nat) (after : List Char) :
    scanFrom line (c :: after)
      = Piece.before line ⟨.stray, [c]⟩ (scanFrom (line + [c].count '\n') after) :=
  scanFrom_append (p := ⟨.stray, [c]⟩) (List.cons_ne_nil _ _)
    ((Fits.stray after hc).longest_of_stops trivial) line

/-- A byte-order mark adds a diagnostic to those of the text behind it, and
changes nothing else. -/
theorem scan_byteOrderMark (text : List Char) :
    scan (String.ofList ('\uFEFF' :: text))
      = { tokens := (scan (String.ofList text)).tokens
          errors := ⟨.unexpectedCharacter '\uFEFF', 1⟩
            :: (scan (String.ofList text)).errors } := by
  have hmark : ¬ Starts '\uFEFF' := by
    rw [starts_iff_isKnown]
    decide
  rw [scan_eq_scanFrom, scan_eq_scanFrom, String.toList_ofList, String.toList_ofList,
    scanFrom_stray hmark]
  rfl

-- ========================================================== what is read

section

variable {bytes : ByteArray}

/-- The form of a text is read as this text, whatever it begins with: no mark
is taken off in front. -/
theorem Content.text_of_utf8 {text : List Char} (h : utf8 text = bytes.data.toList) :
    Content.text (.ok bytes) = .ok (String.ofList text) := by
  rw [Content.text_eq_ok_iff, toUTF8_ofList_eq_iff.2 h]

/-- What is the form of no text is refused, and nothing of it is kept. -/
theorem Content.text_of_forall_ne (h : ∀ text, utf8 text ≠ bytes.data.toList) :
    Content.text (.ok bytes) = .error .invalidText := by
  refine Content.text_of_forall_toUTF8_ne fun source hsource => h source.toList ?_
  rw [← toUTF8_ofList_eq_iff, String.ofList_toList, hsource]

variable {read : OsString → Content} {path : OsString}

theorem scanFile_of_utf8 {text : List Char} (hread : read path = .ok bytes)
    (h : utf8 text = bytes.data.toList) :
    scanFile read path = .ok (scan (String.ofList text)) := by
  rw [scanFile, Content.scan, hread, Content.text_of_utf8 h]
  rfl

theorem scanFile_of_forall_ne (hread : read path = .ok bytes)
    (h : ∀ text, utf8 text ≠ bytes.data.toList) :
    scanFile read path = .error .invalidText := by
  rw [scanFile, Content.scan, hread, Content.text_of_forall_ne h]
  rfl

end

namespace Command

/-- A run on a file that is refused says so, and prints nothing, whatever
libraries it is made with. Of the reader of the arguments nothing is used but
that there is a request. -/
theorem run_of_forall_ne {Stop Filter : Type} {p : Libraries Stop Filter}
    {env : Environment} {arguments : List OsString} {r : Request}
    {read : OsString → Content} {bytes : ByteArray}
    (hr : p.arguments.parse env arguments = .ok r) (hread : read r.file = .ok bytes)
    (h : ∀ text, utf8 text ≠ bytes.data.toList) :
    (p.run env arguments read).stdout = "" ∧ (p.run env arguments read).exitCode = 1
      ∧ (p.run env arguments read).texts
        = ["Error: failed to read " ++ r.file.display ++ ": "
            ++ ReadFailure.invalidText.message ++ "\n"] := by
  have hrun : p.run env arguments read
      = (Logging.ofRequest p.log env r).failure r.file .invalidText := by
    rw [run_of_ok hr, hread, Logging.outcome, Content.text_of_forall_ne h]
  rw [hrun]
  exact ⟨rfl, rfl, texts_failure _ _ _⟩

end Command

-- =========================================================== all or nothing

open Command in
/-- A file is read as the one text whose UTF-8 form it holds, also where this
begins with a byte-order mark. If it holds that of none it is refused as a
whole, and a run on it prints nothing, whatever libraries it is made with.
Those that hold one are the well-formed ones; in the others there is a fault
behind the form of some text, which may be any. -/
theorem scanFile_exact {read : OsString → Content} {path : OsString} {bytes : ByteArray}
    (hread : read path = .ok bytes) :
    (∀ text, utf8 text = bytes.data.toList →
        (∀ other, utf8 other = bytes.data.toList → other = text)
          ∧ scanFile read path = .ok (scan (String.ofList text)))
      ∧ (∀ text, [0xEF, 0xBB, 0xBF] ++ utf8 text = bytes.data.toList →
        scanFile read path = .ok (scan (String.ofList ('\uFEFF' :: text)))
          ∧ scanFile read path
            = .ok { tokens := (scan (String.ofList text)).tokens
                    errors := ⟨.unexpectedCharacter '\uFEFF', 1⟩
                      :: (scan (String.ofList text)).errors })
      ∧ ((∀ text, utf8 text ≠ bytes.data.toList) →
        scanFile read path = .error .invalidText
          ∧ ∀ (Stop Filter : Type) (p : Libraries Stop Filter) (env : Environment)
              (arguments : List OsString) (r : Request),
            p.arguments.parse env arguments = .ok r → r.file = path →
              (p.run env arguments read).stdout = ""
                ∧ (p.run env arguments read).exitCode = 1
                ∧ (p.run env arguments read).texts
                  = ["Error: failed to read " ++ path.display ++ ": "
                      ++ ReadFailure.invalidText.message ++ "\n"])
      ∧ ((∃ text, utf8 text = bytes.data.toList) ↔ Utf8.WellFormed bytes.data.toList)
      ∧ ((∀ text, utf8 text ≠ bytes.data.toList)
        ↔ ∃ front rest, bytes.data.toList = utf8 front ++ rest ∧ Utf8.Flawed rest) := by
  refine ⟨fun text htext => ⟨fun other hother => ?_, scanFile_of_utf8 hread htext⟩,
    fun text htext => ?_, fun hnone => ⟨scanFile_of_forall_ne hread hnone, ?_⟩,
    Utf8.wellFormed_iff.symm, Utf8.forall_utf8_ne_iff⟩
  · exact utf8_injective (hother.trans htext.symm)
  · -- the three bytes are the form of the mark
    have hmarked : scanFile read path = .ok (scan (String.ofList ('\uFEFF' :: text))) :=
      scanFile_of_utf8 hread htext
    exact ⟨hmarked, by rw [hmarked, scan_byteOrderMark]⟩
  · rintro Stop Filter p env arguments r hr rfl
    exact run_of_forall_ne hr hread hnone

open Command in
/-- Two files, one with a surrogate in the middle of an open string, behind a
fault and a comment, and one with a byte-order mark in front of a number. -/
theorem scanFile_exact_surrogate :
    let broken : ByteArray :=
      ⟨#[0x23, 0x2F, 0x2F, 0x0A, 0x22, 0xC3, 0xA9, 0xED, 0xA0, 0x80, 0x3B]⟩
    let marked : ByteArray := ⟨#[0xEF, 0xBB, 0xBF, 0x31]⟩
    let d : Directory := ⟨[(["a.lox"], broken), (["b.lox"], marked)], []⟩
    d.read "a.lox" = .ok broken ∧ d.read "b.lox" = .ok marked
      ∧ scanFile (atTexts d.read) (.ofString "a.lox") = .error .invalidText
      ∧ (run ⟨none, none, none⟩ ["tokenize", "a.lox"] d.read).stdout = ""
      ∧ (run ⟨none, none, none⟩ ["tokenize", "a.lox"] d.read).exitCode = 1
      ∧ scanFile (atTexts d.read) (.ofString "b.lox")
        = .ok { tokens := (scan "1").tokens
                errors := ⟨.unexpectedCharacter '\uFEFF', 1⟩ :: (scan "1").errors } := by
  intro broken marked d
  have hbroken : atTexts d.read (.ofString "a.lox") = .ok broken := atTexts_ofString _ _
  have hmarked : atTexts d.read (.ofString "b.lox") = .ok marked := atTexts_ofString _ _
  have hrequest : builtin.arguments.parse (Variables.environment ⟨none, none, none⟩)
      (["tokenize", "a.lox"].map .ofString) = .ok ⟨false, false, .ofString "a.lox"⟩ :=
    builtinArguments_parse_eq_ok.2 (by decide +kernel)
  obtain ⟨-, -, hrefused, -, hflawed⟩ := scanFile_exact hbroken
  obtain ⟨-, hmark, -⟩ := scanFile_exact hmarked
  have hsurrogate : Utf8.Holds 0xED [0xA0, 0x80] 0xD800 :=
    .three (by decide) (And.intro (by decide) (by decide)) (And.intro (by decide) (by decide))
  obtain ⟨hscan, hrun⟩ := hrefused (hflawed.2 ⟨"#//\n\"é".toList, [0xED, 0xA0, 0x80, 0x3B],
    by decide +kernel, .surrogate hsurrogate (by decide) [0x3B]⟩)
  obtain ⟨hstdout, hcode, -⟩ := hrun _ _ builtin _ _ _ hrequest rfl
  exact ⟨rfl, rfl, hscan, hstdout, hcode, (hmark ['1'] (by decide +kernel)).2⟩

end LoxLexer
