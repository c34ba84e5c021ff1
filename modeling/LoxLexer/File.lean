/-
Scanning a file. A file is read as a whole or not at all: its bytes must
be the UTF-8 form of a text, and then that text is scanned, with a leading
byte-order mark as its first character. Otherwise reading fails, wherever
the faulty bytes stand.
-/
import LoxLexer.Scan

namespace LoxLexer

/-- Why a file cannot be read. -/
inductive ReadFailure where
  | notFound
  | isADirectory
  | notADirectory
  | invalidText
  /-- A path with a character zero, which the system cannot be given. -/
  | zeroInPath
  /-- Any other refusal, with the system's words and number for it. -/
  | refused (reason : String) (code : Nat)
deriving DecidableEq, Repr

/-- A failure in words; those that the system reports end with its error
number. -/
def ReadFailure.message : ReadFailure → String
  | .notFound => "No such file or directory (os error 2)"
  | .isADirectory => "Is a directory (os error 21)"
  | .notADirectory => "Not a directory (os error 20)"
  | .invalidText => "stream did not contain valid UTF-8"
  | .zeroInPath => "file name contained an unexpected NUL byte"
  | .refused reason code => reason ++ " (os error " ++ toString code ++ ")"

/-- The content of a file: its bytes, or why they cannot be read. -/
abbrev Content := Except ReadFailure ByteArray

namespace Content

/-- The text whose UTF-8 form the content is. -/
def text (content : Content) : Except ReadFailure String :=
  content.bind fun bytes =>
    match String.fromUTF8? bytes with
    | some text => .ok text
    | none => .error .invalidText

theorem fromUTF8?_eq_some_iff {bytes : ByteArray} {text : String} :
    String.fromUTF8? bytes = some text ↔ bytes = text.toUTF8 := by
  unfold String.fromUTF8?
  constructor
  · intro h
    split at h
    · cases h
      rfl
    · cases h
  · rintro rfl
    exact dif_pos text.isValidUTF8

/-- A content has the one text whose UTF-8 form it is, and no other. -/
theorem text_eq_ok_iff {content : Content} {source : String} :
    content.text = .ok source ↔ content = .ok source.toUTF8 := by
  unfold text
  cases content with
  | error why => simp [Except.bind]
  | ok bytes =>
      rw [Except.ok.injEq, ← fromUTF8?_eq_some_iff]
      cases hread : String.fromUTF8? bytes with
      | none => simp [Except.bind, hread]
      | some text => simp [Except.bind, hread]

/-- Bytes that are the UTF-8 form of no text have none. -/
theorem text_of_forall_toUTF8_ne {bytes : ByteArray}
    (h : ∀ text : String, text.toUTF8 ≠ bytes) : text (.ok bytes) = .error .invalidText := by
  cases hread : String.fromUTF8? bytes with
  | none => simp [text, Except.bind, hread]
  | some source => exact absurd (fromUTF8?_eq_some_iff.1 hread).symm (h source)

/-- The scan of a content. -/
def scan (content : Content) : Except ReadFailure Scan := content.text.map LoxLexer.scan

end Content

/-- The scan of the file at a path, where `read` gives what stands there. -/
def scanFile {Path : Type} (read : Path → Content) (path : Path) :
    Except ReadFailure Scan :=
  (read path).scan

end LoxLexer
