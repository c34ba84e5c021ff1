/-
Strings of the system that hold a text. They are shown as this text, which is
the only one they hold; replacement characters come in only where there is a
fault (`display_ofString`, `text?_eq_some_iff`).
-/
import LoxLexer.File
import LoxLexer.Proofs.Text.WellFormed

namespace LoxLexer

/-- The form of a character at the front is shown as this character, and what
is behind is shown as if it stood alone. Only the form of a character is passed
over, so the length of the form has to be known. -/
theorem Utf8.shown_append (c : Char) (rest : List UInt8) :
    shown (String.utf8EncodeChar c ++ rest) = c :: shown rest := by
  have hdecode :
      (String.utf8EncodeChar c ++ rest).toByteArray.utf8DecodeChar? 0
        = some c := by
    rw [List.toByteArray_append, ← List.utf8Encode_singleton]
    exact List.utf8DecodeChar?_utf8Encode_singleton_append
  obtain ⟨first, behind, hform, -, -⟩ := exists_holds_toNat c
  have hlength : c.utf8Size - 1 = behind.length := by
    rw [← String.length_utf8EncodeChar, hform, List.length_cons,
      Nat.add_sub_cancel]
  rw [hform, List.cons_append] at hdecode
  rw [hform, List.cons_append, shown, hdecode]
  dsimp only
  rw [hlength, List.drop_left]

/-- The form of a text is shown as this text, so showing never changes what is
a text. -/
theorem Utf8.shown_utf8 (text : List Char) : shown (utf8 text) = text := by
  induction text with
  | nil => rw [utf8_nil, shown]
  | cons c text ih => rw [utf8_cons, shown_append, ih]

namespace OsString

theorem bytes_ofString (text : String) :
    (ofString text).bytes = utf8 text.toList := by
  rw [toUTF8_ofList_eq_iff.1 rfl, String.ofList_toList, ofString]

/-- Each ASCII character of a text is one of its bytes. Where bytes are
looked for in an argument, it is found by its characters. -/
theorem mem_bytes_ofString {text : String} {c : Char} (h : c ∈ text.toList)
    (hc : c.toNat < 128) : c.toUInt8 ∈ (ofString text).bytes := by
  have hval : c.val.toNat ≤ 0x7F := Nat.le_of_lt_succ hc
  rw [bytes_ofString, utf8, List.mem_flatMap]
  refine ⟨c, h, ?_⟩
  unfold String.utf8EncodeChar
  dsimp only
  rw [if_pos hval, List.mem_singleton]
  rfl

/-- What holds a text is shown as the text. -/
@[simp] theorem display_ofString (text : String) :
    (ofString text).display = text := by
  rw [display, bytes_ofString, Utf8.shown_utf8, String.ofList_toList]

/-- A string has a text just when it is the form of this text. Variables that
have to be texts are told from others in this way. -/
theorem text?_eq_some_iff {s : OsString} {text : String} :
    s.text? = some text ↔ s = ofString text := by
  rw [text?, Content.fromUTF8?_eq_some_iff, OsString.ext_iff, ofString,
    ByteArray.ext_iff, ← Array.toList_inj, List.toList_toArray]

@[simp] theorem text?_ofString (text : String) :
    (ofString text).text? = some text :=
  text?_eq_some_iff.2 rfl

/-- Two texts are never held in the same way. -/
theorem ofString_inj {text other : String} :
    ofString text = ofString other ↔ text = other := by
  refine ⟨fun h => ?_, congrArg ofString⟩
  rw [← display_ofString text, h, display_ofString]

end OsString

end LoxLexer
